import FormulaSynth.Document.Record
import FormulaSynth.Document.Yaml.Node
import FormulaSynth.Document.Yaml.Plain

set_option autoImplicit false
namespace FormulaSynth.Document.Yaml
namespace Node

def text? : Node → Option String
  | .scalar _ _ s => some s
  | _ => none

/-- The text of a scalar that may mean a value of the core type `kind`. -/
def plainText? (kind : String) : Node → Option String
  | .scalar .plain _ s => some s
  | .scalar .literal tag s => if tag == some (coreTags ++ kind) then some s else none
  | _ => none

def isBlank : Node → Bool
  | .scalar .plain _ s => s.isEmpty
  | _ => false

end Node

namespace Value

def target (v : Value) : Node :=
  match v.node with
  | .alias id => v.anchored[id]?.getD .empty
  | n => n

def inside (v : Value) (n : Node) : Value := { v with node := n }

def items? (v : Value) : Option (List Value) :=
  match v.target with
  | .sequence items => some (items.map v.inside)
  | n => if n.isBlank then some [] else none

def entries? (v : Value) : Option (List (String × Value)) :=
  match v.target with
  | .mapping entries => entries.mapM fun (key, value) => do
    return (← (v.inside key).target.text?, v.inside value)
  | n => if n.isBlank then some [] else none

instance : Datum Value where
  text? v := v.target.text?
  truth? v := (v.target.plainText? "bool").bind truth?
  count? v := (v.target.plainText? "int").bind count?
  float? v := (v.target.plainText? "float").bind float?
  items? := items?
  fields? names v := v.entries?.bind (pick names)

end Value

/-- How many aliases are followed where a value is read. -/
abbrev Expansion := Value → Nat

namespace Expansion

def scalar : Expansion := fun v =>
  match v.node with
  | .alias _ => 1
  | _ => 0

def list (item : Expansion) : Expansion := fun v =>
  match v.target with
  | .sequence items => items.foldl (fun n x => n + item (v.inside x)) (scalar v)
  | _ => scalar v

def record (fields : List (String × Expansion)) : Expansion := fun v =>
  let entry (key value : Value) : Nat :=
    scalar key + (key.target.text?.bind (fields.lookup ·)).elim 0 fun field => field value
  match v.target with
  | .mapping entries => entries.foldl (fun n (k, x) => n + entry (v.inside k) (v.inside x)) (scalar v)
  | _ => scalar v

/-- The most aliases that may be followed for every step of the spelling. -/
def limit : Nat := 100

end Expansion

def Value.read? {β : Type} (expansion : Expansion) (read : Value → Option β) (text : String) : Option β := do
  let v ← parse? text
  if Expansion.limit * v.node.events < expansion v then none else read v

end FormulaSynth.Document.Yaml
