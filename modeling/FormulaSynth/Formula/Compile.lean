import FormulaSynth.Formula.Parse
import FormulaSynth.Formula.Code

set_option autoImplicit false
namespace FormulaSynth.Formula

def maxConstants : Nat := 256

/-- Puts a name into an ascending list that has each name once. -/
def insertName (name : String) : List String → List String
  | [] => [name]
  | other :: rest =>
    if name < other then name :: other :: rest
    else if name = other then other :: rest
    else other :: insertName name rest

structure Draft where
  code : Array Op
  constants : Array Binary64
  functions : List String

namespace Draft

def empty : Draft := ⟨#[], #[], []⟩

def push (d : Draft) (op : Op) : Draft := { d with code := d.code.push op }

def constant (d : Draft) (value : Binary64) (position : Position) : Except Fault Draft :=
  match d.constants.idxOf? value with
  | some slot => .ok (d.push (.const slot.toUInt8))
  | none =>
    if d.constants.size < maxConstants then
      .ok ({ d with constants := d.constants.push value }.push (.const d.constants.size.toUInt8))
    else .error ⟨.tooManyConstants maxConstants, position⟩

def ident (d : Draft) (name : String) (position : Position) : Except Fault Draft :=
  if name = "x" then .ok (d.push .arg)
  else match namedConstant? name with
    | some value => d.constant value position
    | none => .error ⟨.unknownVariable name, position⟩

def callee (name : String) (given : Nat) (position : Position) : Except Fault BuiltinEntry :=
  match builtin? name with
  | none => .error ⟨.unknownFunction name, position⟩
  | some f => if given = f.arity then .ok f else .error ⟨.wrongArity name f.arity given, position⟩

def program (d : Draft) : Program := ⟨d.code, d.constants, d.functions, deepest d.code⟩

end Draft

def BinaryOp.instruction : BinaryOp → Op
  | .add => .add
  | .sub => .sub
  | .mul => .mul
  | .div => .div

def emit (d : Draft) : Tree → Except Fault Draft
  | .number value position => d.constant value position
  | .ident name position => d.ident name position
  | .neg operand => do return (← emit d operand).push .neg
  | .binary op left right => do
    let d ← emit d left
    let d ← emit d right
    return d.push op.instruction
  | .call name args position => do
    let f ← Draft.callee name args.length position
    let d ← emitAll { d with functions := insertName f.name d.functions } args
    return d.push (.call f.builtin)
where
  emitAll (d : Draft) : List Tree → Except Fault Draft
    | [] => .ok d
    | t :: rest => do emitAll (← emit d t) rest

def compileTree (t : Tree) : Except Fault Program := do return (← emit .empty t).program

def compile (source : String) : Except Fault Program := do compileTree (← parse source)

end FormulaSynth.Formula
