import FormulaSynth.Cli.Usage
import FormulaSynth.Number.Literal

set_option autoImplicit false
namespace FormulaSynth.Cli

inductive Halt
  | misuse
  | help (usage : Usage)
  | version
deriving DecidableEq, Repr

def Operand.admits (operand : Operand) (value : String) : Bool :=
  match operand with
  | text => true
  | path => !value.isEmpty
  | number => (Binary64.readWord? value.toList).isSome

structure Arguments where
  options : List (String × String)
  operands : List String
  rest : List String

namespace Arguments

def none : Arguments := ⟨[], [], []⟩

def option? (a : Arguments) (name : String) : Option String := a.options.lookup name

def isOn (a : Arguments) (name : String) : Bool := (a.option? name).isSome

def addOption (a : Arguments) (name : String) (operand : Operand) (value : String) : Except Halt Arguments :=
  if a.isOn name || !operand.admits value then .error .misuse
  else .ok { a with options := a.options ++ [(name, value)] }

def addOperand (a : Arguments) (usage : Usage) (value : String) : Except Halt Arguments :=
  match usage.operands[a.operands.length]? with
  | some spec =>
    if spec.operand.admits value then .ok { a with operands := a.operands ++ [value] } else .error .misuse
  | Option.none => .error .misuse

end Arguments

def isOption (word : String) : Bool := word.startsWith "-" && word != "-"

def splitValue (word : List Char) : List Char × Option String :=
  let name := word.takeWhile (· != '=')
  (name, if name.length < word.length then some (String.ofList (word.drop (name.length + 1))) else none)

def addNamed (usage : Usage) (a : Arguments) (spec : OptionSpec) (value : Option String) (next : List String) :
    Except Halt (Arguments × List String) :=
  match spec.action, value, next with
  | .help, none, _ => .error (.help usage)
  | .version, none, _ => .error .version
  | .switch, none, _ => do return (← a.addOption spec.name .text "", next)
  | .value operand, some value, _ => do return (← a.addOption spec.name operand value, next)
  | .value operand, none, value :: next =>
    if isOption value then .error .misuse else do return (← a.addOption spec.name operand value, next)
  | _, _, _ => .error .misuse

def addLong (usage : Usage) (a : Arguments) (word : List Char) (next : List String) :
    Except Halt (Arguments × List String) :=
  let (name, value) := splitValue word
  match usage.options.find? (·.name == String.ofList name) with
  | some spec => addNamed usage a spec value next
  | none => .error .misuse

/-- Short options may stand together, up to one that takes the remaining characters as its value. -/
def addShort (usage : Usage) (a : Arguments) (next : List String) : List Char → Except Halt (Arguments × List String)
  | [] => .ok (a, next)
  | c :: more =>
    match usage.options.find? (·.short == some c) with
    | none => .error .misuse
    | some spec =>
      if spec.takesValue then
        let value := if more.head? == some '=' then more.drop 1 else more
        addNamed usage a spec (if more.isEmpty then none else some (String.ofList value)) next
      else do
        let (a, next) ← addNamed usage a spec none next
        addShort usage a next more

def readWords (usage : Usage) (fuel : Nat) (a : Arguments) (words : List String) : Except Halt Arguments :=
  match fuel, words with
  | 0, _ => .ok a
  | _, [] => .ok a
  | fuel + 1, word :: next =>
    if word == "--" then
      if usage.hasCommands then .error .misuse else next.foldlM (fun a w => a.addOperand usage w) a
    else match word.toList with
      | '-' :: '-' :: name => do
        let (a, next) ← addLong usage a name next
        readWords usage fuel a next
      | '-' :: c :: more => do
        let (a, next) ← addShort usage a next (c :: more)
        readWords usage fuel a next
      | _ =>
        if usage.hasCommands then return { a with operands := [word], rest := next }
        else do readWords usage fuel (← a.addOperand usage word) next

def Arguments.read (usage : Usage) (words : List String) : Except Halt Arguments :=
  readWords usage words.length .none words

end FormulaSynth.Cli
