import FormulaSynth.Text.Basic

set_option autoImplicit false
namespace FormulaSynth.Cli
open Text

inductive Operand
  | text
  | path
  | number
deriving DecidableEq, Repr

inductive Action
  | switch
  | value (operand : Operand)
  | help
  | version
deriving DecidableEq, Repr

structure OptionSpec where
  name : String
  short : Option Char
  action : Action
  about : String
deriving DecidableEq, Repr

inductive Occurrence
  | once
  | optional
  | repeated
deriving DecidableEq, Repr

structure OperandSpec where
  name : String
  operand : Operand
  occurrence : Occurrence
  about : String
deriving DecidableEq, Repr

structure Usage where
  name : String
  about : String
  commands : List (String × String)
  operands : List OperandSpec
  options : List OptionSpec
deriving DecidableEq, Repr

namespace OptionSpec

def takesValue (o : OptionSpec) : Bool :=
  match o.action with
  | .value _ => true
  | _ => false

def spelling (o : OptionSpec) : String :=
  let short := o.short.elim "    " fun c => s!"-{c}, "
  let value := if o.takesValue then s!" <{o.name.map Char.toUpper}>" else ""
  short ++ "--" ++ o.name ++ value

end OptionSpec

def OperandSpec.spelling (o : OperandSpec) : String :=
  match o.occurrence with
  | .once => s!"<{o.name}>"
  | .optional => s!"[{o.name}]"
  | .repeated => s!"[{o.name}]..."

namespace Usage

def hasCommands (u : Usage) : Bool := !u.commands.isEmpty

def call (u : Usage) : String :=
  let options := if u.options.isEmpty then [] else ["[OPTIONS]"]
  let command := if u.hasCommands then ["<COMMAND>"] else []
  " ".intercalate ("Usage:" :: u.name :: options ++ u.operands.map OperandSpec.spelling ++ command)

def listed (title : String) (rows : List (String × String)) : List String :=
  let width := (rows.map fun (term, _) => term.length).foldl max 0
  if rows.isEmpty then []
  else "" :: (title ++ ":") :: rows.map fun (term, about) => s!"  {padRight width term}  {about}"

def help (u : Usage) : List String :=
  [u.about, "", u.call] ++
    listed "Commands" u.commands ++
    listed "Arguments" (u.operands.map fun o => (o.spelling, o.about)) ++
    listed "Options" (u.options.map fun o => (o.spelling, o.about))

end Usage
end FormulaSynth.Cli
