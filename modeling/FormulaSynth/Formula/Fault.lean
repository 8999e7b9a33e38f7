import FormulaSynth.Formula.Token

set_option autoImplicit false
namespace FormulaSynth.Formula

inductive Fault.Kind
  | lex
  | parse
  | unknownIdent
  | unknownFunction
  | arity
  | constantPool
deriving DecidableEq, Repr

inductive Fault.Cause
  | unexpectedCharacter (c : Char)
  | invalidNumber (text : String)
  | emptyExpression
  | leftOver (found : Lexeme)
  | unaryPlus
  | unexpected (found : Option Lexeme)
  | missing (wanted : Lexeme) (found : Option Lexeme)
  | calleeNotName
  | tooDeep
  | tooLong
  | unknownVariable (name : String)
  | unknownFunction (name : String)
  | wrongArity (name : String) (expected found : Nat)
  | tooManyConstants (limit : Nat)
deriving DecidableEq, Repr

structure Fault where
  cause : Fault.Cause
  position : Position
deriving DecidableEq, Repr

namespace Fault

def Cause.kind : Cause → Kind
  | .unexpectedCharacter _ | .invalidNumber _ => .lex
  | .unknownVariable _ => .unknownIdent
  | .unknownFunction _ => .unknownFunction
  | .wrongArity .. => .arity
  | .tooManyConstants _ => .constantPool
  | _ => .parse

def Kind.label : Kind → String
  | .lex => "Lex"
  | .parse => "Parse"
  | .unknownIdent => "UnknownIdent"
  | .unknownFunction => "UnknownFunction"
  | .arity => "Arity"
  | .constantPool => "ConstantPool"

def Cause.message : Cause → String
  | .unexpectedCharacter c => s!"unexpected character: '{c}'"
  | .invalidNumber text => s!"invalid number: {text}"
  | .emptyExpression => "empty expression"
  | .leftOver found => s!"unexpected {found.describe} after expression"
  | .unaryPlus => "unexpected unary operator: +"
  | .unexpected found => s!"unexpected {describeFound found}"
  | .missing wanted found => s!"expected {wanted.describe}, got {describeFound found}"
  | .calleeNotName => "expected a function name, found something else"
  | .tooDeep => "expression nested too deeply"
  | .tooLong => "expression too long"
  | .unknownVariable name => s!"unknown variable {Text.quoted name}"
  | .unknownFunction name => s!"unknown function {Text.quoted name}"
  | .wrongArity name expected found =>
    s!"{Text.quoted name} expects {expected} arguments, found {found}"
  | .tooManyConstants limit => s!"too many distinct constants (limit is {limit})"

def kind (f : Fault) : Kind := f.cause.kind
def message (f : Fault) : String := f.cause.message

def display (f : Fault) : String :=
  s!"[{f.position.line}:{f.position.column}] {f.kind.label}: {f.message}"

def details (f : Fault) : String :=
  s!"CompileError \x7b message: {Text.quoted f.message}, line: {f.position.line}, " ++
    s!"col: {f.position.column}, kind: {f.kind.label} \x7d"

end Fault
end FormulaSynth.Formula
