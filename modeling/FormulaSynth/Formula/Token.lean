import FormulaSynth.Number.Written
import FormulaSynth.Text.Quoted

set_option autoImplicit false
namespace FormulaSynth

/-- Line and column, both from 1. -/
structure Position where
  line : Nat
  column : Nat
deriving DecidableEq, Repr

namespace Position

def start : Position := ⟨1, 1⟩

def next (p : Position) (c : Char) : Position :=
  if c = '\n' then ⟨p.line + 1, 1⟩ else ⟨p.line, p.column + 1⟩

def after (p : Position) (text : List Char) : Position := text.foldl next p

theorem after_nil (p : Position) : p.after [] = p := rfl

theorem after_cons (p : Position) (c : Char) (text : List Char) :
    p.after (c :: text) = (p.next c).after text := rfl

end Position

namespace Formula

inductive Lexeme
  | ident (name : String)
  | number (value : Binary64)
  | plus
  | minus
  | star
  | slash
  | openParen
  | closeParen
  | comma
deriving DecidableEq, Repr

structure Token where
  lexeme : Lexeme
  position : Position
deriving DecidableEq, Repr

structure TokenStream where
  tokens : List Token
  stop : Position
deriving DecidableEq, Repr

def Lexeme.describe : Lexeme → String
  | .ident name => s!"identifier {Text.quoted name}"
  | .number value => s!"number {value.message}"
  | .plus => "'+'"
  | .minus => "'-'"
  | .star => "'*'"
  | .slash => "'/'"
  | .openParen => "'('"
  | .closeParen => "')'"
  | .comma => "','"

def describeFound : Option Lexeme → String
  | some lexeme => lexeme.describe
  | none => "end of input"

end Formula
end FormulaSynth
