import FormulaSynth.Formula.Fault
import FormulaSynth.Number.Literal
import FormulaSynth.Text.Basic

set_option autoImplicit false
namespace FormulaSynth.Formula
open Text

/-- The lexeme at the front of `c :: r` and how many characters of `r` belong to it. -/
abbrev Extent := Except Fault.Cause (Lexeme × Nat)

def decimalAt (s : List Char) : Extent :=
  let literal := DecimalLiteral.longest s
  if literal.value.isFinite then .ok (.number literal.value, literal.text.length - 1)
  else .error (.invalidNumber (String.ofList literal.text))

/-- After `0x` all letters and digits belong to the literal, whether they make a number or not. -/
def hexAt (r : List Char) : Extent :=
  let digits := r.takeWhile Char.isAlphanum
  match digits.mapM hexDigit? with
  | some values =>
    let value := digitsValue 16 values
    if values ≠ [] ∧ value < Nat.pow 2 64 then .ok (.number (Binary64.ofNat value), digits.length + 1)
    else .error (.invalidNumber ("0x" ++ String.ofList digits))
  | none => .error (.invalidNumber ("0x" ++ String.ofList digits))

def numberAt (s : List Char) : Extent :=
  match s with
  | '0' :: 'x' :: r | '0' :: 'X' :: r => hexAt r
  | s => decimalAt s

def isIdentStart (c : Char) : Bool := c.isAlpha || c == '_'
def isIdentChar (c : Char) : Bool := c.isAlphanum || c == '_'

def identAt (c : Char) (r : List Char) : Lexeme × Nat :=
  let name := r.takeWhile isIdentChar
  (.ident (String.ofList (c :: name)), name.length)

def symbol? : Char → Option Lexeme
  | '+' => some .plus
  | '-' => some .minus
  | '*' => some .star
  | '/' => some .slash
  | '(' => some .openParen
  | ')' => some .closeParen
  | ',' => some .comma
  | _ => none

def lexemeAt (c : Char) (r : List Char) : Extent :=
  match symbol? c with
  | some lexeme => .ok (lexeme, 0)
  | none =>
    if c.isDigit || (c == '.' && startsWithDigit r) then numberAt (c :: r)
    else if isIdentStart c then .ok (identAt c r)
    else .error (.unexpectedCharacter c)

/-- `done` holds the tokens found so far, the last one first. -/
def scanFrom (p : Position) (done : List Token) : List Char → Except Fault TokenStream
  | [] => .ok ⟨done.reverse, p⟩
  | c :: r =>
    if Text.isBlank c then scanFrom (p.next c) done r
    else match lexemeAt c r with
      | .error cause => .error ⟨cause, p⟩
      | .ok (lexeme, more) =>
        scanFrom ((p.next c).after (r.take more)) (⟨lexeme, p⟩ :: done) (r.drop more)
termination_by s => s.length
decreasing_by all_goals simp_wf; try omega

def tokenize (source : String) : Except Fault TokenStream := scanFrom .start [] source.toList

end FormulaSynth.Formula
