import FormulaSynth.Number.Literal

set_option autoImplicit false
namespace FormulaSynth.Document.Yaml
open Text

def isNull (s : String) : Bool := ["", "~", "null", "Null", "NULL"].contains s

def truth? (s : String) : Option Bool :=
  if ["true", "True", "TRUE"].contains s then some true
  else if ["false", "False", "FALSE"].contains s then some false
  else none

/-- A sign or none, and more than one digit, the first a zero: such a scalar is no number. -/
def isZeroPadded (text : List Char) : Bool :=
  let digits := match text with
    | '-' :: r => r
    | '+' :: r => r
    | r => r
  1 < digits.length && digits.head? == some '0' && digits.all Char.isDigit

def digitsIn? (base : Nat) (digits : List Char) : Option Nat := do
  let values ← digits.mapM hexDigit?
  if values.isEmpty || values.any (base ≤ ·) then none else return digitsValue base values

def magnitude? : List Char → Option Nat
  | '0' :: 'x' :: r => digitsIn? 16 r
  | '0' :: 'o' :: r => digitsIn? 8 r
  | '0' :: 'b' :: r => digitsIn? 2 r
  | text => if isZeroPadded text then none else digitsIn? 10 text

def count? (s : String) : Option Nat :=
  match s.toList with
  | '+' :: r => magnitude? r
  | text => magnitude? text

def wordLimit : Nat := Nat.pow 2 128

def isInteger (s : String) : Bool :=
  match s.toList with
  | '-' :: r => (magnitude? r).any (· ≤ wordLimit / 2)
  | _ => (count? s).any (· < wordLimit)

def float? (s : String) : Option Binary64 :=
  if [".inf", ".Inf", ".INF", "+.inf", "+.Inf", "+.INF"].contains s then some .infinity
  else if ["-.inf", "-.Inf", "-.INF"].contains s then some Binary64.infinity.neg
  else if [".nan", ".NaN", ".NAN"].contains s then some .nan
  else (Binary64.read? s.toList).filter Binary64.isFinite

/-- Whether a plain scalar of this spelling would be taken for something else than its text. -/
def isAmbiguous (s : String) : Bool :=
  isNull s || (truth? s).isSome || isInteger s || isZeroPadded s.toList || (float? s).isSome

end FormulaSynth.Document.Yaml
