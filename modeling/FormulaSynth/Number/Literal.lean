import FormulaSynth.Number.Binary64
import FormulaSynth.Text.Basic

set_option autoImplicit false
namespace FormulaSynth
open Text

/-- A decimal number as it is spelled. `exponent` holds its letter, its sign and its digits. -/
structure DecimalLiteral where
  whole : List Char
  fraction : Option (List Char)
  exponent : List Char

namespace DecimalLiteral

def fractionDigits (d : DecimalLiteral) : List Char := d.fraction.getD []

def text (d : DecimalLiteral) : List Char :=
  d.whole ++ (match d.fraction with | some f => '.' :: f | none => []) ++ d.exponent

def exponentValue : List Char → Int
  | _ :: '-' :: digits => -(digitsValue 10 (digits.map decimalDigit) : Int)
  | _ :: '+' :: digits => digitsValue 10 (digits.map decimalDigit)
  | _ :: digits => digitsValue 10 (digits.map decimalDigit)
  | [] => 0

def digits (d : DecimalLiteral) : List Char := d.whole ++ d.fractionDigits

def value (d : DecimalLiteral) : Binary64 :=
  Binary64.ofDecimal (digitsValue 10 (d.digits.map decimalDigit))
    (exponentValue d.exponent - d.fractionDigits.length)

/-- An exponent counts only when a digit follows its letter and its sign. -/
def exponentAt : List Char → List Char
  | e :: s :: r =>
    if e = 'e' ∨ e = 'E' then
      if s = '+' ∨ s = '-' then
        if startsWithDigit r then e :: s :: r.takeWhile Char.isDigit else []
      else if s.isDigit then e :: (s :: r).takeWhile Char.isDigit else []
    else []
  | _ => []

def longest (s : List Char) : DecimalLiteral :=
  let whole := s.takeWhile Char.isDigit
  match s.dropWhile Char.isDigit with
  | '.' :: r => ⟨whole, some (r.takeWhile Char.isDigit), exponentAt (r.dropWhile Char.isDigit)⟩
  | r => ⟨whole, none, exponentAt r⟩

end DecimalLiteral

namespace Binary64

def read? (text : List Char) : Option Binary64 :=
  let (negative, body) := match text with
    | '-' :: r => (true, r)
    | '+' :: r => (false, r)
    | r => (false, r)
  let literal := DecimalLiteral.longest body
  if literal.digits.isEmpty || literal.text.length < body.length then none
  else some (if negative then literal.value.neg else literal.value)

def readWord? (text : List Char) : Option Binary64 :=
  let word := String.ofList (text.map Char.toLower)
  if ["inf", "+inf", "infinity", "+infinity"].contains word then some infinity
  else if ["-inf", "-infinity"].contains word then some infinity.neg
  else if ["nan", "+nan"].contains word then some nan
  else if word == "-nan" then some nan.neg
  else read? text

end Binary64
end FormulaSynth
