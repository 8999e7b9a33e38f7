import FormulaSynth.Number.Shortest
import FormulaSynth.Text.Basic

set_option autoImplicit false
namespace FormulaSynth
open Text

namespace Decimal

def text (d : Decimal) : List Char := Nat.toDigits 10 d.digits

def pointPlace (d : Decimal) : Int := (d.text.length : Int) + d.exponent

def zeros (n : Int) : List Char := List.replicate n.toNat '0'

def positional (wholeMark : List Char) (d : Decimal) : List Char :=
  let place := d.pointPlace
  if 0 ≤ d.exponent then d.text ++ zeros d.exponent ++ wholeMark
  else if 0 < place then d.text.take place.toNat ++ '.' :: d.text.drop place.toNat
  else '0' :: '.' :: zeros (-place) ++ d.text

def scientific (plus : List Char) (d : Decimal) : List Char :=
  let mantissa := match d.text with
    | first :: [] => [first]
    | first :: more => first :: '.' :: more
    | [] => []
  let exponent := d.pointPlace - 1
  mantissa ++ 'e' :: (if exponent < 0 then [] else plus) ++ (toString exponent).toList

end Decimal

structure NumberStyle where
  tie : Tie
  isPositional : Int → Bool
  wholeMark : List Char
  exponentPlus : List Char
  infinity : String
  nan : String

def NumberStyle.message : NumberStyle := ⟨.up, fun _ => true, [], [], "inf", "NaN"⟩

/-- Documents keep a point in whole numbers and change to an exponent outside `1e-5 … 1e16`. -/
def NumberStyle.document (exponentPlus : List Char) (infinity nan : String) : NumberStyle :=
  ⟨.even, fun place => -5 < place && place ≤ 16, ['.', '0'], exponentPlus, infinity, nan⟩

def NumberStyle.yaml : NumberStyle := .document [] ".inf" ".nan"

def NumberStyle.json : NumberStyle := .document ['+'] "null" "null"

namespace Binary64

def withSign (b : Binary64) (s : String) : String := if b.isNegative then "-" ++ s else s

def written (style : NumberStyle) (b : Binary64) : String :=
  if b.isNaN then style.nan
  else if b.isInfinite then b.withSign style.infinity
  else if b.significand = 0 then b.withSign (String.ofList ('0' :: style.wholeMark))
  else
    let d := b.shortest style.tie
    b.withSign <| String.ofList <|
      if style.isPositional d.pointPlace then d.positional style.wholeMark else d.scientific style.exponentPlus

def message (b : Binary64) : String := b.written .message

/-- The exact value rounded to `places` decimals, of two the even one, right-aligned in `width`. -/
def fixed (width places : Nat) (b : Binary64) : String :=
  let body :=
    if b.isNaN then "NaN"
    else if b.isInfinite then b.withSign "inf"
    else
      let scaled :=
        roundDiv (b.significand * Nat.pow 2 b.exponent.toNat * Nat.pow 10 places) (Nat.pow 2 (-b.exponent).toNat)
      let digits := Nat.toDigits 10 scaled
      let padded := List.replicate (places + 1 - digits.length) '0' ++ digits
      let whole := padded.length - places
      b.withSign (String.ofList (padded.take whole ++ '.' :: padded.drop whole))
  padLeft width body

end Binary64
end FormulaSynth
