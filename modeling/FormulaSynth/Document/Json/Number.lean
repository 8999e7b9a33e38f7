import FormulaSynth.Number.Literal

set_option autoImplicit false
namespace FormulaSynth

namespace Binary64

def ratio (b : Binary64) : Nat × Nat :=
  (b.significand * Nat.pow 2 b.exponent.toNat, Nat.pow 2 (-b.exponent).toNat)

def product (a b : Binary64) : Binary64 := ofRatio (a.ratio.1 * b.ratio.1) (a.ratio.2 * b.ratio.2)

def quotient (a b : Binary64) : Binary64 := ofRatio (a.ratio.1 * b.ratio.2) (a.ratio.2 * b.ratio.1)

end Binary64

namespace Document.Json
open Text

def wordLimit : Nat := Nat.pow 2 64

def significandFrom (n : Nat) : List Char → Nat × Nat
  | [] => (n, 0)
  | c :: r =>
    let next := 10 * n + decimalDigit c
    if next < wordLimit then significandFrom next r else (n, r.length + 1)

def greatestStep : Nat := 308

def powerOfTen (n : Nat) : Binary64 := .ofNat (Nat.pow 10 n)

def scaledDown (b : Binary64) (n : Nat) : Binary64 :=
  if n ≤ greatestStep then b.quotient (powerOfTen n)
  else if b = .zero then b
  else scaledDown (b.quotient (powerOfTen greatestStep)) (n - greatestStep)
termination_by n
decreasing_by simp only [greatestStep] at *; omega

def scaledUp? (b : Binary64) (n : Nat) : Option Binary64 :=
  if n ≤ greatestStep then finite? (b.product (powerOfTen n))
  else if b = .zero then some b
  else none
where
  finite? (b : Binary64) : Option Binary64 := if b.isFinite then some b else none

def exponentLimit : Int := 2147483648

/-- The magnitude of a number. A positive exponent of more than 31 bits fits only zero. -/
def magnitude? (literal : DecimalLiteral) : Option Binary64 :=
  let (whole, dropped) := significandFrom 0 literal.whole
  let (significand, left) := significandFrom whole literal.fractionDigits
  let point : Int := (dropped : Int) - (literal.fractionDigits.length - left : Nat)
  let spelled := DecimalLiteral.exponentValue literal.exponent
  if exponentLimit ≤ spelled.natAbs then
    if significand ≠ 0 ∧ 0 < spelled then none else some .zero
  else
    let exponent := point + spelled
    if 0 ≤ exponent then scaledUp? (.ofNat significand) exponent.toNat
    else some (scaledDown (.ofNat significand) (-exponent).toNat)

end Document.Json
end FormulaSynth
