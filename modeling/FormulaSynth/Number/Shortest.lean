import FormulaSynth.Number.Binary64

set_option autoImplicit false
namespace FormulaSynth

structure Decimal where
  digits : Nat
  exponent : Int
deriving DecidableEq, Repr

inductive Tie
  | up
  | even
deriving DecidableEq, Repr

namespace Binary64

/-- The ends of the rounding interval in quarters of the last place. Below a power of two the
    doubles lie twice as dense. -/
def lowerQuarters (b : Binary64) : Nat :=
  4 * b.significand - (if b.significand = Nat.pow 2 52 ∧ 1 < b.exponentField then 1 else 2)

def upperQuarters (b : Binary64) : Nat := 4 * b.significand + 2

def quarterOnGrid (b : Binary64) (k : Int) : Nat × Nat :=
  let q := b.exponent - 2
  (Nat.pow 2 q.toNat * Nat.pow 10 (-k).toNat, Nat.pow 2 (-q).toNat * Nat.pow 10 k.toNat)

/-- Whether `c · 10 ^ k` reads back as `b`. The ends belong to the interval when the significand is even. -/
def readsBack (b : Binary64) (k : Int) (c : Nat) : Bool :=
  let (num, den) := b.quarterOnGrid k
  let low := b.lowerQuarters * num
  let high := b.upperQuarters * num
  if b.significand % 2 = 0 then low ≤ c * den && c * den ≤ high
  else low < c * den && c * den < high

def onGrid? (tie : Tie) (b : Binary64) (k : Int) : Option Decimal :=
  let (num, den) := b.quarterOnGrid k
  let below := 4 * b.significand * num / den
  let rest := 4 * b.significand * num % den
  match b.readsBack k below, b.readsBack k (below + 1) with
  | true, true =>
    let upward := den < 2 * rest || 2 * rest == den && (tie == .up || below % 2 == 1)
    some ⟨if upward then below + 1 else below, k⟩
  | true, false => some ⟨below, k⟩
  | false, true => some ⟨below + 1, k⟩
  | false, false => none

/-- The number of decimal places before the point of `num / den`, negative for leading zeros after it.
    The estimate from the binary logarithm is off by one at most. -/
def decimalPlaces (num den : Nat) : Int :=
  let k := floorLog num den * 30103 / 100000
  let reaches (j : Int) : Bool := den * Nat.pow 10 j.toNat ≤ num * Nat.pow 10 (-j).toNat
  if reaches (k + 1) then k + 2 else if reaches k then k + 1 else k

def shortest (tie : Tie) (b : Binary64) : Decimal :=
  let places := decimalPlaces (b.significand * Nat.pow 2 b.exponent.toNat) (Nat.pow 2 (-b.exponent).toNat)
  let found := (List.range 17).findSome? fun i => b.onGrid? tie (places - (i + 1 : Nat))
  match found with
  | some d => if d.digits % 10 = 0 then ⟨d.digits / 10, d.exponent + 1⟩ else d
  | none => ⟨0, 0⟩

end Binary64
end FormulaSynth
