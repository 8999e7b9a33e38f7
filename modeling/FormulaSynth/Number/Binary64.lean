set_option autoImplicit false
namespace FormulaSynth

structure Binary64 where
  bits : UInt64
deriving DecidableEq, Inhabited, Repr

namespace Binary64

def zero : Binary64 := ⟨0⟩
def one : Binary64 := ⟨0x3ff0000000000000⟩
def infinity : Binary64 := ⟨0x7ff0000000000000⟩
def nan : Binary64 := ⟨0x7ff8000000000000⟩

def isNegative (b : Binary64) : Bool := b.bits >>> 63 == 1
def exponentField (b : Binary64) : Nat := ((b.bits >>> 52) &&& 0x7ff).toNat
def fractionField (b : Binary64) : Nat := (b.bits &&& 0xfffffffffffff).toNat

def isFinite (b : Binary64) : Bool := b.exponentField != 0x7ff
def isNaN (b : Binary64) : Bool := b.exponentField == 0x7ff && b.fractionField != 0
def isInfinite (b : Binary64) : Bool := b.exponentField == 0x7ff && b.fractionField == 0

/-- The leading bit is implicit except in the lowest binade. -/
def significand (b : Binary64) : Nat :=
  if b.exponentField = 0 then b.fractionField else b.fractionField + Nat.pow 2 52

def exponent (b : Binary64) : Int := (max b.exponentField 1 : Nat) - 1075

def neg (b : Binary64) : Binary64 := ⟨b.bits ^^^ 0x8000000000000000⟩

end Binary64

/-- The integer nearest to `num / den`, of two the even one. -/
def roundDiv (num den : Nat) : Nat :=
  let q := num / den
  let r := num % den
  if 2 * r < den then q else if den < 2 * r then q + 1 else q + q % 2

def floorLog (num den : Nat) : Int :=
  let d : Int := (Nat.log2 num : Int) - Nat.log2 den
  if num * Nat.pow 2 (-d).toNat < den * Nat.pow 2 d.toNat then d - 1 else d

namespace Binary64

/-- The double nearest to `num / den`, of two the even one, and infinity from half a unit past the largest.
    `e` is the weight of the last place, never below that of the lowest binade. A carry out of the
    rounded significand moves the sum into the next binade by itself. -/
def ofRatio (num den : Nat) : Binary64 :=
  if num = 0 then zero else
    let e := max (floorLog num den - 52) (-1074)
    let m := roundDiv (num * Nat.pow 2 (-e).toNat) (den * Nat.pow 2 e.toNat)
    let word := (e + 1074).toNat * Nat.pow 2 52 + m
    if word < 0x7ff * Nat.pow 2 52 then ⟨word.toUInt64⟩ else infinity

def ofNat (n : Nat) : Binary64 := ofRatio n 1

/-- The double nearest to `digits · 10 ^ exponent`. The two first tests only keep the powers small: a value
    of at least `10 ^ 310` is infinite and one below `10 ^ -330` is zero. -/
def ofDecimal (digits : Nat) (exponent : Int) : Binary64 :=
  let places : Int := Nat.log2 digits
  if digits = 0 then zero
  else if exponent + places / 4 > 310 then infinity
  else if exponent + places / 3 + 1 < -330 then zero
  else ofRatio (digits * Nat.pow 10 exponent.toNat) (Nat.pow 10 (-exponent).toNat)

/-- Counts live in 64 bits: beyond them the greatest is taken, and negative values and NaN count zero. -/
def countLimit : Nat := Nat.pow 2 64 - 1

def toCount (round : Nat → Nat → Nat) (b : Binary64) : Nat :=
  if b.isNaN || b.isNegative then 0
  else if b.isInfinite then countLimit
  else min countLimit (round (b.significand * Nat.pow 2 b.exponent.toNat) (Nat.pow 2 (-b.exponent).toNat))

def truncToNat (b : Binary64) : Nat := b.toCount (· / ·)

def roundToNat (b : Binary64) : Nat := b.toCount fun num den => (2 * num + den) / (2 * den)

end Binary64
end FormulaSynth
