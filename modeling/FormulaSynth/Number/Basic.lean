import FormulaSynth.Number.Binary64

set_option autoImplicit false
namespace FormulaSynth

class Number (α : Type) extends Add α, Sub α, Mul α, Div α, Neg α where
  ofBinary64 : Binary64 → α
  ofNat : Nat → α
  abs : α → α
  sqrt : α → α
  floor : α → α
  ceil : α → α
  /-- To the nearest integer, halves away from zero. -/
  round : α → α
  sin : α → α
  cos : α → α
  tan : α → α
  asin : α → α
  acos : α → α
  atan : α → α
  exp : α → α
  log : α → α
  log2 : α → α
  atan2 : α → α → α
  pow : α → α → α
  invSqrtSeed : α → α
  lt : α → α → Bool
  le : α → α → Bool
  isFinite : α → Bool
  truncToNat : α → Nat
  /-- Rounded to a count, halves up. -/
  roundToNat : α → Nat

namespace Number
variable {α : Type} [Number α]

scoped instance (priority := low) natLiteral (n : Nat) : OfNat α n := ⟨Number.ofNat n⟩

scoped instance (priority := low) decimalLiteral : OfScientific α where
  ofScientific digits negative places :=
    Number.ofBinary64 (Binary64.ofDecimal digits (if negative then -(places : Int) else places))

def pi : α := 3.141592653589793
def tau : α := 6.283185307179586
def euler : α := 2.718281828459045
def goldenRatio : α := 1.618033988749895
def epsilon : α := 1e-9

def same (a b : α) : Bool := le a b && le b a
/-- Only a number that is not one is not even equal to itself. -/
def isNaN (a : α) : Bool := !le a a

/-- The smaller operand, or the other one when one is not a number. -/
def min (a b : α) : α := if isNaN a then b else if lt b a then b else a
def max (a b : α) : α := if isNaN a then b else if lt a b then b else a

/-- The lower bound wins over the upper one, and what compares with neither passes. -/
def clamp (x lo hi : α) : α := if lt x lo then lo else if lt hi x then hi else x

def trunc (x : α) : α := if lt x 0 then ceil x else floor x
def fractionalPart (x : α) : α := x - trunc x

def step (edge x : α) : α := if lt x edge then 0 else 1

def smoothstep (edge0 edge1 x : α) : α :=
  let t := clamp ((x - edge0) / (edge1 - edge0)) 0 1
  t * t * (3 - 2 * t)

def sign (x : α) : α := if lt 0 x then 1 else if lt x 0 then -1 else x * 0

def invSqrt (x : α) : α :=
  let half := 0.5 * x
  let y := invSqrtSeed x
  y * (1.5 - half * y * y)

def fract (x : α) : α := x - floor x

/-- The remainder of floored division, with the sign of `y`. -/
def mod (x y : α) : α := x - y * floor (x / y)

def gateClosed : α := -1000000

def untilGate (x v threshold : α) : α := if le x (threshold + epsilon) then v else gateClosed

def afterGate (x v threshold : α) : α := if le (threshold - epsilon) x then v else gateClosed

end Number

class Silence (σ : Type) where
  silence : σ

class Narrow (α σ : Type) where
  narrow : α → σ

end FormulaSynth
