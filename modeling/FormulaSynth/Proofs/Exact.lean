import Mathlib.Analysis.SpecialFunctions.Complex.Arg
import Mathlib.Analysis.SpecialFunctions.Log.Base
import Mathlib.Analysis.SpecialFunctions.Trigonometric.Arctan
import Mathlib.Analysis.Real.Sqrt
import FormulaSynth.Number.Basic

/-!
# Exact arithmetic

Statements about times and phases take the arithmetic of finite numbers as that of the reals: sums do not
round and counts do not saturate. Nothing is assumed of a number that is not finite.
-/

set_option autoImplicit false
namespace FormulaSynth
open Number

noncomputable def Binary64.toReal (b : Binary64) : ℝ :=
  (if b.isNegative then -1 else 1) * b.significand * (2 : ℝ) ^ b.exponent

theorem Binary64.toReal_pos {b : Binary64} (positive : b.isNegative = false) (nonzero : b.significand ≠ 0) :
    0 < b.toReal := by
  have h : (0 : ℝ) < b.significand := by
    exact_mod_cast Nat.pos_of_ne_zero nonzero
  simp only [Binary64.toReal, positive, Bool.false_eq_true, if_false, one_mul]
  exact mul_pos h (zpow_pos two_pos _)

theorem Binary64.toReal_le {b : Binary64} {num den : ℕ} (pos : 0 < den) (least : b.exponent ≤ 0)
    (below : den * b.significand ≤ num * 2 ^ (-b.exponent).toNat) : b.toReal ≤ num / den := by
  have unit : (0 : ℝ) < 2 ^ b.exponent := zpow_pos two_pos _
  have scaled : (den : ℝ) * (b.significand * 2 ^ b.exponent) ≤ num := by
    have cast : (den : ℝ) * b.significand ≤ num * 2 ^ (-b.exponent) := by
      rw [← Int.toNat_of_nonneg (neg_nonneg.mpr least), zpow_natCast]
      exact_mod_cast below
    have product := mul_le_mul_of_nonneg_right cast unit.le
    rw [mul_assoc, mul_assoc, ← zpow_add₀ two_ne_zero, neg_add_cancel, zpow_zero, mul_one] at product
    exact product
  have nonneg : (0 : ℝ) ≤ b.significand * 2 ^ b.exponent := mul_nonneg (Nat.cast_nonneg _) unit.le
  have magnitude : (b.significand * 2 ^ b.exponent : ℝ) ≤ num / den := by
    rw [le_div_iff₀ (Nat.cast_pos.mpr pos), mul_comm]
    exact scaled
  unfold Binary64.toReal
  split <;> linarith

section Laws
variable {α : Type} [Number α]

structure Stands (value : α → ℝ) (a : α) (r : ℝ) : Prop where
  finite : isFinite a = true
  value_eq : value a = r

end Laws

/-- Numbers whose finite ones are reals. -/
class Exact (α : Type) [Number α] where
  value : α → ℝ
  ofNat (n : ℕ) : Stands value (Number.ofNat n) n
  ofBinary64 {b : Binary64} (h : b.isFinite = true) : Stands value (Number.ofBinary64 b) b.toReal
  add {a b : α} {r s : ℝ} (ha : Stands value a r) (hb : Stands value b s) : Stands value (a + b) (r + s)
  sub {a b : α} {r s : ℝ} (ha : Stands value a r) (hb : Stands value b s) : Stands value (a - b) (r - s)
  mul {a b : α} {r s : ℝ} (ha : Stands value a r) (hb : Stands value b s) : Stands value (a * b) (r * s)
  div {a b : α} {r s : ℝ} (ha : Stands value a r) (hb : Stands value b s) (nonzero : s ≠ 0) :
    Stands value (a / b) (r / s)
  neg {a : α} {r : ℝ} (ha : Stands value a r) : Stands value (-a) (-r)
  floor {a : α} {r : ℝ} (ha : Stands value a r) : Stands value (Number.floor a) ⌊r⌋
  lt_iff {a b : α} {r s : ℝ} (ha : Stands value a r) (hb : Stands value b s) : lt a b = true ↔ r < s
  le_iff {a b : α} {r s : ℝ} (ha : Stands value a r) (hb : Stands value b s) : le a b = true ↔ r ≤ s
  truncToNat {a : α} {r : ℝ} (ha : Stands value a r) : Number.truncToNat a = ⌊r⌋₊
  roundToNat {a : α} {r : ℝ} (ha : Stands value a r) : Number.roundToNat a = ⌊r + 1 / 2⌋₊

namespace Exact
variable {α : Type} [Number α] [Exact α]

theorem stands {a : α} (h : isFinite a = true) : Stands value a (value a) :=
  ⟨h, rfl⟩

theorem stands_zero : Stands value (0 : α) 0 := by
  have h := Exact.ofNat (α := α) 0
  rw [Nat.cast_zero] at h
  exact h

theorem stands_decimal {digits : ℕ} {negative : Bool} {places : ℕ} {b : Binary64}
    (eq : Binary64.ofDecimal digits (if negative then -(places : Int) else places) = b)
    (finite : b.isFinite = true) :
    Stands value (OfScientific.ofScientific digits negative places : α) b.toReal := by
  change Stands value (Number.ofBinary64 (Binary64.ofDecimal digits _) : α) b.toReal
  rw [eq]
  exact Exact.ofBinary64 finite

theorem pos_of_pattern {a : α} {b : Binary64} (h : Stands value a b.toReal) (positive : b.isNegative = false)
    (nonzero : b.significand ≠ 0) : 0 < value a := by
  rw [h.value_eq]
  exact Binary64.toReal_pos positive nonzero

end Exact

/-- The reals and a single number that is not one. -/
inductive Ideal
  | real (x : ℝ)
  | nan

namespace Ideal

def bind (a : Ideal) (f : ℝ → Ideal) : Ideal :=
  match a with
  | real x => f x
  | nan => nan

def map (f : ℝ → ℝ) (a : Ideal) : Ideal :=
  a.bind fun x => real (f x)

def map₂ (f : ℝ → ℝ → ℝ) (a b : Ideal) : Ideal :=
  a.bind fun x => b.map (f x)

noncomputable def partialMap (undefined : ℝ → Prop) (f : ℝ → ℝ) (a : Ideal) : Ideal :=
  a.bind fun x => open Classical in if undefined x then nan else real (f x)

noncomputable def compare (p : ℝ → ℝ → Prop) (a b : Ideal) : Bool :=
  match a, b with
  | real x, real y => open Classical in decide (p x y)
  | _, _ => false

def count (f : ℝ → ℕ) (a : Ideal) : ℕ :=
  match a with
  | real x => f x
  | nan => 0

def toReal (a : Ideal) : ℝ :=
  match a with
  | real x => x
  | nan => 0

noncomputable instance : Number Ideal where
  add := map₂ (· + ·)
  sub := map₂ (· - ·)
  mul := map₂ (· * ·)
  div a b := a.bind fun x => b.partialMap (· = 0) (x / ·)
  neg := map (- ·)
  ofBinary64 b := if b.isFinite then real b.toReal else nan
  ofNat n := real n
  abs := map (|·|)
  sqrt := partialMap (· < 0) Real.sqrt
  floor := map fun x => ⌊x⌋
  ceil := map fun x => ⌈x⌉
  round := map fun x => if x < 0 then ⌈x - 1 / 2⌉ else ⌊x + 1 / 2⌋
  sin := map Real.sin
  cos := map Real.cos
  tan := map Real.tan
  asin := partialMap (1 < |·|) Real.arcsin
  acos := partialMap (1 < |·|) Real.arccos
  atan := map Real.arctan
  exp := map Real.exp
  log := partialMap (· ≤ 0) Real.log
  log2 := partialMap (· ≤ 0) (Real.logb 2)
  atan2 := map₂ fun y x => Complex.arg ⟨x, y⟩
  pow a b := a.bind fun x => b.partialMap (fun y => x < 0 ∧ (⌊y⌋ : ℝ) ≠ y ∨ x = 0 ∧ y < 0) (x ^ ·)
  invSqrtSeed := partialMap (· ≤ 0) fun x => 1 / Real.sqrt x
  lt := compare (· < ·)
  le := compare (· ≤ ·)
  isFinite a := match a with
    | real _ => true
    | nan => false
  truncToNat := count fun x => ⌊x⌋₊
  roundToNat := count fun x => ⌊x + 1 / 2⌋₊

theorem stands_real (x : ℝ) : Stands toReal (real x) x :=
  ⟨rfl, rfl⟩

theorem eq_real_of_stands {a : Ideal} {r : ℝ} (h : Stands toReal a r) : a = real r := by
  cases a with
  | real x =>
    have eq : x = r := h.value_eq
    rw [eq]
  | nan =>
    have finite := h.finite
    cases finite

theorem stands_map (f : ℝ → ℝ) {a : Ideal} {r : ℝ} (ha : Stands toReal a r) :
    Stands toReal (map f a) (f r) := by
  rw [eq_real_of_stands ha]
  exact stands_real (f r)

theorem stands_map₂ (f : ℝ → ℝ → ℝ) {a b : Ideal} {r s : ℝ} (ha : Stands toReal a r)
    (hb : Stands toReal b s) : Stands toReal (map₂ f a b) (f r s) := by
  rw [eq_real_of_stands ha, eq_real_of_stands hb]
  exact stands_real (f r s)

open Classical in
theorem compare_iff (p : ℝ → ℝ → Prop) {a b : Ideal} {r s : ℝ} (ha : Stands toReal a r)
    (hb : Stands toReal b s) : compare p a b = true ↔ p r s := by
  rw [eq_real_of_stands ha, eq_real_of_stands hb]
  exact decide_eq_true_iff

theorem count_eq (f : ℝ → ℕ) {a : Ideal} {r : ℝ} (ha : Stands toReal a r) : count f a = f r := by
  rw [eq_real_of_stands ha]
  rfl

noncomputable instance : Exact Ideal where
  value := toReal
  ofNat n := stands_real n
  ofBinary64 {b} h := by
    have eq : (Number.ofBinary64 b : Ideal) = real b.toReal := if_pos h
    rw [eq]
    exact stands_real b.toReal
  add := stands_map₂ (· + ·)
  sub := stands_map₂ (· - ·)
  mul := stands_map₂ (· * ·)
  div {a b r s} ha hb nonzero := by
    rw [eq_real_of_stands ha, eq_real_of_stands hb]
    have eq : (real r / real s : Ideal) = real (r / s) := if_neg nonzero
    rw [eq]
    exact stands_real (r / s)
  neg := stands_map (- ·)
  floor := stands_map fun x => ⌊x⌋
  lt_iff := compare_iff (· < ·)
  le_iff := compare_iff (· ≤ ·)
  truncToNat := count_eq fun x => ⌊x⌋₊
  roundToNat := count_eq fun x => ⌊x + 1 / 2⌋₊

end Ideal
end FormulaSynth
