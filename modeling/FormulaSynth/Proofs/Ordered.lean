import Mathlib
import FormulaSynth.Number.Basic

set_option autoImplicit false
namespace FormulaSynth
open Number

/-- The laws are about numbers that are not negative, where they are about a result. A scale may be infinite
    where it does not meet a zero. -/
class Ordered (α : Type) [Number α] : Prop where
  le_self {a : α} (h : isFinite a = true) : le a a = true
  le_trans {a b c : α} (ab : le a b = true) (bc : le b c = true) : le a c = true
  le_total {a b : α} (ha : le a a = true) (hb : le b b = true) : le a b = true ∨ le b a = true
  lt_iff {a b : α} : lt a b = true ↔ le a b = true ∧ le b a = false
  ofNat_le {m n : ℕ} (h : m ≤ n) : le (Number.ofNat m : α) (Number.ofNat n) = true
  ofNat_lt {m n : ℕ} (h : m < n) (small : n < 2 ^ 53) :
    lt (Number.ofNat m : α) (Number.ofNat n) = true
  ofNat_finite {n : ℕ} (small : n < 2 ^ 53) : isFinite (Number.ofNat n : α) = true
  ofBinary64_pos {b : Binary64} (finite : b.isFinite = true) (positive : b.isNegative = false)
    (nonzero : b.significand ≠ 0) : lt 0 (Number.ofBinary64 b : α) = true
  le_one_mul {a : α} (pos : lt 0 a = true) : le a (Number.ofNat 1 * a) = true
  mul_le {a b c : α} (nonneg : le 0 a = true) (ab : le a b = true) (pos : lt 0 c = true)
    (meets : isFinite c = true ∨ lt 0 a = true) : le (a * c) (b * c) = true
  mul_nonneg {a c : α} (nonneg : le 0 a = true) (pos : lt 0 c = true)
    (meets : isFinite c = true ∨ lt 0 a = true) : le 0 (a * c) = true
  div_le {a b c : α} (nonneg : le 0 a = true) (ab : le a b = true) (pos : lt 0 c = true)
    (finite : isFinite c = true) : le (a / c) (b / c) = true
  div_nonneg {a c : α} (nonneg : le 0 a = true) (pos : lt 0 c = true) (finite : isFinite c = true) :
    le 0 (a / c) = true
  roundToNat_le {a b : α} (nonneg : le 0 a = true) (ab : le a b = true) :
    Number.roundToNat a ≤ Number.roundToNat b
  roundToNat_scale {m n : ℕ} (hm : 0 < m) (hn : 0 < n) (small : m * n < 2 ^ 53) :
    Number.roundToNat (Number.ofNat m * Number.ofNat n / Number.ofNat m : α) = n

namespace Ordered
variable {α : Type} [Number α] [Ordered α]

theorem le_of_lt {a b : α} (h : lt a b = true) : le a b = true :=
  (lt_iff.mp h).1

theorem not_le_of_lt {a b : α} (h : lt a b = true) : le b a = false :=
  (lt_iff.mp h).2

theorem not_lt_of_le {a b : α} (h : le a b = true) : lt b a = false := by
  rw [Bool.eq_false_iff]
  intro lt
  rw [not_le_of_lt lt] at h
  exact Bool.false_ne_true h

theorem lt_of_not_le {a b : α} (ha : le a a = true) (hb : le b b = true) (h : le a b = false) :
    lt b a = true := by
  refine lt_iff.mpr ⟨?_, h⟩
  rcases le_total ha hb with ab | ba
  · rw [ab] at h
    cases h
  · exact ba

theorem le_of_not_lt {a b : α} (ha : le a a = true) (hb : le b b = true) (h : lt b a = false) : le a b = true := by
  cases ab : le a b with
  | true => rfl
  | false =>
    rw [lt_of_not_le ha hb ab] at h
    cases h

theorem lt_of_lt_of_le {a b c : α} (ab : lt a b = true) (bc : le b c = true) : lt a c = true := by
  refine lt_iff.mpr ⟨le_trans (le_of_lt ab) bc, ?_⟩
  rw [Bool.eq_false_iff]
  intro ca
  have ba : le b a = true := le_trans bc ca
  rw [not_le_of_lt ab] at ba
  exact Bool.false_ne_true ba

theorem lt_of_le_of_lt {a b c : α} (ab : le a b = true) (bc : lt b c = true) : lt a c = true := by
  refine lt_iff.mpr ⟨le_trans ab (le_of_lt bc), ?_⟩
  rw [Bool.eq_false_iff]
  intro ca
  have cb : le c b = true := le_trans ca ab
  rw [not_le_of_lt bc] at cb
  exact Bool.false_ne_true cb

theorem ofNat_pos {n : ℕ} (h : 0 < n) : lt 0 (Number.ofNat n : α) = true :=
  lt_of_lt_of_le (ofNat_lt Nat.zero_lt_one (by decide)) (ofNat_le h)

theorem zero_le_ofNat (n : ℕ) : le 0 (Number.ofNat n : α) = true :=
  ofNat_le (Nat.zero_le n)

theorem zero_lt_decimal {digits : ℕ} {negative : Bool} {places : ℕ} {b : Binary64}
    (eq : Binary64.ofDecimal digits (if negative then -(places : Int) else places) = b)
    (finite : b.isFinite = true) (positive : b.isNegative = false) (nonzero : b.significand ≠ 0) :
    lt 0 (OfScientific.ofScientific digits negative places : α) = true := by
  change lt 0 (Number.ofBinary64 (Binary64.ofDecimal digits _) : α) = true
  rw [eq]
  exact ofBinary64_pos finite positive nonzero

end Ordered
end FormulaSynth
