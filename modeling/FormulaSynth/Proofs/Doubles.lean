import FormulaSynth.Proofs.Ordered
import FormulaSynth.Proofs.Packing

/-!
# Doubles keep the order

Products, quotients and whole numbers are rounded to the nearest double, so they are in the order of what they
stand for.
-/

set_option autoImplicit false
namespace FormulaSynth
open Float.Model Float.Model.UnpackedFloat

namespace Doubles

section Values

theorem word_inj {m k : ℕ} {e f : ℤ} (h : Fits m e) (h' : Fits k f) (eq : word m e = word k f) : m = k ∧ e = f := by
  have := h.lt
  have := h'.lt
  have := h.low
  have := h'.low
  have := h.full
  have := h'.full
  unfold word at eq
  omega

/-- The place of the double nearest to a value in the order of patterns. -/
def code (q : ℚ) : ℕ := if q = 0 then 0 else min (pattern q) (2047 * 2 ^ 52)

theorem code_le {q r : ℚ} (nonneg : 0 ≤ q) (h : q ≤ r) : code q ≤ code r := by
  unfold code
  rcases nonneg.lt_or_eq with pos | eq
  · rw [if_neg pos.ne', if_neg (pos.trans_le h).ne']
    exact min_le_min_right _ (pattern_le pos h)
  · rw [if_pos eq.symm]
    exact Nat.zero_le _

theorem code_le_infinity (q : ℚ) : code q ≤ 2047 * 2 ^ 52 := by
  unfold code
  split_ifs
  · exact Nat.zero_le _
  · exact min_le_right _ _

theorem code_of_pos {q : ℚ} (pos : 0 < q) : code q = min (pattern q) (2047 * 2 ^ 52) :=
  if_neg pos.ne'

theorem code_of_fits {m : ℕ} {e : ℤ} (h : Fits m e) (high : e ≤ 971) : code (m * 2 ^ e) = word m e := by
  have pos : (0 : ℚ) < m * 2 ^ e := mul_pos (Nat.cast_pos.mpr h.pos) (two_zpow_pos e)
  rw [code_of_pos pos, h.pattern]
  exact min_eq_left (word_lt h high).le

/-- A double that is a number has the given place in the order of patterns. -/
structure Lies (x : Float) (n : ℤ) : Prop where
  number : IsNumber x.toBits.toNat
  rank_eq : rank x.toBits.toNat = n

structure Ranks (x : Float) (n : ℕ) : Prop where
  number : IsNumber x.toBits.toNat
  rank_eq : rank x.toBits.toNat = n

theorem Ranks.le_iff {x y : Float} {n k : ℕ} (hx : Ranks x n) (hy : Ranks y k) :
    Number.le x y = true ↔ n ≤ k := by
  rw [Doubles.le_iff, hx.rank_eq, hy.rank_eq, Nat.cast_le]
  exact ⟨fun h => h.2.2, fun h => ⟨hx.number, hy.number, h⟩⟩

theorem Ranks.lt_iff {x y : Float} {n k : ℕ} (hx : Ranks x n) (hy : Ranks y k) :
    Number.lt x y = true ↔ n < k := by
  rw [Doubles.lt_iff, hx.rank_eq, hy.rank_eq, Nat.cast_lt]
  exact ⟨fun h => h.2.2, fun h => ⟨hx.number, hy.number, h⟩⟩

theorem lies_of_bits {x : Float} {n : ℕ} (s : Sign) (small : n ≤ 2047 * 2 ^ 52) (bits : x.toBits.toNat = signBit s + n) :
    Lies x (s.apply n) := by
  refine ⟨?_, ?_⟩
  · unfold IsNumber
    rw [bits]
    cases s <;> simp only [signBit] <;> omega
  · rw [bits]
    exact rank_signBit s small

theorem ranks_of_bits {x : Float} {n : ℕ} (small : n ≤ 2047 * 2 ^ 52) (s : Sign)
    (positive : s = .positive ∨ n = 0) (eq : x.toBits.toNat = signBit s + n) : Ranks x n := by
  obtain ⟨number, place⟩ := lies_of_bits s small eq
  refine ⟨number, place.trans ?_⟩
  rcases positive with rfl | rfl
  · rfl
  · cases s <;> rfl

def Representable (q : ℚ) : Prop := q = 0 ∨ ∃ m e, Fits m e ∧ e ≤ 971 ∧ q = m * 2 ^ e

structure Holds (x : Float) (q : ℚ) : Prop where
  ranks : Ranks x (code q)
  representable : Representable q

theorem unpack_of_ranks_zero {x : Float} (h : Ranks x 0) : ∃ s, x.toModel.unpack = .zero s := by
  have bits := reads x
  have zero := h.rank_eq
  rw [bits.rank_eq h.number] at zero
  cases form : x.toModel.unpack with
  | zero s => exact ⟨s, rfl⟩
  | finite s m e pos =>
    rw [form] at bits zero
    cases bits with
    | finite _ _ _ _ fits high eq =>
      have positive := word_pos fits
      cases s <;> simp only [level, Sign.apply] at zero <;> omega
  | infinity s =>
    rw [form] at zero
    cases s <;> cases zero
  | notANumber =>
    rw [form] at bits
    exact absurd h.number bits.not_nan

theorem unpack_of_ranks_word {x : Float} {m : ℕ} {e : ℤ} (fits : Fits m e) (high : e ≤ 971)
    (h : Ranks x (word m e)) : x.toModel.unpack = .finite .positive m e fits.pos := by
  have bits := reads x
  have place := h.rank_eq
  have positive := word_pos fits
  have small := word_lt fits high
  rw [bits.rank_eq h.number] at place
  cases form : x.toModel.unpack with
  | zero s =>
    rw [form] at place
    simp only [level] at place
    omega
  | finite s k f pos =>
    rw [form] at bits place
    cases bits with
    | finite _ _ _ _ fits' high' eq =>
      cases s with
      | positive =>
        obtain ⟨rfl, rfl⟩ := word_inj fits' fits (Nat.cast_injective place)
        rfl
      | negative =>
        simp only [level, Sign.apply] at place
        omega
  | infinity s =>
    rw [form] at place
    cases s <;> simp only [level, Sign.apply] at place <;> omega
  | notANumber =>
    rw [form] at bits
    exact absurd h.number bits.not_nan

theorem holds_zero {x : Float} (h : Ranks x 0) : Holds x 0 := ⟨h, Or.inl rfl⟩

theorem holds_fits {x : Float} {m : ℕ} {e : ℤ} (fits : Fits m e) (high : e ≤ 971) (h : Ranks x (word m e)) :
    Holds x (m * 2 ^ e) := by
  refine ⟨?_, Or.inr ⟨m, e, fits, high, rfl⟩⟩
  rw [code_of_fits fits high]
  exact h

theorem Holds.form {x : Float} {q : ℚ} (h : Holds x q) :
    (q = 0 ∧ ∃ s, x.toModel.unpack = .zero s) ∨
      ∃ m e, ∃ fits : Fits m e, q = m * 2 ^ e ∧ x.toModel.unpack = .finite .positive m e fits.pos := by
  rcases h.representable with rfl | ⟨m, e, fits, high, rfl⟩
  · exact Or.inl ⟨rfl, unpack_of_ranks_zero h.ranks⟩
  · have ranks := h.ranks
    rw [code_of_fits fits high] at ranks
    exact Or.inr ⟨m, e, fits, rfl, unpack_of_ranks_word fits high ranks⟩

theorem ranks_ofNat_zero : Ranks (Number.ofNat 0) 0 := by
  have bits : (Number.ofNat 0 : Float).toBits.toNat = 0 := rfl
  exact ranks_of_bits (Nat.zero_le _) .positive (Or.inl rfl) bits

theorem holds_or_infinite {x : Float} (h : Number.le (Number.ofNat 0) x = true) :
    (∃ q, 0 ≤ q ∧ Holds x q) ∨ x.toModel.unpack = .infinity .positive := by
  obtain ⟨-, number, nonneg⟩ := (le_iff _ x).mp h
  have bits := reads x
  have place := bits.rank_eq number
  rw [ranks_ofNat_zero.rank_eq, place] at nonneg
  cases form : x.toModel.unpack with
  | zero s =>
    rw [form] at place
    exact Or.inl ⟨0, le_rfl, holds_zero ⟨number, place⟩⟩
  | finite s m e pos =>
    rw [form] at bits place nonneg
    cases bits with
    | finite _ _ _ _ fits high eq =>
      cases s with
      | positive =>
        refine Or.inl ⟨m * 2 ^ e, by positivity, holds_fits fits high ⟨number, place⟩⟩
      | negative =>
        have positive := word_pos fits
        simp only [level, Sign.apply] at nonneg
        omega
  | infinity s =>
    rw [form] at nonneg
    cases s with
    | positive => exact Or.inr rfl
    | negative => exact absurd nonneg (by decide)
  | notANumber =>
    rw [form] at bits
    exact absurd number bits.not_nan

theorem ranks_infinity {x : Float} (h : x.toModel.unpack = .infinity .positive) :
    Ranks x (2047 * 2 ^ 52) := by
  have bits := reads x
  rw [h] at bits
  cases bits with
  | infinity s eq => exact ranks_of_bits le_rfl .positive (Or.inl rfl) eq

end Values

section Operations
variable {x y : Float} {q r : ℚ}

theorem toBits_mul (x y : Float) :
    (x * y).toBits.toNat = (UnpackedFloat.pack Format.binary64
      (UnpackedFloat.mul Format.binary64 x.toModel.unpack y.toModel.unpack)).toNat := rfl

theorem toBits_div (x y : Float) :
    (x / y).toBits.toNat = (UnpackedFloat.pack Format.binary64
      (UnpackedFloat.div Format.binary64 x.toModel.unpack y.toModel.unpack)).toNat := rfl

section Results
variable {z : Float} {u : UnpackedFloat} (bits : z.toBits.toNat = (UnpackedFloat.pack Format.binary64 u).toNat)

include bits in
theorem ranks_of_zero {s : Sign} (form : u = .zero s) : Ranks z (code 0) := by
  rw [form, pack_zero] at bits
  exact ranks_of_bits (Nat.zero_le _) s (Or.inr rfl) bits

include bits in
theorem ranks_of_infinity (form : u = .infinity .positive) : Ranks z (2047 * 2 ^ 52) := by
  rw [form, pack_infinity] at bits
  exact ranks_of_bits le_rfl .positive (Or.inl rfl) bits

include bits in
theorem ranks_of_rounding {m : ℕ} {e : ℤ} {accuracy : Accuracy} {num den : ℕ}
    (form : u = roundWithAccuracy Format.binary64 .positive m e accuracy) (hn : 0 < num) (hd : 0 < den)
    (describes : Describes (.ofMantissaAndAccuracy m accuracy) num den) (floor : m = num / den)
    (enough : 2 ^ 52 ≤ m ∨ e ≤ -1074) : Ranks z (code (num / den * 2 ^ e)) := by
  have pos : (0 : ℚ) < num / den * 2 ^ e := by positivity
  rw [form, pack_roundWithAccuracy .positive hn hd describes floor enough] at bits
  rw [code_of_pos pos]
  exact ranks_of_bits (min_le_right _ _) .positive (Or.inl rfl) bits

end Results

theorem Holds.mul (hx : Holds x q) (hy : Holds y r) : Ranks (x * y) (code (q * r)) := by
  have bits := toBits_mul x y
  rcases hx.form with ⟨rfl, s, left⟩ | ⟨m, e, fits, rfl, left⟩
  · rw [zero_mul]
    rcases hy.form with ⟨rfl, t, right⟩ | ⟨k, f, fits', rfl, right⟩
    · rw [left, right] at bits
      exact ranks_of_zero bits rfl
    · rw [left, right] at bits
      exact ranks_of_zero bits rfl
  · rcases hy.form with ⟨rfl, t, right⟩ | ⟨k, f, fits', rfl, right⟩
    · rw [left, right] at bits
      rw [mul_zero]
      exact ranks_of_zero bits rfl
    · rw [left, right] at bits
      have value : (m * 2 ^ e * (k * 2 ^ f) : ℚ) = (m * k : ℕ) / (1 : ℕ) * 2 ^ (e + f) := by
        rw [zpow_add₀ two_ne_zero]
        push_cast
        ring
      have enough : 2 ^ 52 ≤ m * k ∨ e + f ≤ -1074 := by
        rcases fits.full with full | low
        · exact Or.inl (full.trans (Nat.le_mul_of_pos_right m fits'.pos))
        · rcases fits'.full with full' | low'
          · exact Or.inl (full'.trans (Nat.le_mul_of_pos_left k fits.pos))
          · right
            omega
      rw [value]
      exact ranks_of_rounding bits rfl (Nat.mul_pos fits.pos fits'.pos) Nat.one_pos (describes_natural _)
        (Nat.div_one _).symm enough

theorem describes_quotient {num den : ℕ} (hd : 0 < den) :
    Describes (.ofMantissaAndAccuracy (num / den) (accuracyOfFraction (num % den) den)) num den := by
  have small := Nat.mod_lt num hd
  unfold accuracyOfFraction
  split_ifs with none
  · refine ⟨rfl, iff_of_false Bool.false_ne_true ?_, iff_of_false Bool.false_ne_true ?_⟩
    · omega
    · omega
  · rcases lt_trichotomy (2 * (num % den)) den with lt | eq | gt
    · rw [compare_lt_iff_lt.mpr lt]
      exact ⟨rfl, iff_of_false Bool.false_ne_true (by omega), iff_of_true rfl (by omega)⟩
    · rw [compare_eq_iff_eq.mpr eq]
      exact ⟨rfl, iff_of_true rfl (by omega), iff_of_false Bool.false_ne_true (by omega)⟩
    · rw [compare_gt_iff_gt.mpr gt]
      exact ⟨rfl, iff_of_true rfl (by omega), iff_of_true rfl (by omega)⟩

theorem divCore_eq {m k : ℕ} {e f : ℤ} (hm : 0 < m) (hk : 0 < k) :
    ∃ shift : ℕ, ∃ g : ℤ, divCore Format.binary64 m e k f =
        (m * 2 ^ shift / k, g, accuracyOfFraction (m * 2 ^ shift % k) k) ∧
      g + shift = e - f ∧ (2 ^ 52 ≤ m * 2 ^ shift / k ∨ g ≤ -1074) := by
  let g := min (e - f) (max ((m.log2 : ℤ) + 1 + e - (k.log2 + 1 + f) - 53) (-1074))
  let shift := (e - f - g).toNat
  have opened : divCore Format.binary64 m e k f =
      (m <<< shift / k, g, accuracyOfFraction (m <<< shift % k) k) := rfl
  refine ⟨shift, g, ?_, by omega, ?_⟩
  · rw [opened, Nat.shiftLeft_eq]
  · by_cases low : g ≤ -1074
    · exact Or.inr low
    · left
      have bits : k.log2 + 53 ≤ m.log2 + shift := by omega
      rw [Nat.le_div_iff_mul_le hk]
      calc (2 ^ 52) * k ≤ 2 ^ 52 * 2 ^ (k.log2 + 1) := Nat.mul_le_mul_left _ Nat.lt_log2_self.le
        _ = 2 ^ (k.log2 + 53) := by ring
        _ ≤ 2 ^ (m.log2 + shift) := Nat.pow_le_pow_right two_pos bits
        _ = 2 ^ m.log2 * 2 ^ shift := pow_add 2 _ _
        _ ≤ m * 2 ^ shift := Nat.mul_le_mul_right _ (Nat.log2_self_le hm.ne')

theorem Holds.div (hx : Holds x q) (hy : Holds y r) (pos : 0 < r) : Ranks (x / y) (code (q / r)) := by
  have bits := toBits_div x y
  rcases hy.form with ⟨rfl, t, right⟩ | ⟨k, f, fits', rfl, right⟩
  · exact absurd pos (lt_irrefl 0)
  · rcases hx.form with ⟨rfl, s, left⟩ | ⟨m, e, fits, rfl, left⟩
    · rw [left, right] at bits
      rw [zero_div]
      exact ranks_of_zero bits rfl
    · obtain ⟨shift, g, core, exponent, enough⟩ := divCore_eq (e := e) (f := f) fits.pos fits'.pos
      have form : UnpackedFloat.div Format.binary64 (.finite .positive m e fits.pos)
          (.finite .positive k f fits'.pos) = roundWithAccuracy Format.binary64 .positive
            (m * 2 ^ shift / k) g (accuracyOfFraction (m * 2 ^ shift % k) k) := by
        change (let (m, e, acc) := divCore Format.binary64 m e k f
          roundWithAccuracy Format.binary64 .positive m e acc) = _
        rw [core]
      have value : (m * 2 ^ e / (k * 2 ^ f) : ℚ) = (m * 2 ^ shift : ℕ) / k * 2 ^ g := by
        rw [mul_div_mul_comm, ← zpow_sub₀ two_ne_zero, ← exponent, zpow_add₀ two_ne_zero, zpow_natCast]
        push_cast
        ring
      rw [left, right] at bits
      rw [value]
      exact ranks_of_rounding bits form (by have := fits.pos; positivity) fits'.pos (describes_quotient fits'.pos) rfl enough

theorem mul_infinity {x y : Float} (hx : x.toModel.unpack = .infinity .positive)
    (hy : (∃ q, 0 < q ∧ Holds y q) ∨ y.toModel.unpack = .infinity .positive) :
    Ranks (x * y) (2047 * 2 ^ 52) := by
  have bits := toBits_mul x y
  rcases hy with ⟨q, pos, holds⟩ | right
  · rcases holds.form with ⟨rfl, -⟩ | ⟨k, f, fits, -, right⟩
    · exact absurd pos (lt_irrefl 0)
    · rw [hx, right] at bits
      exact ranks_of_infinity bits rfl
  · rw [hx, right] at bits
    exact ranks_of_infinity bits rfl

theorem Holds.mul_infinity (hx : Holds x q) (pos : 0 < q) (hy : y.toModel.unpack = .infinity .positive) :
    Ranks (x * y) (2047 * 2 ^ 52) := by
  have bits := toBits_mul x y
  rcases hx.form with ⟨rfl, -⟩ | ⟨m, e, fits, -, left⟩
  · exact absurd pos (lt_irrefl 0)
  · rw [left, hy] at bits
    exact ranks_of_infinity bits rfl

theorem infinity_div (hx : x.toModel.unpack = .infinity .positive) (hy : Holds y r) (pos : 0 < r) :
    Ranks (x / y) (2047 * 2 ^ 52) := by
  have bits := toBits_div x y
  rcases hy.form with ⟨rfl, -⟩ | ⟨k, f, fits, -, right⟩
  · exact absurd pos (lt_irrefl 0)
  · rw [hx, right] at bits
    exact ranks_of_infinity bits rfl

end Operations

section Counts

theorem mul_finite {m k : ℕ} {e f : ℤ} (hm : 0 < m) (hk : 0 < k) :
    UnpackedFloat.mul Format.binary64 (.finite .positive m e hm) (.finite .positive k f hk) =
      roundWithAccuracy Format.binary64 .positive (m * k) (e + f) .exact := rfl

theorem leading_bits {n : ℕ} (pos : 0 < n) (small : n < 2 ^ 53) :
    2 ^ 52 ≤ n * 2 ^ (52 - n.log2) ∧ n * 2 ^ (52 - n.log2) < 2 ^ 53 := by
  have most : n.log2 < 53 := (Nat.log2_lt pos.ne').mpr small
  constructor
  · calc 2 ^ 52 = 2 ^ (n.log2 + (52 - n.log2)) := by
          rw [Nat.add_sub_cancel' (Nat.le_of_lt_succ most)]
      _ = 2 ^ n.log2 * 2 ^ (52 - n.log2) := pow_add 2 _ _
      _ ≤ n * 2 ^ (52 - n.log2) := Nat.mul_le_mul_right _ (Nat.log2_self_le pos.ne')
  · calc n * 2 ^ (52 - n.log2) < 2 ^ (n.log2 + 1) * 2 ^ (52 - n.log2) :=
          Nat.mul_lt_mul_of_pos_right Nat.lt_log2_self (by positivity)
      _ = 2 ^ (n.log2 + 1 + (52 - n.log2)) := (pow_add 2 _ _).symm
      _ = 2 ^ 53 := by
          have bits : n.log2 + 1 + (52 - n.log2) = 53 := by omega
          rw [bits]

theorem shifted_back (n k : ℕ) : ((n * 2 ^ k : ℕ) / (1 : ℕ) * 2 ^ (-k : ℤ) : ℚ) = n := by
  rw [zpow_neg, zpow_natCast]
  push_cast
  field_simp

theorem natural_fits {n : ℕ} (pos : 0 < n) (small : n < 2 ^ 53) :
    ∃ m e, Fits m e ∧ e ≤ 971 ∧ (n : ℚ) = m * 2 ^ e := by
  obtain ⟨least, most⟩ := leading_bits pos small
  refine ⟨n * 2 ^ (52 - n.log2), -((52 - n.log2 : ℕ) : ℤ), ⟨by omega, most, by omega, Or.inl least⟩, by omega, ?_⟩
  rw [← shifted_back n (52 - n.log2), Nat.cast_one, div_one]

theorem holds_of_ranks {x : Float} {n : ℕ} (small : n < 2 ^ 53) (h : Ranks x (code n)) : Holds x n := by
  refine ⟨h, ?_⟩
  rcases Nat.eq_zero_or_pos n with rfl | pos
  · exact Or.inl Nat.cast_zero
  · exact Or.inr (natural_fits pos small)

theorem ranks_of_word (w : UInt64) : Ranks w.toFloat (code w.toNat) := by
  have bits : w.toFloat.toBits.toNat = (UnpackedFloat.pack Format.binary64
      (UnpackedFloat.ofNat Format.binary64 w.toNat)).toNat := rfl
  rcases Nat.eq_zero_or_pos w.toNat with zero | pos
  · rw [zero] at bits ⊢
    rw [Nat.cast_zero]
    exact ranks_of_zero bits rfl
  · have form : UnpackedFloat.ofNat Format.binary64 w.toNat = UnpackedFloat.round Format.binary64 .positive w.toNat 0 := by
      have positive : compare (w.toNat : ℤ) 0 = .gt := compare_gt_iff_gt.mpr (Nat.cast_pos.mpr pos)
      unfold UnpackedFloat.ofNat UnpackedFloat.ofInt UnpackedFloat.normalize
      rw [positive]
      rfl
    rw [form, pack_round .positive pos, zpow_zero, mul_one, ← code_of_pos (Nat.cast_pos.mpr pos)] at bits
    exact ranks_of_bits (code_le_infinity _) .positive (Or.inl rfl) bits

theorem holds_one : Holds (Float.ofBits 0x3FF0000000000000) (1 : ℕ) := by
  have fits : Fits (2 ^ 52) (-52) := ⟨by norm_num, by norm_num, by norm_num, Or.inl le_rfl⟩
  have bits : (Float.ofBits 0x3FF0000000000000).toBits.toNat = signBit .positive + word (2 ^ 52) (-52) := by
    rfl
  have holds := holds_fits fits (by norm_num) (ranks_of_bits (word_lt fits (by norm_num)).le .positive (Or.inl rfl) bits)
  have one : ((2 ^ 52 : ℕ) * 2 ^ (-52 : ℤ) : ℚ) = (1 : ℕ) := by norm_num
  rw [one] at holds
  exact holds

theorem ranks_ofNat (n : ℕ) : Ranks (Number.ofNat n) (code n) := by
  by_cases small : n < 2 ^ 53
  · have fast : (Number.ofNat n : Float) = n.toUInt64.toFloat * Float.ofBits 0x3FF0000000000000 := by
      change Float.ofScientific n false 0 = _
      unfold Float.ofScientific
      rw [dif_pos ⟨small, by decide⟩]
      rfl
    have word : n.toUInt64.toNat = n := UInt64.toNat_ofNat_of_lt' (small.trans (by decide))
    have ranks := ranks_of_word n.toUInt64
    rw [word] at ranks
    have product := (holds_of_ranks small ranks).mul holds_one
    rw [Nat.cast_one, mul_one] at product
    rw [fast]
    exact product
  · have bits : (Number.ofNat n : Float).toBits.toNat = (UnpackedFloat.pack Format.binary64
        (UnpackedFloat.ofScientific Format.binary64 n 0)).toNat := by
      have slow : (Number.ofNat n : Float) = Float.ofModel (Float.Model.ofScientific n 0) := by
        change Float.ofScientific n false 0 = _
        unfold Float.ofScientific
        rw [dif_neg fun h => small h.1]
        rfl
      rw [slow]
      rfl
    have pos : 0 < n := lt_of_lt_of_le (by norm_num) (not_lt.mp small)
    have form : UnpackedFloat.ofScientific Format.binary64 n 0 = roundWithAccuracy Format.binary64 .positive
        (n * 2 ^ 53) (-(53 : ℕ) : ℤ) .exact := by
      have range : ¬(0 : ℤ) < -(2 ^ Format.binary64.exponentBits + (n.log2 : ℤ)) := by
        have positive : (0 : ℤ) < 2 ^ Format.binary64.exponentBits := by positivity
        omega
      have places : Format.binary64.mantissaBits = 53 := rfl
      unfold UnpackedFloat.ofScientific
      rw [dif_neg pos.ne', if_neg (by decide), if_neg range, if_pos le_rfl, mul_finite]
      simp only [places, Nat.shiftLeft_eq, Int.toNat_zero, pow_zero, mul_one, add_zero]
    have ranks := ranks_of_rounding bits form (by positivity) Nat.one_pos (describes_natural _)
      (Nat.div_one _).symm (Or.inl (by omega))
    rw [shifted_back] at ranks
    exact ranks

theorem fields_of_word {b : Binary64} {m : ℕ} {e : ℤ} (fits : Fits m e) (high : e ≤ 971)
    (bits : b.bits.toNat = word m e) :
    b.exponentField < 2047 ∧ b.isNegative = false ∧ b.significand = m ∧ b.exponent = e := by
  have most := fits.lt
  have low := fits.low
  have full := fits.full
  unfold word at bits
  have field : b.exponentField = if m < 2 ^ 52 then 0 else (e + 1075).toNat := by
    rw [b.exponentField_eq]
    split_ifs <;> omega
  have fraction : b.fractionField = if m < 2 ^ 52 then m else m - 2 ^ 52 := by
    rw [b.fractionField_eq]
    split_ifs <;> omega
  have lead : Nat.pow 2 52 = 2 ^ 52 := by norm_num
  refine ⟨?_, ?_, ?_, ?_⟩
  · rw [field]
    split_ifs <;> omega
  · rw [Bool.eq_false_iff, Ne, b.isNegative_iff]
    omega
  · rw [Binary64.significand, field, fraction, lead]
    split_ifs <;> omega
  · rw [Binary64.exponent, field]
    split_ifs <;> omega

theorem roundToNat_of_holds {x : Float} {q : ℚ} (h : Holds x q) :
    Number.roundToNat x = min Binary64.countLimit ⌊q + 1 / 2⌋₊ := by
  have bits := reads x
  rcases h.form with ⟨rfl, s, form⟩ | ⟨m, e, fits, rfl, form⟩
  · rw [form] at bits
    cases bits with
    | zero _ eq =>
      have none : ⌊(0 + 1 / 2 : ℚ)⌋₊ = 0 := by norm_num
      rw [none, Nat.min_zero]
      cases s with
      | positive =>
        have zero : x.toBits = 0 := UInt64.toNat_inj.mp eq
        change (Binary64.mk x.toBits).roundToNat = 0
        rw [zero]
        decide +kernel
      | negative =>
        have zero : x.toBits = 0x8000000000000000 := UInt64.toNat_inj.mp eq
        change (Binary64.mk x.toBits).roundToNat = 0
        rw [zero]
        decide +kernel
  · rw [form] at bits
    cases bits with
    | finite _ _ _ _ _ high eq =>
      obtain ⟨field, positive, significand, exponent⟩ := fields_of_word (b := .ofFloat x) fits high
        (eq.trans (Nat.zero_add _))
      have inside : ((Binary64.ofFloat x).exponentField == 2047) = false := beq_eq_false_iff_ne.mpr field.ne
      have count : Number.roundToNat x = min Binary64.countLimit
          ((2 * (m * 2 ^ e.toNat) + 2 ^ (-e).toNat) / (2 * 2 ^ (-e).toNat)) := by
        change (Binary64.ofFloat x).toCount (fun num den => (2 * num + den) / (2 * den)) = _
        unfold Binary64.toCount Binary64.isNaN Binary64.isInfinite
        rw [inside, positive, significand, exponent]
        rfl
      have value : ((2 * (m * 2 ^ e.toNat) + 2 ^ (-e).toNat : ℕ) / (2 * 2 ^ (-e).toNat : ℕ) : ℚ) =
          m * 2 ^ e + 1 / 2 := by
        rw [zpow_eq_div]
        push_cast
        field_simp
      rw [count, ← value, Nat.floor_div_eq_div]

theorem roundToNat_of_infinity {x : Float} (h : x.toModel.unpack = .infinity .positive) :
    Number.roundToNat x = Binary64.countLimit := by
  have bits := reads x
  rw [h] at bits
  cases bits with
  | infinity _ eq =>
    have infinite : x.toBits = 0x7ff0000000000000 := UInt64.toNat_inj.mp eq
    change (Binary64.mk x.toBits).roundToNat = _
    rw [infinite]
    rfl

end Counts

section Laws
variable {a b c : Float}

theorem code_inj {q r : ℚ} (hq : Representable q) (hr : Representable r) (eq : code q = code r) : q = r := by
  have zero : code 0 = 0 := if_pos rfl
  rcases hq with rfl | ⟨m, e, fits, high, rfl⟩
  · rcases hr with rfl | ⟨k, f, fits', high', rfl⟩
    · rfl
    · rw [zero, code_of_fits fits' high'] at eq
      exact absurd eq (word_pos fits').ne
  · rw [code_of_fits fits high] at eq
    rcases hr with rfl | ⟨k, f, fits', high', rfl⟩
    · rw [zero] at eq
      exact absurd eq (word_pos fits).ne'
    · rw [code_of_fits fits' high'] at eq
      obtain ⟨rfl, rfl⟩ := word_inj fits fits' eq
      rfl

theorem Holds.le {q r : ℚ} (ha : Holds a q) (hb : Holds b r) (nonneg : 0 ≤ r) (h : Number.le a b = true) :
    q ≤ r := by
  have codes := (ha.ranks.le_iff hb.ranks).mp h
  by_contra more
  have less := code_le nonneg (not_le.mp more).le
  exact more (code_inj ha.representable hb.representable (codes.antisymm less)).le

theorem holds_ofNat {n : ℕ} (small : n < 2 ^ 53) : Holds (Number.ofNat n) n :=
  holds_of_ranks small (ranks_ofNat n)

theorem ofNat_le {m n : ℕ} (h : m ≤ n) : Number.le (Number.ofNat m : Float) (Number.ofNat n) = true :=
  ((ranks_ofNat m).le_iff (ranks_ofNat n)).mpr (code_le (Nat.cast_nonneg m) (Nat.cast_le.mpr h))

theorem ofNat_lt {m n : ℕ} (h : m < n) (small : n < 2 ^ 53) :
    Number.lt (Number.ofNat m : Float) (Number.ofNat n) = true := by
  refine ((ranks_ofNat m).lt_iff (ranks_ofNat n)).mpr ?_
  refine lt_of_le_of_ne (code_le (Nat.cast_nonneg m) (Nat.cast_le.mpr h.le)) fun eq => ?_
  have values := code_inj (holds_ofNat (h.trans small)).representable (holds_ofNat small).representable eq
  exact h.ne (Nat.cast_injective values)

theorem isFinite_of_holds {q : ℚ} (h : Holds a q) : Number.isFinite a = true := by
  change a.toModel.unpack.isFinite = true
  rcases h.form with ⟨-, s, form⟩ | ⟨m, e, fits, -, form⟩
  · rw [form]
    rfl
  · rw [form]
    rfl

theorem infinity_not_finite (h : a.toModel.unpack = .infinity .positive) : Number.isFinite a = false := by
  change a.toModel.unpack.isFinite = false
  rw [h]
  rfl

theorem pos_of_lt {q : ℚ} (holds : Holds a q) (nonneg : 0 ≤ q) (h : Number.lt (Number.ofNat 0) a = true) :
    0 < q := by
  refine lt_of_le_of_ne nonneg ?_
  rintro rfl
  exact absurd ((ranks_ofNat_zero.lt_iff holds.ranks).mp h) (lt_irrefl 0)

theorem le_of_lt (h : Number.lt a b = true) : Number.le a b = true := by
  obtain ⟨na, nb, lt⟩ := (lt_iff a b).mp h
  exact (le_iff a b).mpr ⟨na, nb, lt.le⟩

theorem holds_pos_or_infinite (h : Number.lt (Number.ofNat 0) c = true) :
    (∃ q, 0 < q ∧ Holds c q) ∨ c.toModel.unpack = .infinity .positive := by
  rcases holds_or_infinite (le_of_lt h) with ⟨q, nonneg, holds⟩ | infinite
  · exact Or.inl ⟨q, pos_of_lt holds nonneg h, holds⟩
  · exact Or.inr infinite

theorem code_lt {q : ℚ} (h : Representable q) : code q < 2047 * 2 ^ 52 := by
  rcases h with rfl | ⟨m, e, fits, high, rfl⟩
  · exact (if_pos rfl : code 0 = 0).trans_lt (by norm_num)
  · rw [code_of_fits fits high]
    exact word_lt fits high

theorem le_self (finite : Number.isFinite a = true) : Number.le a a = true := by
  have number : IsNumber a.toBits.toNat := by
    rcases (reads a).isNumber with nan | number
    · change a.toModel.unpack.isFinite = true at finite
      rw [nan] at finite
      cases finite
    · exact number
  exact (le_iff a a).mpr ⟨number, number, le_rfl⟩

theorem le_total (ha : Number.le a a = true) (hb : Number.le b b = true) :
    Number.le a b = true ∨ Number.le b a = true := by
  have na := ((le_iff a a).mp ha).1
  have nb := ((le_iff b b).mp hb).1
  rcases Int.le_total (rank a.toBits.toNat) (rank b.toBits.toNat) with ab | ba
  · exact Or.inl ((le_iff a b).mpr ⟨na, nb, ab⟩)
  · exact Or.inr ((le_iff b a).mpr ⟨nb, na, ba⟩)

theorem lt_iff_le : Number.lt a b = true ↔ Number.le a b = true ∧ Number.le b a = false := by
  rw [lt_iff, le_iff, Bool.eq_false_iff, Ne, le_iff]
  constructor
  · rintro ⟨na, nb, less⟩
    exact ⟨⟨na, nb, less.le⟩, fun h => not_le.mpr less h.2.2⟩
  · rintro ⟨⟨na, nb, -⟩, more⟩
    exact ⟨na, nb, not_le.mp fun h => more ⟨nb, na, h⟩⟩

theorem le_trans (ab : Number.le a b = true) (bc : Number.le b c = true) : Number.le a c = true := by
  obtain ⟨na, -, hab⟩ := (le_iff a b).mp ab
  obtain ⟨-, nc, hbc⟩ := (le_iff b c).mp bc
  exact (le_iff a c).mpr ⟨na, nc, hab.trans hbc⟩

theorem infinite_of_le (ha : a.toModel.unpack = .infinity .positive) (h : Number.le a b = true) :
    b.toModel.unpack = .infinity .positive := by
  have ranks := ranks_infinity ha
  have nonneg : Number.le (Number.ofNat 0) a = true := (ranks_ofNat_zero.le_iff ranks).mpr (Nat.zero_le _)
  rcases holds_or_infinite (le_trans nonneg h) with ⟨q, -, holds⟩ | infinite
  · have most := (ranks.le_iff holds.ranks).mp h
    exact absurd most (not_le.mpr (code_lt holds.representable))
  · exact infinite

theorem Ranks.nonneg {n : ℕ} (h : Ranks a n) : Number.le (Number.ofNat 0) a = true :=
  (ranks_ofNat_zero.le_iff h).mpr (Nat.zero_le n)

theorem pos_of_le (pos : Number.lt (Number.ofNat 0) a = true) (ab : Number.le a b = true) :
    Number.lt (Number.ofNat 0) b = true := by
  obtain ⟨nz, -, less⟩ := (lt_iff _ _).mp pos
  obtain ⟨-, nb, more⟩ := (le_iff _ _).mp ab
  exact (lt_iff _ _).mpr ⟨nz, nb, less.trans_le more⟩

theorem ranks_mul_infinity (pos : Number.lt (Number.ofNat 0) a = true)
    (hc : c.toModel.unpack = .infinity .positive) : Ranks (a * c) (2047 * 2 ^ 52) := by
  rcases holds_pos_or_infinite pos with ⟨q, qpos, ha⟩ | ha
  · exact ha.mul_infinity qpos hc
  · exact mul_infinity ha (Or.inr hc)

theorem le_one_mul (pos : Number.lt (Number.ofNat 0) a = true) : Number.le a (Number.ofNat 1 * a) = true := by
  have one : Holds (Number.ofNat 1) (1 : ℕ) := holds_ofNat (by norm_num)
  rcases holds_pos_or_infinite pos with ⟨q, qpos, ha⟩ | ha
  · have product := one.mul ha
    rw [Nat.cast_one, one_mul] at product
    exact (ha.ranks.le_iff product).mpr le_rfl
  · refine ((ranks_infinity ha).le_iff (one.mul_infinity ?_ ha)).mpr le_rfl
    norm_num

theorem mul_nonneg (nonneg : Number.le (Number.ofNat 0) a = true) (pos : Number.lt (Number.ofNat 0) c = true)
    (meets : Number.isFinite c = true ∨ Number.lt (Number.ofNat 0) a = true) :
    Number.le (Number.ofNat 0) (a * c) = true := by
  rcases holds_pos_or_infinite pos with ⟨s, spos, hc⟩ | hc
  · rcases holds_or_infinite nonneg with ⟨q, qnonneg, ha⟩ | ha
    · exact (ha.mul hc).nonneg
    · exact (mul_infinity ha (Or.inl ⟨s, spos, hc⟩)).nonneg
  · have apos := meets.resolve_left (by rw [infinity_not_finite hc]; exact Bool.false_ne_true)
    exact (ranks_mul_infinity apos hc).nonneg

theorem mul_le_of_holds {s : ℚ} (nonneg : Number.le (Number.ofNat 0) a = true) (ab : Number.le a b = true)
    (hc : Holds c s) (spos : 0 < s) : Number.le (a * c) (b * c) = true := by
  have factor : (∃ s, 0 < s ∧ Holds c s) ∨ c.toModel.unpack = .infinity .positive := Or.inl ⟨s, spos, hc⟩
  rcases holds_or_infinite nonneg with ⟨q, qnonneg, ha⟩ | ha
  · rcases holds_or_infinite (le_trans nonneg ab) with ⟨r, rnonneg, hb⟩ | hb
    · have values : q * s ≤ r * s := mul_le_mul_of_nonneg_right (ha.le hb rnonneg ab) spos.le
      exact ((ha.mul hc).le_iff (hb.mul hc)).mpr (code_le (Rat.mul_nonneg qnonneg spos.le) values)
    · exact ((ha.mul hc).le_iff (mul_infinity hb factor)).mpr (code_le_infinity _)
  · have hb := infinite_of_le ha ab
    exact ((mul_infinity ha factor).le_iff (mul_infinity hb factor)).mpr le_rfl

theorem mul_le (nonneg : Number.le (Number.ofNat 0) a = true) (ab : Number.le a b = true)
    (pos : Number.lt (Number.ofNat 0) c = true)
    (meets : Number.isFinite c = true ∨ Number.lt (Number.ofNat 0) a = true) :
    Number.le (a * c) (b * c) = true := by
  rcases holds_pos_or_infinite pos with ⟨s, spos, hc⟩ | hc
  · exact mul_le_of_holds nonneg ab hc spos
  · have apos := meets.resolve_left (by rw [infinity_not_finite hc]; exact Bool.false_ne_true)
    have left := ranks_mul_infinity apos hc
    have right := ranks_mul_infinity (pos_of_le apos ab) hc
    exact (left.le_iff right).mpr le_rfl

theorem holds_of_finite (pos : Number.lt (Number.ofNat 0) c = true) (finite : Number.isFinite c = true) :
    ∃ s, 0 < s ∧ Holds c s := by
  refine (holds_pos_or_infinite pos).resolve_right fun infinite => ?_
  rw [infinity_not_finite infinite] at finite
  cases finite

theorem div_nonneg (nonneg : Number.le (Number.ofNat 0) a = true) (pos : Number.lt (Number.ofNat 0) c = true)
    (finite : Number.isFinite c = true) : Number.le (Number.ofNat 0) (a / c) = true := by
  obtain ⟨s, spos, hc⟩ := holds_of_finite pos finite
  rcases holds_or_infinite nonneg with ⟨q, qnonneg, ha⟩ | ha
  · exact (ha.div hc spos).nonneg
  · exact (infinity_div ha hc spos).nonneg

theorem div_le (nonneg : Number.le (Number.ofNat 0) a = true) (ab : Number.le a b = true)
    (pos : Number.lt (Number.ofNat 0) c = true) (finite : Number.isFinite c = true) :
    Number.le (a / c) (b / c) = true := by
  obtain ⟨s, spos, hc⟩ := holds_of_finite pos finite
  rcases holds_or_infinite nonneg with ⟨q, qnonneg, ha⟩ | ha
  · rcases holds_or_infinite (le_trans nonneg ab) with ⟨r, rnonneg, hb⟩ | hb
    · have values : q / s ≤ r / s := div_le_div_of_nonneg_right (ha.le hb rnonneg ab) spos.le
      exact ((ha.div hc spos).le_iff (hb.div hc spos)).mpr (code_le (by positivity) values)
    · exact ((ha.div hc spos).le_iff (infinity_div hb hc spos)).mpr (code_le_infinity _)
  · have hb := infinite_of_le ha ab
    exact ((infinity_div ha hc spos).le_iff (infinity_div hb hc spos)).mpr le_rfl

theorem roundToNat_le (nonneg : Number.le (Number.ofNat 0) a = true) (ab : Number.le a b = true) :
    Number.roundToNat a ≤ Number.roundToNat b := by
  rcases holds_or_infinite (le_trans nonneg ab) with ⟨r, rnonneg, hb⟩ | hb
  · rcases holds_or_infinite nonneg with ⟨q, qnonneg, ha⟩ | ha
    · rw [roundToNat_of_holds ha, roundToNat_of_holds hb]
      refine min_le_min_left _ (Nat.floor_le_floor ?_)
      have values := ha.le hb rnonneg ab
      linarith
    · have infinite := infinite_of_le ha ab
      rcases hb.form with ⟨-, s, form⟩ | ⟨m, e, fits, -, form⟩
      · rw [form] at infinite
        cases infinite
      · rw [form] at infinite
        cases infinite
  · rw [roundToNat_of_infinity hb]
    rcases holds_or_infinite nonneg with ⟨q, qnonneg, ha⟩ | ha
    · rw [roundToNat_of_holds ha]
      exact min_le_left _ _
    · rw [roundToNat_of_infinity ha]

theorem roundToNat_scale {m n : ℕ} (hm : 0 < m) (hn : 0 < n) (small : m * n < 2 ^ 53) :
    Number.roundToNat (Number.ofNat m * Number.ofNat n / Number.ofNat m : Float) = n := by
  have left : m < 2 ^ 53 := (Nat.le_mul_of_pos_right m hn).trans_lt small
  have right : n < 2 ^ 53 := (Nat.le_mul_of_pos_left n hm).trans_lt small
  have hm' : (0 : ℚ) < m := Nat.cast_pos.mpr hm
  have product := (holds_ofNat left).mul (holds_ofNat right)
  rw [← Nat.cast_mul] at product
  have quotient := (holds_of_ranks small product).div (holds_ofNat left) hm'
  rw [Nat.cast_mul, mul_div_cancel_left₀ _ hm'.ne'] at quotient
  have half : ⌊(n + 1 / 2 : ℚ)⌋₊ = n := by
    rw [Nat.floor_eq_iff (by positivity)]
    constructor
    · linarith
    · linarith
  rw [roundToNat_of_holds (holds_of_ranks right quotient), half]
  refine min_eq_right ?_
  have limit : Binary64.countLimit = 18446744073709551615 := rfl
  omega

theorem ofBinary64_pos {w : Binary64} (finite : w.isFinite = true) (positive : w.isNegative = false)
    (nonzero : w.significand ≠ 0) : Number.lt (Number.ofNat 0) (Number.ofBinary64 w : Float) = true := by
  have bits : (Number.ofBinary64 w : Float).toBits.toNat = (UnpackedFloat.pack Format.binary64
      (UnpackedFloat.unpack Format.binary64 w.bits.toBitVec)).toNat := rfl
  have view := reads_unpack w.bits
  have field := bne_iff_ne.mp finite
  have fields := w.exponentField_eq
  have fractions := w.fractionField_eq
  have sign : ¬2 ^ 63 ≤ w.bits.toNat := by
    rw [← w.isNegative_iff, positive]
    exact Bool.false_ne_true
  unfold Binary64.significand at nonzero
  cases form : UnpackedFloat.unpack Format.binary64 w.bits.toBitVec with
  | finite s m e pos =>
    rw [form] at bits view
    cases view with
    | finite _ _ _ _ fits high eq =>
      cases s with
      | positive =>
        rw [pack_finite .positive fits, min_eq_left (word_lt fits high).le] at bits
        have ranks := ranks_of_bits (word_lt fits high).le .positive (Or.inl rfl) bits
        exact (ranks_ofNat_zero.lt_iff ranks).mpr (word_pos fits)
      | negative =>
        simp only [signBit] at eq
        omega
  | zero s =>
    rw [form] at view
    cases view with
    | zero _ eq =>
      cases s with
      | positive =>
        have empty : w.bits.toNat = 0 := eq
        rw [fields, fractions, empty] at nonzero
        exact absurd nonzero (by decide)
      | negative =>
        simp only [signBit] at eq
        omega
  | infinity s =>
    rw [form] at view
    cases view with
    | infinity _ eq =>
      cases s <;> simp only [signBit] at eq <;> omega
  | notANumber =>
    rw [form] at view
    cases view with
    | nan beyond => omega

end Laws
end Doubles

open Doubles in
instance : Ordered Float where
  le_self := Doubles.le_self
  le_trans := Doubles.le_trans
  le_total := Doubles.le_total
  lt_iff := Doubles.lt_iff_le
  ofNat_le := Doubles.ofNat_le
  ofNat_lt := Doubles.ofNat_lt
  ofNat_finite small := isFinite_of_holds (holds_ofNat small)
  ofBinary64_pos := Doubles.ofBinary64_pos
  le_one_mul := Doubles.le_one_mul
  mul_le := Doubles.mul_le
  mul_nonneg := Doubles.mul_nonneg
  div_nonneg := Doubles.div_nonneg
  div_le := Doubles.div_le
  roundToNat_le := Doubles.roundToNat_le
  roundToNat_scale := Doubles.roundToNat_scale

end FormulaSynth
