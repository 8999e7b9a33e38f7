import FormulaSynth.Number.Machine
import FormulaSynth.Proofs.Rounding

set_option autoImplicit false
namespace FormulaSynth
open Float.Model Float.Model.UnpackedFloat

namespace Binary64

theorem exponentField_eq (b : Binary64) : b.exponentField = b.bits.toNat / 2 ^ 52 % 2048 := by
  rw [exponentField, UInt64.toNat_and, UInt64.toNat_shiftRight]
  change b.bits.toNat >>> 52 &&& 2 ^ 11 - 1 = _
  rw [Nat.and_two_pow_sub_one_eq_mod, Nat.shiftRight_eq_div_pow]

theorem fractionField_eq (b : Binary64) : b.fractionField = b.bits.toNat % 2 ^ 52 := by
  rw [fractionField, UInt64.toNat_and]
  change b.bits.toNat &&& 2 ^ 52 - 1 = _
  rw [Nat.and_two_pow_sub_one_eq_mod]

theorem isNegative_iff (b : Binary64) : b.isNegative = true ↔ 2 ^ 63 ≤ b.bits.toNat := by
  have size := b.bits.toNat_lt
  rw [isNegative, beq_iff_eq, ← UInt64.toNat_inj, UInt64.toNat_shiftRight]
  change b.bits.toNat >>> 63 = 1 ↔ _
  rw [Nat.shiftRight_eq_div_pow]
  omega

end Binary64

namespace Fields
variable {f : Format} (w : BitVec f.numBits)

theorem exponent_toNat :
    (unpackExponent w).toNat = w.toNat / 2 ^ f.mantissaBitsWithoutImplicit % 2 ^ f.exponentBits := by
  have width : f.mantissaBitsWithoutImplicit + f.exponentBits - 1 - f.mantissaBitsWithoutImplicit + 1 =
      f.exponentBits := by
    have := f.he
    omega
  rw [unpackExponent, BitVec.toNat_cast, BitVec.extractLsb_toNat, Nat.shiftRight_eq_div_pow, width]

theorem mantissa_toNat : (unpackMantissa w).toNat = w.toNat % 2 ^ f.mantissaBitsWithoutImplicit := by
  have width : f.mantissaBitsWithoutImplicit - 1 - 0 + 1 = f.mantissaBitsWithoutImplicit := by
    have := f.hm
    omega
  rw [unpackMantissa, BitVec.toNat_cast, BitVec.extractLsb_toNat, Nat.shiftRight_zero, width]

theorem sign_toNat :
    (unpackSign w).toNat = w.toNat / 2 ^ (f.mantissaBitsWithoutImplicit + f.exponentBits) % 2 := by
  rw [unpackSign, BitVec.toNat_cast, BitVec.extractLsb_toNat, Nat.shiftRight_eq_div_pow, Nat.sub_self]

theorem exponent_full : unpackExponent w = -1#_ ↔
    w.toNat / 2 ^ f.mantissaBitsWithoutImplicit % 2 ^ f.exponentBits = 2 ^ f.exponentBits - 1 := by
  rw [← BitVec.toNat_inj, exponent_toNat, BitVec.neg_one_eq_allOnes, BitVec.toNat_allOnes]

theorem exponent_zero :
    unpackExponent w = 0#_ ↔ w.toNat / 2 ^ f.mantissaBitsWithoutImplicit % 2 ^ f.exponentBits = 0 := by
  rw [← BitVec.toNat_inj, exponent_toNat, BitVec.toNat_zero]

theorem mantissa_zero : unpackMantissa w = 0#_ ↔ w.toNat % 2 ^ f.mantissaBitsWithoutImplicit = 0 := by
  rw [← BitVec.toNat_inj, mantissa_toNat, BitVec.toNat_zero]

theorem implicit_toNat : (1#1 ++ unpackMantissa w).toNat =
    2 ^ f.mantissaBitsWithoutImplicit + w.toNat % 2 ^ f.mantissaBitsWithoutImplicit := by
  rw [BitVec.toNat_append, ← Nat.shiftLeft_add_eq_or_of_lt (BitVec.isLt _), mantissa_toNat]
  change 1 <<< _ + _ = _
  rw [Nat.one_shiftLeft]

end Fields

namespace Doubles

def signBit : Sign → ℕ
  | .positive => 0
  | .negative => 2 ^ 63

inductive Reads (n : ℕ) : UnpackedFloat → Prop
  | zero (s : Sign) (eq : n = signBit s) : Reads n (.zero s)
  | finite (s : Sign) (m : ℕ) (e : ℤ) (pos : 0 < m) (fits : Fits m e) (high : e ≤ 971)
      (eq : n = signBit s + ((e + 1074).toNat * 2 ^ 52 + m)) : Reads n (.finite s m e pos)
  | infinity (s : Sign) (eq : n = signBit s + 2047 * 2 ^ 52) : Reads n (.infinity s)
  | nan (beyond : 2047 * 2 ^ 52 < n % 2 ^ 63) : Reads n .notANumber

theorem unpackExponent_toNat (w : UInt64) :
    (@unpackExponent Format.binary64 w.toBitVec).toNat = w.toNat / 2 ^ 52 % 2048 :=
  Fields.exponent_toNat (f := Format.binary64) w.toBitVec

theorem unpackMantissa_toNat (w : UInt64) :
    (@unpackMantissa Format.binary64 w.toBitVec).toNat = w.toNat % 2 ^ 52 :=
  Fields.mantissa_toNat (f := Format.binary64) w.toBitVec

theorem unpackSign_toNat (w : UInt64) :
    (@unpackSign Format.binary64 w.toBitVec).toNat = w.toNat / 2 ^ 63 % 2 :=
  Fields.sign_toNat (f := Format.binary64) w.toBitVec

theorem unpackExponent_full (w : UInt64) :
    @unpackExponent Format.binary64 w.toBitVec = -1#_ ↔ w.toNat / 2 ^ 52 % 2048 = 2047 :=
  Fields.exponent_full (f := Format.binary64) w.toBitVec

theorem unpackExponent_zero (w : UInt64) :
    @unpackExponent Format.binary64 w.toBitVec = 0#_ ↔ w.toNat / 2 ^ 52 % 2048 = 0 :=
  Fields.exponent_zero (f := Format.binary64) w.toBitVec

theorem unpackMantissa_zero (w : UInt64) :
    @unpackMantissa Format.binary64 w.toBitVec = 0#_ ↔ w.toNat % 2 ^ 52 = 0 :=
  Fields.mantissa_zero (f := Format.binary64) w.toBitVec

theorem implicit_toNat (w : UInt64) :
    (1#1 ++ @unpackMantissa Format.binary64 w.toBitVec).toNat = 2 ^ 52 + w.toNat % 2 ^ 52 :=
  Fields.implicit_toNat (f := Format.binary64) w.toBitVec

theorem signBit_ofBitVec (v : BitVec 1) : signBit (Sign.ofBitVec v) = v.toNat * 2 ^ 63 := by
  have cases : v = 0#1 ∨ v = 1#1 := by
    revert v
    decide
  rcases cases with rfl | rfl <;> rfl

theorem reads_unpack (w : UInt64) : Reads w.toNat (UnpackedFloat.unpack Format.binary64 w.toBitVec) := by
  have exponent := unpackExponent_toNat w
  have mantissa := unpackMantissa_toNat w
  have offset := signBit_ofBitVec (@unpackSign Format.binary64 w.toBitVec)
  have bound := w.toNat_lt
  have bias : ((Format.binary64.exponentBias : ℕ) : ℤ) + Format.binary64.mantissaBitsWithoutImplicit = 1075 := rfl
  rw [unpackSign_toNat] at offset
  unfold UnpackedFloat.unpack
  dsimp only
  split_ifs with full whole lowest nothing
  · rw [unpackExponent_full] at full
    rw [unpackMantissa_zero] at whole
    exact .infinity _ (by omega)
  · rw [unpackExponent_full] at full
    rw [unpackMantissa_zero] at whole
    exact .nan (by omega)
  · rw [unpackExponent_zero] at lowest
    rw [unpackMantissa_zero] at nothing
    exact .zero _ (by omega)
  · rw [unpackExponent_zero] at lowest
    rw [unpackMantissa_zero] at nothing
    have exponent_eq : (w.toNat / 2 ^ 52 % 2048 : ℕ) - 1075 + 1 = (-1074 : ℤ) := by omega
    refine .finite _ _ _ _ ?_ ?_ ?_
    · rw [exponent, bias, exponent_eq, mantissa]
      exact ⟨by omega, by omega, le_rfl, Or.inr rfl⟩
    · rw [exponent, bias, exponent_eq]
      decide
    · rw [exponent, bias, exponent_eq, mantissa]
      omega
  · rw [unpackExponent_full] at full
    rw [unpackExponent_zero] at lowest
    refine .finite _ _ _ _ ?_ ?_ ?_
    · rw [implicit_toNat, bias, exponent]
      exact ⟨by omega, by omega, by omega, by omega⟩
    · rw [bias, exponent]
      omega
    · rw [implicit_toNat, bias, exponent]
      omega

theorem toBits_inj {x y : Float} (h : x.toBits.toNat = y.toBits.toNat) : x = y := by
  obtain ⟨⟨b, _⟩⟩ := x
  obtain ⟨⟨c, _⟩⟩ := y
  obtain rfl : b = c := UInt64.toNat_inj.mp h
  rfl

theorem reads (x : Float) : Reads x.toBits.toNat x.toModel.unpack := reads_unpack x.toBits

def word (m : ℕ) (e : ℤ) : ℕ := (e + 1074).toNat * 2 ^ 52 + m

theorem word_pos {m : ℕ} {e : ℤ} (h : Fits m e) : 0 < word m e := by
  have := h.pos
  unfold word
  omega

theorem word_lt {m : ℕ} {e : ℤ} (h : Fits m e) (high : e ≤ 971) : word m e < 2047 * 2 ^ 52 := by
  have := h.lt
  unfold word
  omega

theorem compare_of_lt {a b : ℤ} (h : a < b) : compare a b = .lt := compare_lt_iff_lt.mpr h

theorem compare_of_gt {a b : ℤ} (h : b < a) : compare a b = .gt := compare_gt_iff_gt.mpr h

theorem compare_neg (a b : ℤ) : compare (-a) (-b) = (compare a b).swap := by
  rcases lt_trichotomy a b with lt | rfl | gt
  · rw [compare_of_lt lt, compare_of_gt (neg_lt_neg lt)]
    rfl
  · rw [compare_eq_iff_eq.mpr rfl, compare_eq_iff_eq.mpr rfl]
    rfl
  · rw [compare_of_gt gt, compare_of_lt (neg_lt_neg gt)]
    rfl

theorem compare_fits {m k : ℕ} {e f : ℤ} (h : Fits m e) (h' : Fits k f) :
    (compare e f).then (compare m k) = compare (word m e : ℤ) (word k f) := by
  have below : ∀ {m k : ℕ} {e f : ℤ}, Fits m e → Fits k f → e < f → (word m e : ℤ) < word k f := by
    intro m k e f h h' lt
    have most := h.lt
    have full := h'.full
    have low := h.low
    unfold word
    omega
  rcases lt_trichotomy e f with lt | rfl | gt
  · rw [compare_of_lt lt, compare_of_lt (below h h' lt)]
    rfl
  · rw [compare_eq_iff_eq.mpr rfl, Ordering.eq_then]
    unfold word
    rcases lt_trichotomy m k with lt | rfl | gt
    · rw [compare_lt_iff_lt.mpr lt, compare_of_lt (by omega)]
    · rw [compare_eq_iff_eq.mpr rfl, compare_eq_iff_eq.mpr rfl]
    · rw [compare_gt_iff_gt.mpr gt, compare_of_gt (by omega)]
  · rw [compare_of_gt gt, compare_of_gt (below h' h gt)]
    rfl

def rank (n : ℕ) : ℤ := if n < 2 ^ 63 then n else (2 ^ 63) - n

def IsNumber (n : ℕ) : Prop := n % 2 ^ 63 ≤ 2047 * 2 ^ 52

theorem rank_signBit (s : Sign) {n : ℕ} (small : n ≤ 2047 * 2 ^ 52) : rank (signBit s + n) = s.apply n := by
  cases s with
  | positive =>
    change rank (0 + n) = n
    unfold rank
    omega
  | negative =>
    change rank (2 ^ 63 + n) = -n
    unfold rank
    omega

theorem Reads.not_nan {n : ℕ} (h : Reads n .notANumber) : ¬IsNumber n := by
  cases h with
  | nan beyond => exact not_le.mpr beyond

/-- The place of a number in the order of patterns. -/
def level : UnpackedFloat → ℤ
  | .zero _ | .notANumber => 0
  | .finite s m e _ => s.apply (word m e)
  | .infinity s => s.apply (2047 * 2 ^ 52)

theorem Reads.rank_eq {n : ℕ} {u : UnpackedFloat} (h : Reads n u) (number : IsNumber n) : rank n = level u := by
  cases h with
  | zero s eq =>
    subst eq
    cases s <;> rfl
  | finite s m e pos fits high eq => rw [eq]; exact rank_signBit s (word_lt fits high).le
  | infinity s eq => rw [eq]; exact rank_signBit s le_rfl
  | nan beyond => exact absurd number (not_le.mpr beyond)

section Comparing
variable {n k : ℕ} {u v : UnpackedFloat}

theorem some_lt {a b : ℤ} (h : a < b) : some Ordering.lt = some (compare a b) := by rw [compare_of_lt h]

theorem some_gt {a b : ℤ} (h : b < a) : some Ordering.gt = some (compare a b) := by rw [compare_of_gt h]

theorem zero_compare (s : Sign) (hv : Reads k v) (number : IsNumber k) :
    (UnpackedFloat.zero s).compare v = some (compare 0 (level v)) := by
  cases hv with
  | zero t eq => rfl
  | finite t m e pos fits high eq =>
    have positive : 0 < (word m e : ℤ) := Nat.cast_pos.mpr (word_pos fits)
    cases t with
    | positive => exact some_lt positive
    | negative => exact some_gt (neg_lt_zero.mpr positive)
  | infinity t eq => cases t <;> rfl
  | nan beyond => exact absurd number (not_le.mpr beyond)

theorem finite_compare (s : Sign) {m : ℕ} {e : ℤ} {pos : 0 < m} (fits : Fits m e) (high : e ≤ 971)
    (hv : Reads k v) (number : IsNumber k) :
    (UnpackedFloat.finite s m e pos).compare v = some (compare (s.apply (word m e)) (level v)) := by
  have positive : 0 < (word m e : ℤ) := Nat.cast_pos.mpr (word_pos fits)
  have small : (word m e : ℤ) < 2047 * 2 ^ 52 := by exact_mod_cast word_lt fits high
  cases hv with
  | zero t eq =>
    cases s with
    | positive => exact some_gt positive
    | negative => exact some_lt (neg_lt_zero.mpr positive)
  | finite t k f pos' fits' high' eq =>
    have positive' : 0 < (word k f : ℤ) := Nat.cast_pos.mpr (word_pos fits')
    cases s with
    | positive =>
      cases t with
      | positive => exact congrArg some (compare_fits fits fits')
      | negative => exact some_gt ((neg_lt_zero.mpr positive').trans positive)
    | negative =>
      cases t with
      | positive => exact some_lt ((neg_lt_zero.mpr positive).trans positive')
      | negative =>
        change some _ = some (compare (-(word m e : ℤ)) (-(word k f : ℤ)))
        rw [compare_neg, ← compare_fits fits fits']
  | infinity t eq =>
    have inside : -(2047 * 2 ^ 52) < s.apply (word m e) ∧ s.apply (word m e) < 2047 * 2 ^ 52 := by
      cases s <;> simp only [Sign.apply] <;> omega
    cases t with
    | positive => cases s <;> exact some_lt inside.2
    | negative => cases s <;> exact some_gt inside.1
  | nan beyond => exact absurd number (not_le.mpr beyond)

theorem infinity_compare (s : Sign) (hv : Reads k v) (number : IsNumber k) :
    (UnpackedFloat.infinity s).compare v = some (compare (s.apply (2047 * 2 ^ 52)) (level v)) := by
  cases hv with
  | zero t eq => cases s <;> rfl
  | finite t m e pos fits high eq =>
    have small : (word m e : ℤ) < 2047 * 2 ^ 52 := by exact_mod_cast word_lt fits high
    have inside : -(2047 * 2 ^ 52) < t.apply (word m e) ∧ t.apply (word m e) < 2047 * 2 ^ 52 := by
      cases t <;> simp only [Sign.apply] <;> omega
    cases s with
    | positive => cases t <;> exact some_gt inside.2
    | negative => cases t <;> exact some_lt inside.1
  | infinity t eq => cases s <;> cases t <;> rfl
  | nan beyond => exact absurd number (not_le.mpr beyond)

theorem Reads.compare_eq (hu : Reads n u) (hv : Reads k v) (nu : IsNumber n) (nv : IsNumber k) :
    u.compare v = some (compare (rank n) (rank k)) := by
  rw [hu.rank_eq nu, hv.rank_eq nv]
  cases hu with
  | zero s eq => exact zero_compare s hv nv
  | finite s m e pos fits high eq => exact finite_compare s fits high hv nv
  | infinity s eq => exact infinity_compare s hv nv
  | nan beyond => exact absurd nu (not_le.mpr beyond)

theorem Reads.isNumber (hu : Reads n u) : u = .notANumber ∨ IsNumber n := by
  unfold IsNumber
  cases hu with
  | zero s eq =>
    right
    cases s <;> simp only [signBit] at eq <;> omega
  | finite s m e pos fits high eq =>
    right
    have small := word_lt fits high
    unfold word at small
    cases s <;> simp only [signBit] at eq <;> omega
  | infinity s eq =>
    right
    cases s <;> simp only [signBit] at eq <;> omega
  | nan beyond => exact Or.inl rfl

theorem Reads.compare_nan (hu : Reads n u) (hv : Reads k v) (h : ¬(IsNumber n ∧ IsNumber k)) :
    u.compare v = none := by
  rcases hu.isNumber with rfl | nu
  · rfl
  · rcases hv.isNumber with rfl | nv
    · cases u <;> rfl
    · exact absurd ⟨nu, nv⟩ h

theorem number_le (x y : Float) :
    Number.le x y = (x.toModel.unpack.compare y.toModel.unpack).any (·.isLE) := by
  change decide (x ≤ y) = _
  rw [Bool.eq_iff_iff, decide_eq_true_iff]
  change (decide (x.toModel.unpack.le y.toModel.unpack = true)) = true ↔ _
  rw [decide_eq_true_iff]
  rfl

theorem number_lt (x y : Float) :
    Number.lt x y = (x.toModel.unpack.compare y.toModel.unpack == some .lt) := by
  change decide (x < y) = _
  rw [Bool.eq_iff_iff, decide_eq_true_iff]
  change (decide (x.toModel.unpack.lt y.toModel.unpack = true)) = true ↔ _
  rw [decide_eq_true_iff]
  rfl

theorem le_iff (x y : Float) :
    Number.le x y = true ↔ IsNumber x.toBits.toNat ∧ IsNumber y.toBits.toNat ∧
      rank x.toBits.toNat ≤ rank y.toBits.toNat := by
  rw [number_le]
  by_cases numbers : IsNumber x.toBits.toNat ∧ IsNumber y.toBits.toNat
  · rw [(reads x).compare_eq (reads y) numbers.1 numbers.2, Option.any_some, Std.isLE_compare]
    exact ⟨fun h => ⟨numbers.1, numbers.2, h⟩, fun h => h.2.2⟩
  · rw [(reads x).compare_nan (reads y) numbers]
    exact iff_of_false Bool.false_ne_true fun h => numbers ⟨h.1, h.2.1⟩

theorem lt_iff (x y : Float) :
    Number.lt x y = true ↔ IsNumber x.toBits.toNat ∧ IsNumber y.toBits.toNat ∧
      rank x.toBits.toNat < rank y.toBits.toNat := by
  rw [number_lt]
  by_cases numbers : IsNumber x.toBits.toNat ∧ IsNumber y.toBits.toNat
  · rw [(reads x).compare_eq (reads y) numbers.1 numbers.2, beq_iff_eq, Option.some.injEq, compare_lt_iff_lt]
    exact ⟨fun h => ⟨numbers.1, numbers.2, h⟩, fun h => h.2.2⟩
  · rw [(reads x).compare_nan (reads y) numbers]
    exact iff_of_false (by decide) fun h => numbers ⟨h.1, h.2.1⟩

end Comparing

end Doubles
end FormulaSynth
