import FormulaSynth.Proofs.Patterns

/-!
# Rounding bit by bit

Doubles are rounded by shifting bits out and keeping two of them. What comes out is the nearest double.
-/

set_option autoImplicit false
namespace FormulaSynth.Doubles
open Float.Model Float.Model.UnpackedFloat

section Packing

theorem packComponents_toNat (s : Sign) (e : BitVec 11) (m : BitVec 52) :
    (packComponents Format.binary64 s e m).toNat =
      s.toBitVec.toNat * 2 ^ 63 + e.toNat * 2 ^ 52 + m.toNat := by
  rw [packComponents, BitVec.toNat_append, BitVec.toNat_append, ← Nat.shiftLeft_add_eq_or_of_lt e.isLt,
    ← Nat.shiftLeft_add_eq_or_of_lt m.isLt, Nat.shiftLeft_eq, Nat.shiftLeft_eq]
  omega

theorem signBit_toBitVec (s : Sign) : signBit s = s.toBitVec.toNat * 2 ^ 63 := by
  cases s <;> rfl

theorem pack_zero (s : Sign) : (UnpackedFloat.pack Format.binary64 (.zero s)).toNat = signBit s := by
  cases s <;> rfl

theorem pack_infinity (s : Sign) :
    (UnpackedFloat.pack Format.binary64 (.infinity s)).toNat = signBit s + 2047 * 2 ^ 52 := by
  cases s <;> rfl

theorem pack_finite (s : Sign) {m : ℕ} {e : ℤ} {pos : 0 < m} (fits : Fits m e) :
    (UnpackedFloat.pack Format.binary64 (.finite s m e pos)).toNat =
      signBit s + min (word m e) (2047 * 2 ^ 52) := by
  have most := fits.lt
  have low := fits.low
  have full := fits.full
  have biased : (e + Format.binary64.exponentBias + Format.binary64.mantissaBitsWithoutImplicit).toNat =
      (e + 1075).toNat := by
    have bias : (Format.binary64.exponentBias : ℤ) = 1023 := rfl
    have places : (Format.binary64.mantissaBitsWithoutImplicit : ℤ) = 52 := rfl
    rw [bias, places]
    omega
  have bits : m.log2 + 1 = Format.binary64.mantissaBits ↔ 2 ^ 52 ≤ m := by
    have least := Nat.le_log2 (k := 52) pos.ne'
    have least' := Nat.le_log2 (k := 53) pos.ne'
    change m.log2 + 1 = 53 ↔ _
    omega
  unfold UnpackedFloat.pack
  dsimp only
  rw [biased]
  split_ifs with large normal
  · rw [min_eq_right (by unfold word; omega)]
    exact pack_infinity s
  · have lead := bits.mp normal
    simp only [packComponents_toNat, ← signBit_toBitVec, BitVec.toNat_ofNat]
    unfold word
    omega
  · have low := bits.not.mp normal
    simp only [packComponents_toNat, ← signBit_toBitVec, BitVec.toNat_ofNat]
    unfold word
    omega

end Packing

section Rounding

/-- The quotient, its first bit behind the point, and whether there is more. -/
structure Describes (em : ExtendedMantissa) (num den : ℕ) : Prop where
  mantissa : em.mantissa = num / den
  roundBit : em.roundBit = true ↔ den ≤ 2 * (num % den)
  stickyBit : em.stickyBit = true ↔ 0 < num % den ∧ 2 * (num % den) ≠ den

variable {em : ExtendedMantissa} {num den : ℕ}

theorem Describes.shiftRightOne (h : Describes em num den) (hd : 0 < den) :
    Describes em.shiftRightOne num (den * 2) := by
  have remainder : num % (den * 2) = num % den + den * (num / den % 2) := Nat.mod_mul
  have small := Nat.mod_lt num hd
  have round := h.roundBit
  have sticky := h.stickyBit
  rcases Nat.mod_two_eq_zero_or_one (num / den) with bit | bit
  · rw [bit, Nat.mul_zero, Nat.add_zero] at remainder
    refine ⟨?_, ?_, ?_⟩
    · rw [ExtendedMantissa.shiftRightOne, h.mantissa]
      exact Nat.div_div_eq_div_mul num den 2
    · simp only [ExtendedMantissa.shiftRightOne, h.mantissa, bit, remainder]
      exact iff_of_false Bool.false_ne_true (by omega)
    · simp only [ExtendedMantissa.shiftRightOne, Bool.or_eq_true, round, sticky, remainder]
      omega
  · rw [bit, Nat.mul_one] at remainder
    refine ⟨?_, ?_, ?_⟩
    · rw [ExtendedMantissa.shiftRightOne, h.mantissa]
      exact Nat.div_div_eq_div_mul num den 2
    · simp only [ExtendedMantissa.shiftRightOne, h.mantissa, bit, remainder]
      exact iff_of_true rfl (by omega)
    · simp only [ExtendedMantissa.shiftRightOne, Bool.or_eq_true, round, sticky, remainder]
      omega

theorem Describes.shiftRight (h : Describes em num den) (hd : 0 < den) (k : ℕ) :
    Describes (em >>> k) num (den * 2 ^ k) := by
  induction k with
  | zero =>
    rw [Nat.pow_zero, Nat.mul_one]
    exact h
  | succ k ih =>
    rw [Nat.pow_succ, ← Nat.mul_assoc]
    exact ih.shiftRightOne (by positivity)

theorem Describes.rounded (h : Describes em num den) (hd : 0 < den) : em.roundedMantissa = roundDiv num den := by
  obtain ⟨m, round, sticky⟩ := em
  obtain ⟨mantissa, roundBit, stickyBit⟩ := h
  dsimp only at mantissa roundBit stickyBit
  subst mantissa
  unfold roundDiv ExtendedMantissa.roundedMantissa
  cases round with
  | false =>
    have below : 2 * (num % den) < den := not_le.mp (roundBit.not.mp Bool.false_ne_true)
    dsimp only
    rw [if_pos below]
    cases sticky <;> rfl
  | true =>
    have above : den ≤ 2 * (num % den) := roundBit.mp rfl
    dsimp only
    rw [if_neg (not_lt.mpr above)]
    cases sticky with
    | false =>
      have half : ¬(0 < num % den ∧ 2 * (num % den) ≠ den) := stickyBit.not.mp Bool.false_ne_true
      rw [if_neg (by omega)]
      rfl
    | true =>
      have more := stickyBit.mp rfl
      rw [if_pos (by omega)]
      rfl

theorem target_eq_place {m : ℕ} {e : ℤ} (hd : 0 < den) (hn : 0 < num) (floor : m = num / den)
    (fine : 0 < m ∨ e ≤ -1074) :
    Format.binary64.targetExponent (totalExponent m e) = place (num / den * 2 ^ e) := by
  have hd' : (0 : ℚ) < den := Nat.cast_pos.mpr hd
  have positive : (0 : ℚ) < num / den := div_pos (Nat.cast_pos.mpr hn) hd'
  have below : (num / den : ℚ) < m + 1 := by
    rw [div_lt_iff₀ hd', floor]
    exact_mod_cast Nat.lt_mul_of_div_lt (Nat.lt_succ_self _) hd
  have above : (m : ℚ) ≤ num / den := by
    rw [le_div_iff₀ hd', floor]
    exact_mod_cast Nat.div_mul_le_self num den
  change max ((m.log2 : ℤ) + 1 + e - 53) (-1074) = max (Int.log 2 (num / den * 2 ^ e : ℚ) - 52) (-1074)
  rcases Nat.eq_zero_or_pos m with zero | pos
  · subst zero
    have low := fine.resolve_left (lt_irrefl 0)
    have log : Int.log 2 (num / den * 2 ^ e : ℚ) < e := by
      refine log_lt (mul_pos positive (two_zpow_pos e)) ?_
      rw [Nat.cast_zero, zero_add] at below
      exact mul_lt_of_lt_one_left (two_zpow_pos e) below
    have none : Nat.log2 0 = 0 := rfl
    rw [none]
    omega
  · rw [log_mul_zpow pos above below]
    omega

def settled (s : Sign) (m : ℕ) (e : ℤ) : UnpackedFloat :=
  let (em, e) := shiftToTargetExponent Format.binary64 m e .exact
  if h : em.mantissa = 0 then .zero s else .finite s em.mantissa e (Nat.pos_of_ne_zero h)

theorem describes_natural (m : ℕ) : Describes ⟨m, false, false⟩ m 1 := by
  have remainder : m % 1 = 0 := Nat.mod_one m
  refine ⟨(Nat.div_one m).symm, ?_, ?_⟩
  · rw [remainder]
    exact iff_of_false Bool.false_ne_true (by omega)
  · rw [remainder]
    exact iff_of_false Bool.false_ne_true (by omega)

theorem settled_of_pos (s : Sign) {m k : ℕ} {e f : ℤ} (pos : 0 < k)
    (target : Format.binary64.targetExponent (totalExponent m e) = f)
    (mantissa : (ExtendedMantissa.mk m false false >>> (f - e).toNat).mantissa = k) (up : e ≤ f) :
    settled s m e = .finite s k f pos := by
  have stops : e + ((f - e).toNat : ℤ) = f := by omega
  unfold settled shiftToTargetExponent shiftToExponent
  dsimp only
  rw [target, stops]
  subst mantissa
  exact dif_neg pos.ne'

theorem Fits.target {m : ℕ} {e : ℤ} (h : Fits m e) :
    Format.binary64.targetExponent (totalExponent m e) = e := by
  have target := target_eq_place (e := e) Nat.one_pos h.pos (Nat.div_one m).symm (Or.inl h.pos)
  rw [Nat.cast_one, div_one, h.place] at target
  exact target

theorem settled_of_fits (s : Sign) {m : ℕ} {e : ℤ} (h : Fits m e) : settled s m e = .finite s m e h.pos := by
  refine settled_of_pos s h.pos (Fits.target h) ?_ le_rfl
  rw [Int.sub_self]
  rfl

theorem settled_of_carry (s : Sign) {e : ℤ} (low : -1074 ≤ e) :
    settled s (2 ^ 53) e = .finite s (2 ^ 52) (e + 1) (by norm_num) := by
  have target : Format.binary64.targetExponent (totalExponent (2 ^ 53) e) = e + 1 := by
    change max (((2 ^ 53 : ℕ).log2 : ℤ) + 1 + e - 53) (-1074) = e + 1
    have log : (2 ^ 53 : ℕ).log2 = 53 := Nat.log2_two_pow
    rw [log]
    omega
  refine settled_of_pos s _ target ?_ (by omega)
  rw [add_sub_cancel_left]
  rfl

theorem pack_settled (s : Sign) {m : ℕ} {e : ℤ} (most : m ≤ 2 ^ 53) (low : -1074 ≤ e)
    (full : 2 ^ 52 ≤ m ∨ e = -1074) :
    (UnpackedFloat.pack Format.binary64 (settled s m e)).toNat = signBit s + min (word m e) (2047 * 2 ^ 52) := by
  rcases Nat.eq_zero_or_pos m with zero | pos
  · have lowest : e = -1074 := full.resolve_left (by omega)
    subst zero lowest
    cases s <;> rfl
  · rcases most.lt_or_eq with lt | eq
    · have fits : Fits m e := ⟨pos, lt, low, full⟩
      rw [settled_of_fits s fits, pack_finite s fits]
    · have fits : Fits (2 ^ 52) (e + 1) := ⟨by norm_num, by norm_num, by omega, Or.inl le_rfl⟩
      have carried : word (2 ^ 52) (e + 1) = word m e := by
        unfold word
        omega
      subst eq
      rw [settled_of_carry s low, pack_finite s fits, carried]

/-- Rounding gives the pattern of the exact result, given enough of its bits. -/
theorem pack_roundWithAccuracy (s : Sign) {m : ℕ} {e : ℤ} {accuracy : Accuracy} (hn : 0 < num) (hd : 0 < den)
    (describes : Describes (.ofMantissaAndAccuracy m accuracy) num den) (floor : m = num / den)
    (enough : 2 ^ 52 ≤ m ∨ e ≤ -1074) :
    (UnpackedFloat.pack Format.binary64 (roundWithAccuracy Format.binary64 s m e accuracy)).toNat =
      signBit s + min (pattern (num / den * 2 ^ e)) (2047 * 2 ^ 52) := by
  let x : ℚ := num / den * 2 ^ e
  have positive : 0 < x := by positivity
  have target : Format.binary64.targetExponent (totalExponent m e) = place x :=
    target_eq_place hd hn floor (enough.imp_left (lt_of_lt_of_le (by norm_num)))
  have up : e ≤ place x := by
    rw [← target]
    change e ≤ max ((m.log2 : ℤ) + 1 + e - 53) (-1074)
    rcases enough with most | low
    · have bits : 52 ≤ m.log2 := (Nat.le_log2 (by omega)).mpr most
      omega
    · omega
  -- the significand is cut where the last place is, and what is cut off decides the rounding
  let k := (place x - e).toNat
  have stops : e + (k : ℤ) = place x := by omega
  have shifted := describes.shiftRight hd k
  have scaled : (num / (den * 2 ^ k : ℕ) : ℚ) = x / 2 ^ place x := by
    rw [eq_div_iff (two_zpow_pos _).ne', ← stops, zpow_add₀ two_ne_zero, zpow_natCast]
    push_cast
    change _ = (num / den * 2 ^ e : ℚ)
    field_simp
  have rounded : (ExtendedMantissa.ofMantissaAndAccuracy m accuracy >>> k).roundedMantissa =
      nearest (x / 2 ^ place x) := by
    rw [shifted.rounded (by positivity), roundDiv_eq_nearest (by positivity), scaled]
  have ends : roundWithAccuracy Format.binary64 s m e accuracy =
      settled s (nearest (x / 2 ^ place x)) (place x) := by
    have opened : roundWithAccuracy Format.binary64 s m e accuracy =
        settled s (ExtendedMantissa.ofMantissaAndAccuracy m accuracy >>>
            (Format.binary64.targetExponent (totalExponent m e) - e).toNat).roundedMantissa
          (e + (Format.binary64.targetExponent (totalExponent m e) - e).toNat) := rfl
    rw [opened, target, rounded, stops]
  rw [ends, pack_settled s]
  · rfl
  · rw [← nearest_natCast (2 ^ 53)]
    exact nearest_le (div_place_pos positive _).le (div_place_le x)
  · exact low_le_place x
  · rcases (low_le_place x).lt_or_eq with lt | eq
    · left
      rw [← nearest_natCast (2 ^ 52)]
      exact nearest_le (Nat.cast_nonneg _) (le_div_place positive lt)
    · exact Or.inr eq.symm

theorem pack_round (s : Sign) {m : ℕ} {e : ℤ} (pos : 0 < m) :
    (UnpackedFloat.pack Format.binary64 (UnpackedFloat.round Format.binary64 s m e)).toNat =
      signBit s + min (pattern (m * 2 ^ e)) (2047 * 2 ^ 52) := by
  let k := (e - Format.binary64.targetExponent (totalExponent m e)).toNat
  have opened : UnpackedFloat.round Format.binary64 s m e =
      roundWithAccuracy Format.binary64 s (m * 2 ^ k) (e - k) .exact := by
    rw [← Nat.shiftLeft_eq]
    rfl
  have enough : 2 ^ 52 ≤ m * 2 ^ k ∨ e - k ≤ -1074 := by
    have target : Format.binary64.targetExponent (totalExponent m e) = max ((m.log2 : ℤ) + 1 + e - 53) (-1074) := rfl
    by_cases low : e - k ≤ -1074
    · exact Or.inr low
    · left
      have bits : 52 ≤ m.log2 + k := by omega
      calc 2 ^ 52 ≤ 2 ^ (m.log2 + k) := Nat.pow_le_pow_right two_pos bits
        _ = 2 ^ m.log2 * 2 ^ k := pow_add 2 _ _
        _ ≤ m * 2 ^ k := Nat.mul_le_mul_right _ (Nat.log2_self_le pos.ne')
  have value : ((m * 2 ^ k : ℕ) / (1 : ℕ) * 2 ^ (e - k) : ℚ) = m * 2 ^ e := by
    rw [zpow_sub₀ two_ne_zero, zpow_natCast]
    push_cast
    field_simp
  have exact : Describes (.ofMantissaAndAccuracy (m * 2 ^ k) .exact) (m * 2 ^ k) 1 := describes_natural _
  have rounded := pack_roundWithAccuracy s (Nat.mul_pos pos (Nat.two_pow_pos k)) Nat.one_pos exact
    (Nat.div_one _).symm enough
  rw [value] at rounded
  rw [opened]
  exact rounded

end Rounding

end FormulaSynth.Doubles
