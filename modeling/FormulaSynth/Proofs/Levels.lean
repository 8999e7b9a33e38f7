import FormulaSynth.Audio.Buffer
import FormulaSynth.Proofs.Patterns
import Mathlib

set_option autoImplicit false
namespace FormulaSynth.Audio
open Float.Model Float.Model.UnpackedFloat

def truncated (q : ℚ) : ℤ := if q < 0 then ⌈q⌉ else ⌊q⌋

def held (n : ℤ) : ℤ := max (-32768) (min 32767 n)

/-- The level of a number as it is read from its pattern. What is not a number has level zero. -/
def level : UnpackedFloat → ℤ
  | .notANumber => 0
  | .infinity .positive => 32767
  | .infinity .negative => -32768
  | .zero _ => 0
  | .finite sign significand exponent _ =>
    held (truncated (((sign.apply significand : ℤ) : ℚ) * 2 ^ exponent * 32768))

def Sample.level (s : Sample) : ℤ := Audio.level s.toModel.unpack

theorem truncated_neg (q : ℚ) : truncated (-q) = -truncated q := by
  rcases lt_trichotomy q 0 with neg | rfl | pos
  · rw [truncated, truncated, if_pos neg, if_neg (by linarith), Int.floor_neg]
  · rfl
  · rw [truncated, truncated, if_pos (by linarith), if_neg (by linarith), Int.ceil_neg]

theorem truncated_natCast_div (n d : ℕ) : truncated ((n : ℚ) / d) = (n / d : ℕ) := by
  have nonneg : (0 : ℚ) ≤ n / d := by positivity
  have floor := Rat.floor_intCast_div_natCast n d
  rw [Int.cast_natCast] at floor
  rw [truncated, if_neg (not_lt.mpr nonneg), floor, Int.natCast_div]

def shifted (significand place : ℕ) : ℕ :=
  if 135 ≤ place then significand * 2 ^ (place - 135) else significand / 2 ^ (135 - place)

theorem truncated_scaled (significand place : ℕ) :
    truncated ((significand : ℚ) * 2 ^ ((place : ℤ) - 150) * 32768) = shifted significand place := by
  have scale : (2 : ℚ) ^ ((place : ℤ) - 150) * 32768 = 2 ^ ((place : ℤ) - 135) := by
    have unit : (32768 : ℚ) = 2 ^ (15 : ℤ) := by norm_num
    rw [unit, ← zpow_add₀ two_ne_zero]
    congr 1
    ring
  rw [mul_assoc, scale, shifted]
  split
  · rename_i high
    have exponent : (place : ℤ) - 135 = ((place - 135 : ℕ) : ℤ) := by omega
    have whole := truncated_natCast_div (significand * 2 ^ (place - 135)) 1
    rw [Nat.cast_one, div_one, Nat.div_one, Nat.cast_mul, Nat.cast_pow] at whole
    rw [exponent, zpow_natCast]
    exact whole
  · rename_i low
    have exponent : (place : ℤ) - 135 = -((135 - place : ℕ) : ℤ) := by omega
    have part := truncated_natCast_div significand (2 ^ (135 - place))
    rw [Nat.cast_pow] at part
    rw [exponent, zpow_neg, zpow_natCast, ← div_eq_mul_inv]
    exact part

theorem shifted_zero (place : ℕ) : shifted 0 place = 0 := by
  unfold shifted
  split
  · exact Nat.zero_mul _
  · exact Nat.zero_div _

theorem level_zero (sign : Sign) : level (.zero sign) = 0 := by
  cases sign <;> rfl

def signed (negative : Bool) (magnitude : ℕ) : ℤ :=
  if negative then -(min 32768 magnitude : ℕ) else (min 32767 magnitude : ℕ)

theorem level_finite (negative : Bool) (significand place : ℕ) {m : ℕ} {e : ℤ} (pos : 0 < m) (m_eq : m = significand)
    (e_eq : e = place - 150) :
    level (.finite (if negative then .negative else .positive) m e pos) =
      signed negative (shifted significand place) := by
  subst m_eq e_eq
  have cut := truncated_scaled m place
  cases negative with
  | true =>
    change held (truncated (((-(m : ℤ) : ℤ) : ℚ) * _ * _)) = -(min 32768 (shifted m place) : ℕ)
    rw [Int.cast_neg, Int.cast_natCast, neg_mul, neg_mul, truncated_neg, cut, held]
    omega
  | false =>
    change held (truncated (((m : ℤ) : ℚ) * _ * _)) = (min 32767 (shifted m place) : ℕ)
    rw [Int.cast_natCast, cut, held]
    omega

section Patterns
variable (w : UInt32)

theorem field_toNat : ((w >>> 23) &&& 0xff).toNat = w.toNat / 2 ^ 23 % 256 := by
  rw [UInt32.toNat_and, UInt32.toNat_shiftRight]
  change w.toNat >>> 23 &&& 2 ^ 8 - 1 = _
  rw [Nat.and_two_pow_sub_one_eq_mod, Nat.shiftRight_eq_div_pow]

theorem fraction_toNat : (w &&& 0x7fffff).toNat = w.toNat % 2 ^ 23 := by
  rw [UInt32.toNat_and]
  change w.toNat &&& 2 ^ 23 - 1 = _
  rw [Nat.and_two_pow_sub_one_eq_mod]

theorem sign_eq : Sign.ofBitVec (@unpackSign Format.binary32 w.toBitVec) =
    if w >>> 31 == 1 then .negative else .positive := by
  have bit : _ = w.toNat / 2 ^ 31 % 2 := Fields.sign_toNat (f := Format.binary32) w.toBitVec
  have size := w.toNat_lt
  have top : (w >>> 31 == 1) = true ↔ 2 ^ 31 ≤ w.toNat := by
    rw [beq_iff_eq, ← UInt32.toNat_inj, UInt32.toNat_shiftRight]
    change w.toNat >>> 31 = 1 ↔ _
    rw [Nat.shiftRight_eq_div_pow]
    omega
  by_cases negative : 2 ^ 31 ≤ w.toNat
  · have one : @unpackSign Format.binary32 w.toBitVec = 1#1 := by
      rw [← BitVec.toNat_inj, bit]
      change _ = 1
      omega
    rw [if_pos (top.mpr negative), one]
    rfl
  · have zero : @unpackSign Format.binary32 w.toBitVec = 0#1 := by
      rw [← BitVec.toNat_inj, bit]
      change _ = 0
      omega
    rw [if_neg fun h => negative (top.mp h), zero]
    rfl

end Patterns

def measured (negative : Bool) (field fraction : ℕ) : ℤ :=
  if field = 255 then (if fraction = 0 then (if negative then -32768 else 32767) else 0)
  else if field = 0 then signed negative (shifted fraction 1)
  else signed negative (shifted (fraction + 2 ^ 23) field)

theorem quantize_eq_measured (s : Sample) :
    quantize s = measured (s.toBits >>> 31 == 1) (s.toBits.toNat / 2 ^ 23 % 256) (s.toBits.toNat % 2 ^ 23) := by
  unfold quantize
  dsimp only
  rw [field_toNat, fraction_toNat]
  generalize (s.toBits >>> 31 == 1) = negative
  generalize s.toBits.toNat / 2 ^ 23 % 256 = field
  generalize s.toBits.toNat % 2 ^ 23 = fraction
  unfold measured
  by_cases full : field = 255
  · rw [if_pos full, if_pos full]
    by_cases whole : fraction = 0
    · rw [if_pos whole, if_pos whole]
      cases negative <;> rfl
    · rw [if_neg whole, if_neg whole]
      cases negative <;> rfl
  · rw [if_neg full, if_neg full]
    by_cases lowest : field = 0
    · rw [if_pos lowest, if_pos lowest, lowest]
      cases negative <;> rfl
    · have place : max field 1 = field := by omega
      rw [if_neg lowest, if_neg lowest, place]
      cases negative <;> rfl

theorem level_unpack (w : UInt32) :
    level (UnpackedFloat.unpack Format.binary32 w.toBitVec) =
      measured (w >>> 31 == 1) (w.toNat / 2 ^ 23 % 256) (w.toNat % 2 ^ 23) := by
  have bias : ((Format.binary32.exponentBias : ℕ) : ℤ) + Format.binary32.mantissaBitsWithoutImplicit = 150 := rfl
  have stored : _ = w.toNat % 2 ^ 23 := Fields.mantissa_toNat (f := Format.binary32) w.toBitVec
  have carried : _ = 2 ^ 23 + w.toNat % 2 ^ 23 := Fields.implicit_toNat (f := Format.binary32) w.toBitVec
  have places : _ = w.toNat / 2 ^ 23 % 256 := Fields.exponent_toNat (f := Format.binary32) w.toBitVec
  have full : _ ↔ w.toNat / 2 ^ 23 % 256 = 255 := Fields.exponent_full (f := Format.binary32) w.toBitVec
  have lowest : _ ↔ w.toNat / 2 ^ 23 % 256 = 0 := Fields.exponent_zero (f := Format.binary32) w.toBitVec
  have whole : _ ↔ w.toNat % 2 ^ 23 = 0 := Fields.mantissa_zero (f := Format.binary32) w.toBitVec
  unfold UnpackedFloat.unpack measured
  dsimp only
  rw [sign_eq, bias]
  generalize (w >>> 31 == 1) = negative
  by_cases ones : w.toNat / 2 ^ 23 % 256 = 255
  · rw [if_pos (full.mpr ones), if_pos ones]
    by_cases clear : w.toNat % 2 ^ 23 = 0
    · rw [if_pos (whole.mpr clear), if_pos clear]
      cases negative <;> rfl
    · rw [if_neg (whole.not.mpr clear), if_neg clear]
      rfl
  · rw [if_neg (full.not.mpr ones), if_neg ones]
    by_cases zeros : w.toNat / 2 ^ 23 % 256 = 0
    · rw [if_pos (lowest.mpr zeros), if_pos zeros]
      by_cases clear : w.toNat % 2 ^ 23 = 0
      · rw [dif_pos (whole.mpr clear), level_zero, clear, shifted_zero]
        cases negative <;> rfl
      · rw [dif_neg (whole.not.mpr clear)]
        exact level_finite negative _ 1 _ stored (by rw [places, zeros]; rfl)
    · rw [if_neg (lowest.not.mpr zeros), if_neg zeros]
      exact level_finite negative _ _ _ (carried.trans (Nat.add_comm _ _)) (by rw [places])

theorem quantize_eq_level (s : Sample) : quantize s = Sample.level s := by
  rw [quantize_eq_measured, Sample.level, ← level_unpack]
  rfl

end FormulaSynth.Audio
