import FormulaSynth.Proofs.Doubles

set_option autoImplicit false
namespace FormulaSynth

section Integers

theorem roundDiv_close {m d : ℕ} (hd : 0 < d) :
    2 * m ≤ 2 * (d * roundDiv m d) + d ∧ 2 * (d * roundDiv m d) ≤ 2 * m + d ∧
      (2 * m = 2 * (d * roundDiv m d) + d ∨ 2 * (d * roundDiv m d) = 2 * m + d → roundDiv m d % 2 = 0) := by
  have split := Nat.div_add_mod m d
  have below := Nat.mod_lt m hd
  have up : d * (m / d + 1) = d * (m / d) + d := Nat.mul_succ _ _
  unfold roundDiv
  dsimp only
  split_ifs with low high
  · omega
  · rw [up]
    omega
  · rcases Nat.mod_two_eq_zero_or_one (m / d) with even | odd
    · rw [even, Nat.add_zero]
      omega
    · rw [odd, up]
      omega

variable {x : ℚ}

theorem nearest_close (nonneg : 0 ≤ x) :
    |x - nearest x| ≤ 1 / 2 ∧ (|x - nearest x| = 1 / 2 → nearest x % 2 = 0) := by
  obtain ⟨most, least, tie⟩ := roundDiv_close (m := x.num.toNat) (Rat.den_pos x)
  change 2 * _ ≤ 2 * (_ * nearest x) + _ at most
  change 2 * (_ * nearest x) ≤ _ at least
  change _ = 2 * (_ * nearest x) + _ ∨ 2 * (_ * nearest x) = _ → nearest x % 2 = 0 at tie
  have den : (0 : ℚ) < x.den := Nat.cast_pos.mpr (Rat.den_pos x)
  have num : (x.num.toNat : ℚ) = x * x.den := (div_eq_iff den.ne').mp (num_div_den nonneg)
  have above : 2 * (x * x.den) ≤ 2 * (x.den * nearest x) + x.den := by
    rw [← num]
    exact_mod_cast most
  have below : 2 * (x.den * nearest x) ≤ 2 * (x * x.den) + x.den := by
    rw [← num]
    exact_mod_cast least
  constructor
  · rw [abs_le]
    constructor <;> nlinarith
  · intro half
    refine tie ?_
    rcases eq_or_eq_neg_of_abs_eq half with up | down
    · left
      have eq : 2 * (x.num.toNat : ℚ) = 2 * (x.den * nearest x) + x.den := by
        rw [num]
        linear_combination 2 * x.den * up
      exact_mod_cast eq
    · right
      have eq : 2 * (x.den * nearest x : ℚ) = 2 * x.num.toNat + x.den := by
        rw [num]
        linear_combination -(2 * x.den * down)
      exact_mod_cast eq

theorem nearest_least (nonneg : 0 ≤ x) (k : ℤ) :
    |x - nearest x| ≤ |x - k| ∧ (|x - k| = |x - nearest x| → (k : ℚ) ≠ nearest x → nearest x % 2 = 0) := by
  obtain ⟨close, even⟩ := nearest_close nonneg
  by_cases same : (k : ℚ) = nearest x
  · rw [same]
    exact ⟨le_rfl, fun _ other => absurd rfl other⟩
  · have apart : (1 : ℚ) ≤ |(k : ℚ) - nearest x| := by
      have integers : k - (nearest x : ℤ) ≠ 0 := fun eq => same (by exact_mod_cast sub_eq_zero.mp eq)
      exact_mod_cast Int.one_le_abs integers
    have triangle : |(k : ℚ) - nearest x| ≤ |x - k| + |x - nearest x| := by
      rw [abs_sub_comm x k]
      exact abs_sub_le _ _ _
    exact ⟨by linarith, fun tie _ => even (by linarith)⟩

end Integers

namespace Binary64

/-- What a finite pattern stands for. -/
def toRat (b : Binary64) : ℚ := (if b.isNegative then -1 else 1) * b.significand * 2 ^ b.exponent

/-- The finite double nearest to a value that is not negative, of two the one with the even significand. -/
structure IsNearest (b : Binary64) (q : ℚ) : Prop where
  finite : b.isFinite = true
  nonneg : b.isNegative = false
  least : ∀ c : Binary64, c.isFinite = true → |q - b.toRat| ≤ |q - c.toRat|
  even : ∀ c : Binary64, c.isFinite = true → |q - c.toRat| = |q - b.toRat| → c.toRat ≠ b.toRat → b.significand % 2 = 0

/-- Half a unit past the largest double. -/
def finiteLimit : ℚ := (2 ^ 53 - 1 / 2) * 2 ^ (971 : ℤ)

section Patterns
variable {b c : Binary64} {m : ℕ} {e : ℤ}

theorem isFinite_iff (b : Binary64) : b.isFinite = true ↔ b.exponentField ≠ 2047 := by
  simp [isFinite]

theorem exponentField_lt (b : Binary64) : b.exponentField < 2048 := by
  rw [b.exponentField_eq]
  omega

theorem fractionField_lt (b : Binary64) : b.fractionField < 2 ^ 52 := by
  rw [b.fractionField_eq]
  exact Nat.mod_lt _ (Nat.two_pow_pos 52)

theorem significand_lt (b : Binary64) : b.significand < 2 ^ 53 := by
  have fraction := b.fractionField_lt
  have lead : Nat.pow 2 52 = 2 ^ 52 := rfl
  unfold significand
  split_ifs <;> omega

theorem low_le_exponent (b : Binary64) : -1074 ≤ b.exponent := by
  unfold exponent
  omega

theorem bits_eq (finite : b.isFinite = true) (nonneg : b.isNegative = false) :
    b.bits.toNat = 0 ∧ b.significand = 0 ∨
      Fits b.significand b.exponent ∧ b.exponent ≤ 971 ∧ b.bits.toNat = Doubles.word b.significand b.exponent := by
  have field := (b.isFinite_iff).mp finite
  have most := b.exponentField_lt
  have fraction := b.fractionField_lt
  have sign := mt (b.isNegative_iff).mpr (Bool.eq_false_iff.mp nonneg)
  have lead : Nat.pow 2 52 = 2 ^ 52 := rfl
  have whole : b.bits.toNat = b.exponentField * 2 ^ 52 + b.fractionField := by
    rw [b.exponentField_eq, b.fractionField_eq]
    omega
  by_cases zero : b.bits.toNat = 0
  · left
    refine ⟨zero, ?_⟩
    rw [significand, if_pos (by omega)]
    omega
  · right
    have place : b.exponent = max (b.exponentField : ℤ) 1 - 1075 := by
      unfold exponent
      push_cast
      rfl
    have steps : (b.exponent + 1074).toNat = b.exponentField - 1 := by omega
    unfold Doubles.word significand
    rw [steps, lead]
    split_ifs with low
    · rw [low, Nat.zero_mul, Nat.zero_add] at whole
      rw [low, Nat.zero_sub, Nat.zero_mul, Nat.zero_add]
      exact ⟨⟨by omega, by omega, by omega, by omega⟩, by omega, whole⟩
    · obtain ⟨k, next⟩ := Nat.exists_eq_succ_of_ne_zero low
      refine ⟨⟨by omega, by omega, by omega, by omega⟩, by omega, ?_⟩
      rw [whole, next, Nat.succ_sub_one, Nat.succ_mul, Nat.add_assoc, Nat.add_comm (2 ^ 52)]

theorem toRat_of_nonneg (nonneg : b.isNegative = false) : b.toRat = b.significand * 2 ^ b.exponent := by
  rw [toRat, nonneg]
  simp

theorem zero_le_toRat (nonneg : b.isNegative = false) : 0 ≤ b.toRat := by
  rw [toRat_of_nonneg nonneg]
  exact mul_nonneg (Nat.cast_nonneg _) (two_zpow_pos _).le

theorem code_toRat (finite : b.isFinite = true) (nonneg : b.isNegative = false) :
    Doubles.code b.toRat = b.bits.toNat := by
  rw [toRat_of_nonneg nonneg]
  rcases bits_eq finite nonneg with ⟨zero, significand⟩ | ⟨fits, high, word⟩
  · rw [zero, significand, Nat.cast_zero, zero_mul]
    exact if_pos rfl
  · rw [Doubles.code_of_fits fits high, word]

theorem bits_lt_of_toRat_lt (hb : b.isFinite = true) (nb : b.isNegative = false) (hc : c.isFinite = true)
    (nc : c.isNegative = false) (h : b.toRat < c.toRat) : b.bits.toNat < c.bits.toNat := by
  have le := Doubles.code_le (zero_le_toRat nb) h.le
  rw [code_toRat hb nb, code_toRat hc nc] at le
  refine lt_of_le_of_ne le fun same => ?_
  have eq : b = c := congrArg Binary64.mk (UInt64.toNat_inj.mp same)
  rw [eq] at h
  exact absurd h (lt_irrefl _)

theorem toRat_lt_of_bits_lt (hb : b.isFinite = true) (nb : b.isNegative = false) (hc : c.isFinite = true)
    (nc : c.isNegative = false) (h : b.bits.toNat < c.bits.toNat) : b.toRat < c.toRat := by
  by_contra above
  have le := Doubles.code_le (zero_le_toRat nc) (not_lt.mp above)
  rw [code_toRat hb nb, code_toRat hc nc] at le
  omega

theorem of_word (most : m ≤ 2 ^ 53) (low : -1074 ≤ e) (full : 2 ^ 52 ≤ m ∨ e = -1074)
    (bits : b.bits.toNat = Doubles.word m e) (inside : Doubles.word m e < 2047 * 2 ^ 52) :
    b.isFinite = true ∧ b.isNegative = false ∧ b.toRat = m * 2 ^ e ∧ b.significand % 2 = m % 2 := by
  have main : ∀ {k : ℕ} {f : ℤ}, Fits k f → f ≤ 971 → b.bits.toNat = Doubles.word k f →
      (k * 2 ^ f : ℚ) = m * 2 ^ e → k % 2 = m % 2 →
      b.isFinite = true ∧ b.isNegative = false ∧ b.toRat = m * 2 ^ e ∧ b.significand % 2 = m % 2 := by
    intro k f fits high word value parity
    obtain ⟨field, sign, significand, exponent⟩ := Doubles.fields_of_word fits high word
    refine ⟨(b.isFinite_iff).mpr field.ne, sign, ?_, by rw [significand, parity]⟩
    rw [toRat_of_nonneg sign, significand, exponent, value]
  unfold Doubles.word at bits inside
  rcases Nat.eq_zero_or_pos m with rfl | pos
  · have lowest : e = -1074 := full.resolve_left (by norm_num)
    have zero : b = Binary64.zero := by
      refine congrArg Binary64.mk (UInt64.toNat_inj.mp ?_)
      rw [bits, lowest]
      rfl
    rw [zero, Nat.cast_zero, zero_mul]
    refine ⟨rfl, rfl, ?_, rfl⟩
    rw [toRat_of_nonneg rfl]
    exact zero_mul _
  · rcases most.lt_or_eq with lt | rfl
    · exact main ⟨pos, lt, low, full⟩ (by omega) bits rfl rfl
    · refine main (k := 2 ^ 52) (f := e + 1) ⟨by norm_num, by norm_num, by omega, Or.inl le_rfl⟩ (by omega) ?_ ?_
        (by norm_num)
      · have steps : (e + 1 + 1074).toNat = (e + 1074).toNat + 1 := by omega
        rw [Doubles.word, steps, bits]
        ring
      · rw [zpow_add_one₀ two_ne_zero]
        push_cast
        ring

end Patterns

section Rounding
variable {q : ℚ}

theorem grid_least (nonneg : 0 ≤ q) (e k : ℤ) :
    |q - nearest (q / 2 ^ e) * 2 ^ e| ≤ |q - k * 2 ^ e| ∧
      (|q - k * 2 ^ e| = |q - nearest (q / 2 ^ e) * 2 ^ e| → (k : ℚ) ≠ nearest (q / 2 ^ e) →
        nearest (q / 2 ^ e) % 2 = 0) := by
  have unit := two_zpow_pos e
  have scaled (x : ℚ) : |q - x * 2 ^ e| = |q / 2 ^ e - x| * 2 ^ e := by
    rw [← abs_of_pos unit, ← abs_mul, abs_of_pos unit, sub_mul, div_mul_cancel₀ _ unit.ne']
  obtain ⟨least, even⟩ := nearest_least (div_nonneg nonneg unit.le) k
  rw [scaled, scaled]
  exact ⟨mul_le_mul_of_nonneg_right least unit.le, fun tie => even (mul_right_cancel₀ unit.ne' tie)⟩

theorem place_least (pos : 0 < q) {k f : ℤ} (small : |k| < 2 ^ 53) (low : -1074 ≤ f) :
    |q - nearest (q / 2 ^ place q) * 2 ^ place q| ≤ |q - k * 2 ^ f| ∧
      (|q - k * 2 ^ f| = |q - nearest (q / 2 ^ place q) * 2 ^ place q| →
        (k * 2 ^ f : ℚ) ≠ nearest (q / 2 ^ place q) * 2 ^ place q → nearest (q / 2 ^ place q) % 2 = 0) := by
  -- a double of a coarser place is on the grid, and one of a finer place lies below the first full significand
  rcases le_or_gt (place q) f with coarse | fine
  · have eq : (k * 2 ^ f : ℚ) = (k * 2 ^ (f - place q).toNat : ℤ) * 2 ^ place q := by
      have steps : f = (f - place q).toNat + place q := by omega
      conv_lhs => rw [steps, zpow_add₀ two_ne_zero, zpow_natCast]
      push_cast
      ring
    rw [eq]
    obtain ⟨least, even⟩ := grid_least pos.le (place q) (k * 2 ^ (f - place q).toNat)
    exact ⟨least, fun tie other => even tie fun same => other (by rw [same])⟩
  · have unit := two_zpow_pos (place q)
    have full : (2 : ℚ) ^ 52 * 2 ^ place q ≤ q := by
      have h := (le_div_iff₀ unit).mp (le_div_place pos (low.trans_lt fine))
      exact_mod_cast h
    have below : (k * 2 ^ f : ℚ) < 2 ^ 52 * 2 ^ place q := by
      have most : (k : ℚ) < 2 ^ 53 := by exact_mod_cast (le_abs_self k).trans_lt small
      calc (k * 2 ^ f : ℚ) < 2 ^ 53 * 2 ^ f := mul_lt_mul_of_pos_right most (two_zpow_pos f)
        _ ≤ 2 ^ 53 * 2 ^ (place q - 1) := mul_le_mul_of_nonneg_left (two_zpow_le (by omega)) (by norm_num)
        _ = 2 ^ 52 * 2 ^ place q := by
          rw [zpow_sub_one₀ two_ne_zero]
          ring
    have further : |q - nearest (q / 2 ^ place q) * 2 ^ place q| < |q - k * 2 ^ f| := by
      have near := (grid_least pos.le (place q) (2 ^ 52)).1
      have cast : ((2 ^ 52 : ℤ) : ℚ) = 2 ^ 52 := by norm_num
      rw [cast] at near
      rw [abs_of_nonneg (sub_nonneg.mpr full)] at near
      rw [abs_of_pos (sub_pos.mpr (below.trans_le full))]
      linarith
    exact ⟨further.le, fun tie => absurd tie further.ne'⟩

theorem exists_grid (c : Binary64) : ∃ k f : ℤ, c.toRat = k * 2 ^ f ∧ |k| < 2 ^ 53 ∧ -1074 ≤ f := by
  have most := c.significand_lt
  refine ⟨(if c.isNegative then -1 else 1) * c.significand, c.exponent, ?_, ?_, c.low_le_exponent⟩
  · rw [toRat]
    push_cast
    rfl
  · split_ifs <;> simp <;> exact_mod_cast most

theorem nearest_place_le (pos : 0 < q) : nearest (q / 2 ^ place q) ≤ 2 ^ 53 := by
  rw [← nearest_natCast (2 ^ 53)]
  exact nearest_le (div_place_pos pos _).le (div_place_le q)

theorem finiteLimit_pos : 0 < finiteLimit :=
  mul_pos (by norm_num) (two_zpow_pos _)

theorem place_finiteLimit : place finiteLimit = 971 := by
  have least : ((2 ^ 53 - 1 : ℕ) : ℚ) ≤ 2 ^ 53 - 1 / 2 := by norm_num
  have most : (2 ^ 53 - 1 / 2 : ℚ) < (2 ^ 53 - 1 : ℕ) + 1 := by norm_num
  have log := log_mul_zpow (by norm_num) least most 971
  have bits : Nat.log2 (2 ^ 53 - 1) = 52 := (Nat.log2_eq_iff (by norm_num)).mpr (by norm_num)
  rw [place, finiteLimit, log, bits]
  rfl

theorem pattern_finiteLimit : pattern finiteLimit = 2047 * 2 ^ 52 := by
  have half : finiteLimit / 2 ^ (971 : ℤ) = ((2 ^ 54 - 1 : ℕ) / (2 : ℕ) : ℚ) := by
    rw [finiteLimit, mul_div_cancel_right₀ _ (two_zpow_pos _).ne']
    norm_num
  have rounded : roundDiv (2 ^ 54 - 1) 2 = 2 ^ 53 := by rfl
  rw [pattern, place_finiteLimit, half, ← roundDiv_eq_nearest two_pos, rounded]
  rfl

theorem pattern_finite_iff (pos : 0 < q) : pattern q < 2047 * 2 ^ 52 ↔ q < finiteLimit := by
  constructor
  · intro inside
    by_contra large
    have up := pattern_le finiteLimit_pos (not_lt.mp large)
    rw [pattern_finiteLimit] at up
    omega
  · intro small
    have places := place_le_place pos small.le
    have low := low_le_place q
    have most := nearest_place_le pos
    rw [place_finiteLimit] at places
    rcases places.lt_or_eq with lt | eq
    · unfold pattern
      omega
    · have close := abs_le.mp (nearest_close (div_place_pos pos (place q)).le).1
      have below : q / 2 ^ place q < 2 ^ 53 - 1 / 2 := by
        rw [eq, div_lt_iff₀ (two_zpow_pos _)]
        exact small
      have less : (nearest (q / 2 ^ place q) : ℚ) < (2 ^ 53 : ℕ) := by
        push_cast
        linarith [close.1]
      have fewer : nearest (q / 2 ^ place q) < 2 ^ 53 := Nat.cast_lt.mp less
      unfold pattern
      omega

end Rounding

def ofRational (q : ℚ) : Binary64 := ⟨(Doubles.code q).toUInt64⟩

theorem bits_ofRational (q : ℚ) : (ofRational q).bits.toNat = Doubles.code q := by
  have small := Doubles.code_le_infinity q
  have size : UInt64.size = 2 ^ 64 := rfl
  exact UInt64.toNat_ofNat_of_lt' (by omega)

theorem ofRational_zero : ofRational 0 = zero := by
  refine congrArg Binary64.mk (UInt64.toNat_inj.mp ((bits_ofRational 0).trans ?_))
  exact if_pos rfl

theorem isNearest_zero : zero.IsNearest 0 where
  finite := rfl
  nonneg := rfl
  least c _ := by
    rw [toRat_of_nonneg rfl]
    change |0 - ((0 : ℕ) : ℚ) * _| ≤ _
    rw [Nat.cast_zero, zero_mul, sub_zero, abs_zero]
    exact abs_nonneg _
  even _ _ _ _ := rfl

theorem ofRational_rounded {q : ℚ} (pos : 0 < q) (small : q < finiteLimit) :
    (ofRational q).isFinite = true ∧ (ofRational q).isNegative = false ∧
      (ofRational q).toRat = nearest (q / 2 ^ place q) * 2 ^ place q ∧
      (ofRational q).significand % 2 = nearest (q / 2 ^ place q) % 2 := by
  have inside := (pattern_finite_iff pos).mpr small
  have bits : (ofRational q).bits.toNat = Doubles.word (nearest (q / 2 ^ place q)) (place q) := by
    rw [bits_ofRational, Doubles.code_of_pos pos, min_eq_left inside.le]
    rfl
  have full : 2 ^ 52 ≤ nearest (q / 2 ^ place q) ∨ place q = -1074 := by
    rcases (low_le_place q).lt_or_eq with high | low
    · left
      rw [← nearest_natCast (2 ^ 52)]
      exact nearest_le (Nat.cast_nonneg _) (le_div_place pos high)
    · exact Or.inr low.symm
  exact of_word (nearest_place_le pos) (low_le_place q) full bits inside

theorem isNearest_ofRational {q : ℚ} (nonneg : 0 ≤ q) (small : q < finiteLimit) : (ofRational q).IsNearest q := by
  rcases nonneg.lt_or_eq with pos | rfl
  · obtain ⟨finite, sign, value, parity⟩ := ofRational_rounded pos small
    refine ⟨finite, sign, fun c _ => ?_, fun c _ => ?_⟩
    · obtain ⟨k, f, eq, significand, low⟩ := c.exists_grid
      rw [eq, value]
      exact (place_least pos significand low).1
    · obtain ⟨k, f, eq, significand, low⟩ := c.exists_grid
      rw [eq, value, parity]
      exact (place_least pos significand low).2
  · rw [ofRational_zero]
    exact isNearest_zero

theorem ofRational_of_large {q : ℚ} (large : finiteLimit ≤ q) : ofRational q = infinity := by
  have pos : 0 < q := finiteLimit_pos.trans_le large
  have outside := not_lt.mp (mt (pattern_finite_iff pos).mp (not_lt.mpr large))
  refine congrArg Binary64.mk (UInt64.toNat_inj.mp ((bits_ofRational q).trans ?_))
  rw [Doubles.code_of_pos pos, min_eq_right outside]
  rfl

theorem finite_iff_bits (b : Binary64) : b.isFinite = true ∧ b.isNegative = false ↔ b.bits.toNat < 2047 * 2 ^ 52 := by
  have size := b.bits.toNat_lt
  rw [b.isFinite_iff, Bool.eq_false_iff, Ne, Ne, b.isNegative_iff, b.exponentField_eq]
  omega

theorem parity_of_bits (b : Binary64) : b.significand % 2 = b.bits.toNat % 2 := by
  have lead : Nat.pow 2 52 = 2 ^ 52 := rfl
  rw [significand, b.fractionField_eq, lead]
  split_ifs <;> omega

theorem IsNearest.not_below {b c : Binary64} {q : ℚ} (hb : b.IsNearest q) (hc : c.IsNearest q) : ¬b.toRat < c.toRat := by
  intro less
  have tie : |q - c.toRat| = |q - b.toRat| :=
    (hc.least b hb.finite).antisymm (hb.least c hc.finite)
  have between : q = (b.toRat + c.toRat) / 2 := by
    rcases abs_eq_abs.mp tie with same | opposite <;> linarith
  have evens : b.bits.toNat % 2 = 0 ∧ c.bits.toNat % 2 = 0 := by
    rw [← b.parity_of_bits, ← c.parity_of_bits]
    exact ⟨hb.even c hc.finite tie less.ne', hc.even b hb.finite tie.symm less.ne⟩
  have below := bits_lt_of_toRat_lt hb.finite hb.nonneg hc.finite hc.nonneg less
  have small := (c.finite_iff_bits).mp ⟨hc.finite, hc.nonneg⟩
  -- the pattern after the lower one is odd, so it lies between the two and is nearer than either
  let s : Binary64 := ⟨(b.bits.toNat + 1).toUInt64⟩
  have bits : s.bits.toNat = b.bits.toNat + 1 := by
    have size : UInt64.size = 2 ^ 64 := rfl
    exact UInt64.toNat_ofNat_of_lt' (by omega)
  obtain ⟨finite, sign⟩ := (s.finite_iff_bits).mpr (by omega)
  have after := toRat_lt_of_bits_lt hb.finite hb.nonneg finite sign (by omega)
  have before := toRat_lt_of_bits_lt finite sign hc.finite hc.nonneg (by omega)
  have least := hb.least s finite
  rw [abs_of_pos (by linarith : 0 < q - b.toRat), le_abs] at least
  rcases least with low | high <;> linarith

theorem IsNearest.unique {b c : Binary64} {q : ℚ} (hb : b.IsNearest q) (hc : c.IsNearest q) : b = c := by
  have same : b.toRat = c.toRat := le_antisymm (not_lt.mp (hc.not_below hb)) (not_lt.mp (hb.not_below hc))
  have bits := congrArg Doubles.code same
  rw [code_toRat hb.finite hb.nonneg, code_toRat hc.finite hc.nonneg] at bits
  exact congrArg Binary64.mk (UInt64.toNat_inj.mp bits)

section Ratios
variable {num den : ℕ}

theorem log2_bounds {n : ℕ} (pos : 0 < n) : (2 : ℚ) ^ (Nat.log2 n : ℤ) ≤ n ∧ (n : ℚ) < 2 ^ ((Nat.log2 n : ℤ) + 1) := by
  constructor
  · rw [zpow_natCast]
    exact_mod_cast Nat.log2_self_le pos.ne'
  · have h : n < 2 ^ (Nat.log2 n + 1) := Nat.lt_log2_self
    exact_mod_cast h

theorem floorLog_eq (hn : 0 < num) (hd : 0 < den) : floorLog num den = Int.log 2 (num / den : ℚ) := by
  have hn' : (0 : ℚ) < num := Nat.cast_pos.mpr hn
  have hd' : (0 : ℚ) < den := Nat.cast_pos.mpr hd
  have pos : (0 : ℚ) < num / den := div_pos hn' hd'
  obtain ⟨num_low, num_high⟩ := log2_bounds hn
  obtain ⟨den_low, den_high⟩ := log2_bounds hd
  let d : ℤ := (Nat.log2 num : ℤ) - Nat.log2 den
  have high : (num / den : ℚ) < 2 ^ (d + 1) := by
    rw [div_lt_iff₀ hd']
    refine num_high.trans_le ?_
    have steps : (Nat.log2 num : ℤ) + 1 = d + 1 + Nat.log2 den := by omega
    rw [steps, zpow_add₀ two_ne_zero]
    exact mul_le_mul_of_nonneg_left den_low (two_zpow_pos _).le
  have low : (2 : ℚ) ^ (d - 1) ≤ num / den := by
    rw [le_div_iff₀ hd']
    refine le_trans ?_ num_low
    have steps : (Nat.log2 num : ℤ) = d - 1 + (Nat.log2 den + 1) := by omega
    rw [steps, zpow_add₀ two_ne_zero]
    exact mul_le_mul_of_nonneg_left den_high.le (two_zpow_pos _).le
  have test : num * Nat.pow 2 (-d).toNat < den * Nat.pow 2 d.toNat ↔ (num / den : ℚ) < 2 ^ d := by
    have below : (0 : ℚ) < (2 ^ (-d).toNat : ℕ) := by positivity
    rw [zpow_eq_div, div_lt_div_iff₀ hd' below, mul_comm ((2 ^ d.toNat : ℕ) : ℚ)]
    exact_mod_cast Iff.rfl
  have up := log_lt pos high
  have down := le_log pos low
  unfold floorLog
  change (if _ < _ then d - 1 else d) = _
  split_ifs with less
  · have under := log_lt pos (test.mp less)
    omega
  · have least := le_log pos (not_lt.mp (mt test.mpr less))
    omega

theorem ofRatio_eq (hd : 0 < den) : ofRatio num den = ofRational (num / den) := by
  rcases Nat.eq_zero_or_pos num with rfl | hn
  · rw [Nat.cast_zero, zero_div, ofRational_zero]
    rfl
  · have pos : (0 : ℚ) < num / den := div_pos (Nat.cast_pos.mpr hn) (Nat.cast_pos.mpr hd)
    let e := place (num / den : ℚ)
    have rounded : roundDiv (num * 2 ^ (-e).toNat) (den * 2 ^ e.toNat) = nearest (num / den / 2 ^ e) := by
      have scaled : 0 < den * 2 ^ e.toNat := by positivity
      refine (roundDiv_eq_nearest scaled).trans (congrArg nearest ?_)
      rw [zpow_eq_div]
      push_cast
      field_simp
    have word : (e + 1074).toNat * 2 ^ 52 + roundDiv (num * 2 ^ (-e).toNat) (den * 2 ^ e.toNat) =
        pattern (num / den : ℚ) := by
      rw [rounded]
      rfl
    let packed (w : ℕ) : Binary64 := if w < 2047 * 2 ^ 52 then ⟨w.toUInt64⟩ else infinity
    have eq : ofRatio num den =
        packed ((e + 1074).toNat * 2 ^ 52 + roundDiv (num * 2 ^ (-e).toNat) (den * 2 ^ e.toNat)) := by
      rw [ofRatio, if_neg hn.ne', floorLog_eq hn hd]
      rfl
    rw [eq, word]
    by_cases inside : pattern (num / den : ℚ) < 2047 * 2 ^ 52
    · rw [ofRational, Doubles.code_of_pos pos, min_eq_left inside.le]
      exact if_pos inside
    · rw [ofRational_of_large (not_lt.mp (mt (pattern_finite_iff pos).mpr inside))]
      exact if_neg inside

theorem ofNat_eq (n : ℕ) : ofNat n = ofRational n := by
  rw [ofNat, ofRatio_eq Nat.one_pos, Nat.cast_one, div_one]

end Ratios

section Decimals
variable {digits : ℕ} {exponent : ℤ}

theorem ten_zpow_pos (k : ℤ) : (0 : ℚ) < 10 ^ k :=
  zpow_pos (by norm_num) k

theorem ten_zpow_le {j k : ℤ} (h : j ≤ k) : (10 : ℚ) ^ j ≤ 10 ^ k :=
  zpow_le_zpow_right₀ (by norm_num) h

theorem digits_bounds (pos : 0 < digits) :
    (10 : ℚ) ^ (Nat.log2 digits / 4) ≤ digits ∧ (digits : ℚ) < 10 ^ (Nat.log2 digits / 3 + 1) := by
  constructor
  · have h : 10 ^ (Nat.log2 digits / 4) ≤ digits :=
      calc 10 ^ (Nat.log2 digits / 4) ≤ (2 ^ 4) ^ (Nat.log2 digits / 4) := Nat.pow_le_pow_left (by norm_num) _
        _ = 2 ^ (4 * (Nat.log2 digits / 4)) := (Nat.pow_mul 2 4 _).symm
        _ ≤ 2 ^ Nat.log2 digits := Nat.pow_le_pow_right two_pos (Nat.mul_div_le _ _)
        _ ≤ digits := Nat.log2_self_le pos.ne'
    exact_mod_cast h
  · have h : digits < 10 ^ (Nat.log2 digits / 3 + 1) :=
      calc digits < 2 ^ (Nat.log2 digits + 1) := Nat.lt_log2_self
        _ ≤ 2 ^ (3 * (Nat.log2 digits / 3 + 1)) := Nat.pow_le_pow_right two_pos (by omega)
        _ = (2 ^ 3) ^ (Nat.log2 digits / 3 + 1) := Nat.pow_mul 2 3 _
        _ ≤ 10 ^ (Nat.log2 digits / 3 + 1) := Nat.pow_le_pow_left (by norm_num) _
    exact_mod_cast h

theorem finiteLimit_le : finiteLimit ≤ 10 ^ (310 : ℤ) := by
  have power : (2 : ℚ) ^ (1024 : ℤ) ≤ 10 ^ (310 : ℤ) := by
    have h : 2 ^ 1024 ≤ 10 ^ 310 := by decide +kernel
    exact_mod_cast h
  refine le_trans ?_ power
  have steps : (1024 : ℤ) = 53 + 971 := rfl
  rw [steps, zpow_add₀ two_ne_zero, finiteLimit]
  exact mul_le_mul_of_nonneg_right (by norm_num) (two_zpow_pos _).le

theorem ofRational_of_tiny {q : ℚ} (nonneg : 0 ≤ q) (tiny : q < 2 ^ (-1075 : ℤ)) : ofRational q = zero := by
  rcases nonneg.lt_or_eq with pos | rfl
  · have lowest : place q = -1074 := by
      have log := log_lt pos tiny
      unfold place
      omega
    have half : q / 2 ^ place q < 1 / 2 := by
      rw [lowest, div_lt_iff₀ (two_zpow_pos _)]
      refine tiny.trans_eq ?_
      have steps : (-1074 : ℤ) = -1075 + 1 := rfl
      rw [steps, zpow_add_one₀ two_ne_zero]
      ring
    have none : nearest (q / 2 ^ place q) = 0 := by
      have close := abs_le.mp (nearest_close (div_place_pos pos (place q)).le).1
      have less : (nearest (q / 2 ^ place q) : ℚ) < (1 : ℕ) := by
        push_cast
        linarith [close.1]
      exact Nat.lt_one_iff.mp (Nat.cast_lt.mp less)
    refine congrArg Binary64.mk (UInt64.toNat_inj.mp ((bits_ofRational q).trans ?_))
    rw [Doubles.code_of_pos pos, pattern, none, lowest]
    rfl
  · exact ofRational_zero

theorem tiny_of_places : (10 : ℚ) ^ (-330 : ℤ) ≤ 2 ^ (-1075 : ℤ) := by
  have power : (2 : ℚ) ^ (1075 : ℤ) ≤ 10 ^ (330 : ℤ) := by
    have h : 2 ^ 1075 ≤ 10 ^ 330 := by decide +kernel
    exact_mod_cast h
  rw [zpow_neg, zpow_neg]
  exact inv_anti₀ (two_zpow_pos _) power

theorem ofDecimal_eq (digits : ℕ) (exponent : ℤ) : ofDecimal digits exponent = ofRational (digits * 10 ^ exponent) := by
  have unit := ten_zpow_pos exponent
  unfold ofDecimal
  rcases Nat.eq_zero_or_pos digits with rfl | pos
  · rw [if_pos rfl, Nat.cast_zero, zero_mul, ofRational_zero]
  · obtain ⟨low, high⟩ := digits_bounds pos
    dsimp only
    rw [if_neg pos.ne']
    split_ifs with large tiny
    · refine (ofRational_of_large (finiteLimit_le.trans ?_)).symm
      calc (10 : ℚ) ^ (310 : ℤ) ≤ 10 ^ (((Nat.log2 digits / 4 : ℕ) : ℤ) + exponent) := ten_zpow_le (by omega)
        _ = 10 ^ (Nat.log2 digits / 4) * 10 ^ exponent := by rw [zpow_add₀ (by norm_num), zpow_natCast]
        _ ≤ digits * 10 ^ exponent := mul_le_mul_of_nonneg_right low unit.le
    · refine (ofRational_of_tiny (mul_nonneg (Nat.cast_nonneg _) unit.le) (lt_of_lt_of_le ?_ tiny_of_places)).symm
      calc (digits * 10 ^ exponent : ℚ) < 10 ^ (Nat.log2 digits / 3 + 1) * 10 ^ exponent :=
            mul_lt_mul_of_pos_right high unit
        _ = 10 ^ (((Nat.log2 digits / 3 + 1 : ℕ) : ℤ) + exponent) := by rw [zpow_add₀ (by norm_num), zpow_natCast]
        _ ≤ 10 ^ (-330 : ℤ) := ten_zpow_le (by omega)
    · have den : 0 < 10 ^ (-exponent).toNat := Nat.pow_pos (by norm_num)
      have ratio : (10 : ℚ) ^ exponent = ((10 ^ exponent.toNat : ℕ) : ℚ) / ((10 ^ (-exponent).toNat : ℕ) : ℚ) :=
        base_zpow_eq_div (by norm_num) exponent
      have value : ofRatio (digits * 10 ^ exponent.toNat) (10 ^ (-exponent).toNat) = _ := ofRatio_eq den
      rw [ratio, ← mul_div_assoc, ← Nat.cast_mul]
      exact value

end Decimals

end Binary64
end FormulaSynth
