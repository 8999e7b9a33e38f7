import Mathlib
import FormulaSynth.Number.Binary64

set_option autoImplicit false
namespace FormulaSynth

section Integers
variable {m d n e : ℕ}

theorem div_le_roundDiv (m d : ℕ) : m / d ≤ roundDiv m d := by
  unfold roundDiv
  dsimp only
  split_ifs <;> omega

theorem roundDiv_le_div_succ (m d : ℕ) : roundDiv m d ≤ m / d + 1 := by
  unfold roundDiv
  dsimp only
  split_ifs <;> omega

theorem roundDiv_le_of_div_eq (hd : 0 < d) (he : 0 < e) (quotients : m / d = n / e) (h : m % d * e ≤ n % e * d) :
    roundDiv m d ≤ roundDiv n e := by
  have past_half : d ≤ 2 * (m % d) → e ≤ 2 * (n % e) := by
    intro half
    refine Nat.le_of_mul_le_mul_right ?_ hd
    calc e * d ≤ e * (2 * (m % d)) := Nat.mul_le_mul_left e half
      _ = 2 * (m % d * e) := by ring
      _ ≤ 2 * (n % e * d) := Nat.mul_le_mul_left 2 h
      _ = 2 * (n % e) * d := by ring
  have below_half : 2 * (n % e) ≤ e → 2 * (m % d) ≤ d := by
    intro half
    by_contra above
    refine absurd h (not_le.mpr ?_)
    refine Nat.lt_of_mul_lt_mul_left (a := 2) ?_
    calc 2 * (n % e * d) = 2 * (n % e) * d := by ring
      _ ≤ e * d := Nat.mul_le_mul_right d half
      _ < e * (2 * (m % d)) := Nat.mul_lt_mul_of_pos_left (not_le.mp above) he
      _ = 2 * (m % d * e) := by ring
  unfold roundDiv
  dsimp only
  rw [quotients]
  split_ifs <;> omega

theorem roundDiv_le (hd : 0 < d) (he : 0 < e) (h : m * e ≤ n * d) : roundDiv m d ≤ roundDiv n e := by
  have quotients : m / d ≤ n / e := by
    rw [Nat.le_div_iff_mul_le he]
    refine Nat.le_of_mul_le_mul_right ?_ hd
    calc m / d * e * d = m / d * d * e := by ring
      _ ≤ m * e := Nat.mul_le_mul_right e (Nat.div_mul_le_self m d)
      _ ≤ n * d := h
  rcases quotients.lt_or_eq with lt | eq
  · calc roundDiv m d ≤ m / d + 1 := roundDiv_le_div_succ m d
      _ ≤ n / e := lt
      _ ≤ roundDiv n e := div_le_roundDiv n e
  · refine roundDiv_le_of_div_eq hd he eq ?_
    have left := Nat.div_add_mod m d
    have right := Nat.div_add_mod n e
    rw [← left, ← right, eq] at h
    nlinarith

theorem roundDiv_mul (k : ℕ) (hd : 0 < d) : roundDiv (k * d) d = k := by
  unfold roundDiv
  rw [Nat.mul_div_cancel k hd, Nat.mul_mod_left]
  exact if_pos hd

end Integers

def nearest (x : ℚ) : ℕ := roundDiv x.num.toNat x.den

theorem cross_le {m d n e : ℕ} (hd : 0 < d) (he : 0 < e) (h : (m / d : ℚ) ≤ n / e) : m * e ≤ n * d := by
  have hd' : (0 : ℚ) < d := Nat.cast_pos.mpr hd
  have he' : (0 : ℚ) < e := Nat.cast_pos.mpr he
  rw [div_le_div_iff₀ hd' he'] at h
  exact_mod_cast h

theorem num_div_den {x : ℚ} (nonneg : 0 ≤ x) : ((x.num.toNat : ℕ) / x.den : ℚ) = x := by
  have num : ((x.num.toNat : ℕ) : ℤ) = x.num := Int.toNat_of_nonneg (Rat.num_nonneg.mpr nonneg)
  have cast : ((x.num.toNat : ℕ) : ℚ) = (x.num : ℚ) := by
    exact_mod_cast congrArg (Int.cast (R := ℚ)) num
  rw [cast, Rat.num_div_den]

theorem roundDiv_eq_nearest {m d : ℕ} (hd : 0 < d) : roundDiv m d = nearest (m / d) := by
  have eq : ((m / d : ℚ).num.toNat / (m / d : ℚ).den : ℚ) = m / d :=
    num_div_den (div_nonneg (Nat.cast_nonneg m) (Nat.cast_nonneg d))
  have den : 0 < (m / d : ℚ).den := Rat.den_pos _
  exact le_antisymm (roundDiv_le hd den (cross_le hd den eq.ge)) (roundDiv_le den hd (cross_le den hd eq.le))

theorem nearest_le {x y : ℚ} (nonneg : 0 ≤ x) (h : x ≤ y) : nearest x ≤ nearest y := by
  refine roundDiv_le (Rat.den_pos x) (Rat.den_pos y) (cross_le (Rat.den_pos x) (Rat.den_pos y) ?_)
  rw [num_div_den nonneg, num_div_den (nonneg.trans h)]
  exact h

theorem nearest_natCast (k : ℕ) : nearest k = k := by
  have h := roundDiv_eq_nearest (m := k * 1) Nat.one_pos
  rw [roundDiv_mul k Nat.one_pos, Nat.mul_one, Nat.cast_one, div_one] at h
  exact h.symm

/-- The exponent of the last place of the double nearest to a ratio. -/
def place (x : ℚ) : ℤ := max (Int.log 2 x - 52) (-1074)

/-- A rounded value of all ones moves on to the next place by itself. -/
def pattern (x : ℚ) : ℕ := (place x + 1074).toNat * 2 ^ 52 + nearest (x / 2 ^ place x)

section Places
variable {x y : ℚ}

theorem two_zpow_pos (k : ℤ) : (0 : ℚ) < 2 ^ k :=
  zpow_pos two_pos k

theorem two_zpow_le {j k : ℤ} (h : j ≤ k) : (2 : ℚ) ^ j ≤ 2 ^ k :=
  zpow_le_zpow_right₀ one_le_two h

theorem lt_log_succ (x : ℚ) : x < 2 ^ (Int.log 2 x + 1) := by
  exact_mod_cast Int.lt_zpow_succ_log_self (b := 2) one_lt_two x

theorem log_le (pos : 0 < x) : (2 : ℚ) ^ Int.log 2 x ≤ x := by
  exact_mod_cast Int.zpow_log_le_self (b := 2) one_lt_two pos

theorem le_log {k : ℤ} (pos : 0 < x) (h : (2 : ℚ) ^ k ≤ x) : k ≤ Int.log 2 x := by
  refine (Int.zpow_le_iff_le_log one_lt_two pos).mp ?_
  exact_mod_cast h

theorem log_lt {k : ℤ} (pos : 0 < x) (h : x < 2 ^ k) : Int.log 2 x < k := by
  refine (Int.lt_zpow_iff_log_lt one_lt_two pos).mp ?_
  exact_mod_cast h

theorem low_le_place (x : ℚ) : -1074 ≤ place x :=
  le_max_right _ _

theorem place_le_place (pos : 0 < x) (h : x ≤ y) : place x ≤ place y := by
  have logs : Int.log 2 x ≤ Int.log 2 y := Int.log_mono_right pos h
  unfold place
  omega

theorem div_place_le (x : ℚ) : x / 2 ^ place x ≤ (2 ^ 53 : ℕ) := by
  have power : ((2 ^ 53 : ℕ) : ℚ) = 2 ^ (53 : ℤ) := by norm_num
  rw [div_le_iff₀ (two_zpow_pos _), power, ← zpow_add₀ two_ne_zero]
  refine (lt_log_succ x).le.trans (two_zpow_le ?_)
  unfold place
  omega

theorem le_div_place (pos : 0 < x) (h : -1074 < place x) : (2 ^ 52 : ℕ) ≤ x / 2 ^ place x := by
  have power : ((2 ^ 52 : ℕ) : ℚ) = 2 ^ (52 : ℤ) := by norm_num
  rw [le_div_iff₀ (two_zpow_pos _), power, ← zpow_add₀ two_ne_zero]
  refine le_trans (two_zpow_le ?_) (log_le pos)
  unfold place at *
  omega

theorem div_place_pos (pos : 0 < x) (k : ℤ) : 0 < x / 2 ^ k :=
  div_pos pos (two_zpow_pos k)

theorem pattern_le (pos : 0 < x) (h : x ≤ y) : pattern x ≤ pattern y := by
  have places := place_le_place pos h
  have low := low_le_place x
  unfold pattern
  rcases places.lt_or_eq with lt | eq
  · have most : nearest (x / 2 ^ place x) ≤ 2 ^ 53 := by
      rw [← nearest_natCast (2 ^ 53)]
      exact nearest_le (div_place_pos pos _).le (div_place_le x)
    have least : 2 ^ 52 ≤ nearest (y / 2 ^ place y) := by
      rw [← nearest_natCast (2 ^ 52)]
      exact nearest_le (Nat.cast_nonneg _) (le_div_place (pos.trans_le h) (low.trans_lt lt))
    omega
  · rw [eq]
    have scaled : x / 2 ^ place y ≤ y / 2 ^ place y := div_le_div_of_nonneg_right h (two_zpow_pos _).le
    exact Nat.add_le_add_left (nearest_le (div_place_pos pos _).le scaled) _

/-- A significand and the exponent of its last place, as a double has them. -/
structure Fits (m : ℕ) (e : ℤ) : Prop where
  pos : 0 < m
  lt : m < 2 ^ 53
  low : -1074 ≤ e
  full : 2 ^ 52 ≤ m ∨ e = -1074

theorem log_mul_zpow {m : ℕ} {q : ℚ} (pos : 0 < m) (least : m ≤ q) (most : q < m + 1) (e : ℤ) :
    Int.log 2 (q * 2 ^ e) = Nat.log2 m + e := by
  have positive : 0 < q * 2 ^ e := mul_pos ((Nat.cast_pos.mpr pos).trans_le least) (two_zpow_pos e)
  have below : q < 2 ^ ((Nat.log2 m : ℤ) + 1) := by
    have h : m + 1 ≤ 2 ^ (Nat.log2 m + 1) := Nat.succ_le_of_lt Nat.lt_log2_self
    refine most.trans_le ?_
    exact_mod_cast h
  have above : (2 : ℚ) ^ (Nat.log2 m : ℤ) ≤ q := by
    refine le_trans ?_ least
    rw [zpow_natCast]
    exact_mod_cast Nat.log2_self_le pos.ne'
  refine le_antisymm (Int.lt_add_one_iff.mp (log_lt positive ?_)) (le_log positive ?_)
  · rw [add_right_comm, zpow_add₀ two_ne_zero]
    exact mul_lt_mul_of_pos_right below (two_zpow_pos e)
  · rw [zpow_add₀ two_ne_zero]
    exact mul_le_mul_of_nonneg_right above (two_zpow_pos e).le

theorem Fits.place {m : ℕ} {e : ℤ} (h : Fits m e) : place (m * 2 ^ e) = e := by
  have most : Nat.log2 m < 53 := (Nat.log2_lt h.pos.ne').mpr h.lt
  have full : 52 ≤ Nat.log2 m ∨ e = -1074 := h.full.imp_left (Nat.le_log2 h.pos.ne').mpr
  have low := h.low
  rw [FormulaSynth.place, log_mul_zpow h.pos le_rfl (lt_add_one _)]
  omega

theorem Fits.pattern {m : ℕ} {e : ℤ} (h : Fits m e) :
    pattern (m * 2 ^ e) = (e + 1074).toNat * 2 ^ 52 + m := by
  rw [FormulaSynth.pattern, h.place, mul_div_cancel_right₀ _ (two_zpow_pos e).ne', nearest_natCast]

end Places

theorem base_zpow_eq_div {b : ℕ} (pos : 0 < b) (k : ℤ) :
    (b : ℚ) ^ k = ((b ^ k.toNat : ℕ) : ℚ) / ((b ^ (-k).toNat : ℕ) : ℚ) := by
  have parts : k = (k.toNat : ℤ) - ((-k).toNat : ℤ) := by omega
  conv_lhs => rw [parts, zpow_sub₀ (Nat.cast_ne_zero.mpr pos.ne'), zpow_natCast, zpow_natCast]
  push_cast
  rfl

theorem zpow_eq_div (k : ℤ) : (2 : ℚ) ^ k = ((2 ^ k.toNat : ℕ) : ℚ) / ((2 ^ (-k).toNat : ℕ) : ℚ) :=
  base_zpow_eq_div two_pos k

end FormulaSynth
