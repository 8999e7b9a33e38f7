import FormulaSynth.Proofs.Doubles

set_option autoImplicit false
namespace FormulaSynth.Doubles
open Float.Model Float.Model.UnpackedFloat

section Signed
variable {q r : ℚ} {u v : UnpackedFloat}

/-- The place of the double nearest to a value of either sign in the order of patterns. -/
def signedCode (q : ℚ) : ℤ := if 0 ≤ q then code q else -code (-q)

theorem signedCode_of_nonneg (nonneg : 0 ≤ q) : signedCode q = code q := if_pos nonneg

theorem signedCode_of_neg (neg : q < 0) : signedCode q = -code (-q) := if_neg (not_le.mpr neg)

theorem signedCode_le (h : q ≤ r) : signedCode q ≤ signedCode r := by
  rcases le_or_gt 0 q with nonneg | neg
  · rw [signedCode_of_nonneg nonneg, signedCode_of_nonneg (nonneg.trans h)]
    exact_mod_cast code_le nonneg h
  · rw [signedCode_of_neg neg]
    rcases le_or_gt 0 r with nonneg | neg'
    · rw [signedCode_of_nonneg nonneg]
      omega
    · rw [signedCode_of_neg neg']
      have less : code (-r) ≤ code (-q) := code_le (neg_nonneg.mpr neg'.le) (neg_le_neg h)
      omega

inductive Exact : UnpackedFloat → ℚ → Prop
  | zero (s : Sign) : Exact (.zero s) 0
  | finite (s : Sign) (m : ℕ) (e : ℤ) (pos : 0 < m) (fits : Fits m e) (high : e ≤ 971) :
      Exact (.finite s m e pos) (s.apply m * 2 ^ e)

theorem Exact.level_eq (h : Exact u q) : level u = signedCode q := by
  cases h with
  | zero s =>
    have none : code 0 = 0 := if_pos rfl
    rw [signedCode_of_nonneg le_rfl, none]
    rfl
  | finite s m e pos fits high =>
    have positive : (0 : ℚ) < m * 2 ^ e := mul_pos (Nat.cast_pos.mpr pos) (two_zpow_pos e)
    have place := code_of_fits fits high
    cases s with
    | positive =>
      simp only [level, Sign.apply, Int.cast_natCast]
      rw [signedCode_of_nonneg positive.le, place]
    | negative =>
      simp only [level, Sign.apply, Int.cast_neg, Int.cast_natCast, neg_mul]
      rw [signedCode_of_neg (neg_lt_zero.mpr positive), neg_neg, place]

theorem Exact.level_bounds (h : Exact u q) : -(2047 * 2 ^ 52) < level u ∧ level u < 2047 * 2 ^ 52 := by
  cases h with
  | zero s =>
    change -(2047 * 2 ^ 52) < (0 : ℤ) ∧ (0 : ℤ) < 2047 * 2 ^ 52
    decide
  | finite s m e pos fits high =>
    have small := word_lt fits high
    cases s <;> simp only [level, Sign.apply] <;> omega

theorem Exact.eq_of_level (hu : Exact u q) (hv : Exact v r) (same : level u = level v) : q = r := by
  cases hu with
  | zero s =>
    cases hv with
    | zero t => rfl
    | finite t k f pos fits high =>
      have positive := word_pos fits
      cases t <;> simp only [level, Sign.apply] at same <;> omega
  | finite s m e pos fits high =>
    have positive := word_pos fits
    cases hv with
    | zero t => cases s <;> simp only [level, Sign.apply] at same <;> omega
    | finite t k f pos' fits' high' =>
      have words : s = t ∧ word m e = word k f := by
        cases s <;> cases t <;> simp only [level, Sign.apply] at same <;>
          simp only [reduceCtorEq, false_and, true_and] <;> omega
      obtain ⟨rfl, eq⟩ := words
      obtain ⟨rfl, rfl⟩ := word_inj fits fits' eq
      rfl

theorem Exact.le_of_level (hu : Exact u q) (hv : Exact v r) (h : level u ≤ level v) : q ≤ r := by
  by_contra more
  have back := signedCode_le (not_le.mp more).le
  rw [← hu.level_eq, ← hv.level_eq] at back
  exact more (hu.eq_of_level hv (h.antisymm back)).le

end Signed

section Lying
variable {x y z : Float} {m n : ℤ}

theorem Lies.le (hx : Lies x m) (hy : Lies y n) (h : m ≤ n) : Number.le x y = true :=
  (le_iff x y).mpr ⟨hx.number, hy.number, by rwa [hx.rank_eq, hy.rank_eq]⟩

theorem rank_bounds {n : ℕ} (number : IsNumber n) (small : n < 2 ^ 64) :
    -(2047 * 2 ^ 52) ≤ rank n ∧ rank n ≤ 2047 * 2 ^ 52 := by
  unfold IsNumber at number
  unfold rank
  split_ifs <;> omega

theorem le_infinity (hx : IsNumber x.toBits.toNat) (hy : Lies y (2047 * 2 ^ 52)) : Number.le x y = true :=
  Lies.le ⟨hx, rfl⟩ hy (rank_bounds hx x.toBits.toNat_lt).2

theorem infinity_le (hx : Lies x (-(2047 * 2 ^ 52))) (hy : IsNumber y.toBits.toNat) : Number.le x y = true :=
  hx.le ⟨hy, rfl⟩ (rank_bounds hy y.toBits.toNat_lt).1

theorem unpack_of_not_number (h : ¬IsNumber x.toBits.toNat) : x.toModel.unpack = .notANumber :=
  (reads x).isNumber.resolve_right h

theorem exact_or_infinite (number : IsNumber x.toBits.toNat) :
    (∃ q, Exact x.toModel.unpack q) ∨ ∃ s, x.toModel.unpack = .infinity s := by
  have bits := reads x
  cases form : x.toModel.unpack with
  | zero s => exact Or.inl ⟨0, .zero s⟩
  | finite s m e pos =>
    rw [form] at bits
    cases bits with
    | finite _ _ _ _ fits high eq => exact Or.inl ⟨_, .finite s m e pos fits high⟩
  | infinity s => exact Or.inr ⟨s, rfl⟩
  | notANumber =>
    rw [form] at bits
    exact absurd number bits.not_nan

theorem lies_of_infinity {s : Sign} (h : x.toModel.unpack = .infinity s) : Lies x (s.apply (2047 * 2 ^ 52)) := by
  have bits := reads x
  rw [h] at bits
  cases bits with
  | infinity _ eq => exact lies_of_bits s le_rfl eq

theorem infinite_of_ge (hy : y.toModel.unpack = .infinity .negative) (h : Number.le x y = true) :
    x.toModel.unpack = .infinity .negative := by
  obtain ⟨number, -, ranks⟩ := (le_iff x y).mp h
  rw [(lies_of_infinity hy).rank_eq, (reads x).rank_eq number] at ranks
  rcases exact_or_infinite number with ⟨q, hx⟩ | ⟨s, hx⟩
  · exact absurd ranks (not_le.mpr hx.level_bounds.1)
  · rw [hx] at ranks
    cases s with
    | positive => exact absurd ranks (by decide)
    | negative => exact hx

theorem top_not_lt (hx : Lies x (2047 * 2 ^ 52)) : Number.lt x y = false := by
  rw [Bool.eq_false_iff, Ne, lt_iff, hx.rank_eq]
  rintro ⟨-, number, less⟩
  exact absurd less (not_lt.mpr (rank_bounds number y.toBits.toNat_lt).2)

theorem not_lt_bottom (hy : Lies y (-(2047 * 2 ^ 52))) : Number.lt x y = false := by
  rw [Bool.eq_false_iff, Ne, lt_iff, hy.rank_eq]
  rintro ⟨number, -, less⟩
  exact absurd less (not_lt.mpr (rank_bounds number x.toBits.toNat_lt).1)

theorem le_self_of_number (h : IsNumber x.toBits.toNat) : Number.le x x = true := (le_iff x x).mpr ⟨h, h, le_rfl⟩

theorem finite_unpack {s : Sign} (finite : Number.isFinite x = true) : x.toModel.unpack ≠ .infinity s := by
  intro infinite
  change x.toModel.unpack.isFinite = true at finite
  rw [infinite] at finite
  cases finite

theorem infinite_of_not_finite (number : IsNumber x.toBits.toNat) (h : Number.isFinite x = false) :
    ∃ s, x.toModel.unpack = .infinity s := by
  refine (exact_or_infinite number).resolve_left ?_
  rintro ⟨q, hx⟩
  change x.toModel.unpack.isFinite = false at h
  generalize x.toModel.unpack = u at hx h
  cases hx <;> cases h

theorem bottom_of_not_finite (number : IsNumber x.toBits.toNat) (h : Number.isFinite x = false)
    (low : Number.lt (Number.ofNat 0) x = false) : x.toModel.unpack = .infinity .negative := by
  obtain ⟨s, hx⟩ := infinite_of_not_finite number h
  cases s with
  | positive =>
    rw [(ranks_ofNat_zero.lt_iff (ranks_infinity hx)).mpr (by norm_num)] at low
    cases low
  | negative => exact hx

theorem top_of_not_finite (number : IsNumber x.toBits.toNat) (h : Number.isFinite x = false)
    (high : Number.lt x (Number.ofNat 0) = false) : x.toModel.unpack = .infinity .positive := by
  obtain ⟨s, hx⟩ := infinite_of_not_finite number h
  cases s with
  | positive => exact hx
  | negative =>
    have ranks : rank x.toBits.toNat = -(2047 * 2 ^ 52) := (lies_of_infinity hx).rank_eq
    have below : Number.lt x (Number.ofNat 0) = true := by
      refine (lt_iff x _).mpr ⟨number, ranks_ofNat_zero.number, ?_⟩
      rw [ranks, ranks_ofNat_zero.rank_eq]
      decide
    rw [below] at high
    cases high

theorem sign_of_nonneg {s : Sign} (nonneg : Number.le (Number.ofNat 0) x = true) (hx : x.toModel.unpack = .infinity s) :
    s = .positive := by
  rcases holds_or_infinite nonneg with ⟨q, -, holds⟩ | top
  · rcases holds.form with ⟨-, t, form⟩ | ⟨m, e, fits, -, form⟩ <;> rw [form] at hx <;> cases hx
  · rw [top] at hx
    cases hx
    rfl

end Lying

section Adding
variable {x y z : Float} {q r : ℚ}

theorem toBits_add (x y : Float) :
    (x + y).toBits.toNat = (UnpackedFloat.pack Format.binary64
      (UnpackedFloat.add Format.binary64 x.toModel.unpack y.toModel.unpack)).toNat := rfl

section Results
variable {u : UnpackedFloat} (bits : z.toBits.toNat = (UnpackedFloat.pack Format.binary64 u).toNat)

include bits in
theorem nan_of_result (form : u = .notANumber) : ¬IsNumber z.toBits.toNat := by
  have nan : (UnpackedFloat.pack Format.binary64 .notANumber).toNat = 0x7ff8000000000000 := rfl
  rw [bits, form, nan]
  unfold IsNumber
  decide

include bits in
theorem exact_of_result (form : Exact u q) : Lies z (signedCode q) := by
  rw [← form.level_eq]
  cases form with
  | zero s =>
    rw [pack_zero] at bits
    have none := lies_of_bits (n := 0) s (Nat.zero_le _) bits
    cases s <;> exact none
  | finite s m e pos fits high =>
    have small := (word_lt fits high).le
    rw [pack_finite s fits, min_eq_left small] at bits
    exact lies_of_bits s small bits

include bits in
theorem infinite_of_result {s : Sign} (form : u = .infinity s) : Lies z (s.apply (2047 * 2 ^ 52)) := by
  rw [form, pack_infinity] at bits
  exact lies_of_bits s le_rfl bits

include bits in
theorem round_of_result {s : Sign} {m : ℕ} {e : ℤ} (pos : 0 < m) (form : u = UnpackedFloat.round Format.binary64 s m e) :
    Lies z (s.apply (code (m * 2 ^ e))) := by
  have positive : (0 : ℚ) < m * 2 ^ e := mul_pos (Nat.cast_pos.mpr pos) (two_zpow_pos e)
  rw [form, pack_round s pos, ← code_of_pos positive] at bits
  exact lies_of_bits s (code_le_infinity _) bits

include bits in
theorem normalize_of_result {m e : ℤ} {s : Sign} (form : u = UnpackedFloat.normalize Format.binary64 m e s) :
    Lies z (signedCode (m * 2 ^ e)) := by
  have unit := two_zpow_pos e
  unfold UnpackedFloat.normalize at form
  rcases lt_trichotomy m 0 with neg | rfl | pos
  · have magnitude : ((-m).toNat : ℚ) = -m := by
      exact_mod_cast Int.toNat_of_nonneg (neg_nonneg.mpr neg.le)
    have value : ((m : ℚ) * 2 ^ e) < 0 := mul_neg_of_neg_of_pos (Int.cast_lt_zero.mpr neg) unit
    rw [compare_of_lt neg] at form
    have lies := round_of_result bits (by omega) form
    rw [magnitude, neg_mul] at lies
    rw [signedCode_of_neg value]
    exact lies
  · rw [Int.cast_zero, zero_mul]
    rw [form] at bits
    exact exact_of_result bits (.zero s)
  · have magnitude : (m.toNat : ℚ) = m := by
      exact_mod_cast Int.toNat_of_nonneg pos.le
    have value : 0 < ((m : ℚ) * 2 ^ e) := mul_pos (Int.cast_pos.mpr pos) unit
    rw [compare_of_gt pos] at form
    have lies := round_of_result bits (by omega) form
    rw [magnitude] at lies
    rw [signedCode_of_nonneg value.le]
    exact lies

end Results

theorem add_finite {s t : Sign} {m k : ℕ} {e f : ℤ} (hm : 0 < m) (hk : 0 < k) :
    UnpackedFloat.add Format.binary64 (.finite s m e hm) (.finite t k f hk) =
      UnpackedFloat.normalize Format.binary64 (s.apply (m <<< (e - min e f).toNat : ℕ) +
        t.apply (k <<< (f - min e f).toNat : ℕ)) (min e f) .positive := rfl

theorem apply_shift (s : Sign) (m : ℕ) {e g : ℤ} (low : g ≤ e) :
    (s.apply (m <<< (e - g).toNat : ℕ) * 2 ^ g : ℚ) = s.apply m * 2 ^ e := by
  have places : e = ((e - g).toNat : ℤ) + g := by omega
  have split : (2 : ℚ) ^ e = 2 ^ (e - g).toNat * 2 ^ g := by
    rw [← zpow_natCast, ← zpow_add₀ two_ne_zero, ← places]
  rw [split, Nat.shiftLeft_eq]
  cases s <;> simp only [Sign.apply] <;> push_cast <;> ring

/-- The sum of two finite numbers is rounded to the nearest double. -/
theorem Exact.add (hx : Exact x.toModel.unpack q) (hy : Exact y.toModel.unpack r) :
    Lies (x + y) (signedCode (q + r)) := by
  have bits := toBits_add x y
  generalize x.toModel.unpack = u at hx bits
  generalize y.toModel.unpack = v at hy bits
  cases hx with
  | zero s =>
    rw [zero_add]
    cases hy with
    | zero t => cases s <;> cases t <;> exact exact_of_result bits (.zero _)
    | finite t k f pos fits high => exact exact_of_result bits (.finite t k f pos fits high)
  | finite s m e pos fits high =>
    cases hy with
    | zero t =>
      rw [add_zero]
      exact exact_of_result bits (.finite s m e pos fits high)
    | finite t k f pos' fits' high' =>
      have sum := normalize_of_result bits (add_finite pos pos')
      rw [Int.cast_add, add_mul, apply_shift s m (min_le_left e f), apply_shift t k (min_le_right e f)] at sum
      exact sum

theorem not_number_add (h : ¬(IsNumber x.toBits.toNat ∧ IsNumber y.toBits.toNat)) : ¬IsNumber (x + y).toBits.toNat := by
  have bits := toBits_add x y
  by_cases number : IsNumber x.toBits.toNat
  · rw [unpack_of_not_number fun other => h ⟨number, other⟩] at bits
    refine nan_of_result bits ?_
    cases x.toModel.unpack <;> rfl
  · rw [unpack_of_not_number number] at bits
    exact nan_of_result bits rfl

theorem infinity_add {s : Sign} (hx : x.toModel.unpack = .infinity s) (number : IsNumber (x + y).toBits.toNat) :
    Lies (x + y) (s.apply (2047 * 2 ^ 52)) := by
  have bits := toBits_add x y
  rw [hx] at bits
  cases form : y.toModel.unpack with
  | zero t => rw [form] at bits; exact infinite_of_result bits rfl
  | finite t k f pos => rw [form] at bits; exact infinite_of_result bits rfl
  | infinity t =>
    rw [form] at bits
    by_cases same : s = t
    · exact infinite_of_result bits (if_pos (beq_iff_eq.mpr same))
    · exact absurd number (nan_of_result bits (if_neg (beq_iff_eq.not.mpr same)))
  | notANumber => rw [form] at bits; exact absurd number (nan_of_result bits rfl)

theorem Exact.add_infinity {s : Sign} (hx : Exact x.toModel.unpack q) (hy : y.toModel.unpack = .infinity s) :
    Lies (x + y) (s.apply (2047 * 2 ^ 52)) := by
  have bits := toBits_add x y
  rw [hy] at bits
  refine infinite_of_result bits ?_
  generalize x.toModel.unpack = u at hx
  cases hx <;> rfl

theorem add_le {a b c : Float} (bc : Number.le b c = true) (hb : IsNumber (a + b).toBits.toNat)
    (hc : IsNumber (a + c).toBits.toNat) : Number.le (a + b) (a + c) = true := by
  obtain ⟨nb, nc, ranks⟩ := (le_iff b c).mp bc
  have na : IsNumber a.toBits.toNat := by
    by_contra nan
    exact not_number_add (fun both => nan both.1) hb
  rcases exact_or_infinite na with ⟨p, ha⟩ | ⟨s, ha⟩
  · rcases exact_or_infinite nb with ⟨q, eb⟩ | ⟨s, eb⟩
    · rcases exact_or_infinite nc with ⟨r, ec⟩ | ⟨t, ec⟩
      · rw [(reads b).rank_eq nb, (reads c).rank_eq nc] at ranks
        exact (ha.add eb).le (ha.add ec) (signedCode_le (add_le_add_right (eb.le_of_level ec ranks) p))
      · cases t with
        | positive => exact le_infinity hb (ha.add_infinity ec)
        | negative => exact (ha.add_infinity (infinite_of_ge ec bc)).le (ha.add_infinity ec) le_rfl
    · cases s with
      | positive => exact (ha.add_infinity eb).le (ha.add_infinity (infinite_of_le eb bc)) le_rfl
      | negative => exact infinity_le (ha.add_infinity eb) hc
  · exact (infinity_add ha hb).le (infinity_add ha hc) le_rfl

theorem number_add (hx : IsNumber x.toBits.toNat) (hy : IsNumber y.toBits.toNat)
    (meets : ∀ s t, x.toModel.unpack = .infinity s → y.toModel.unpack = .infinity t → s = t) :
    IsNumber (x + y).toBits.toNat := by
  have bits := toBits_add x y
  rcases exact_or_infinite hx with ⟨q, ex⟩ | ⟨s, ix⟩
  · rcases exact_or_infinite hy with ⟨r, ey⟩ | ⟨t, iy⟩
    · exact (ex.add ey).number
    · exact (ex.add_infinity iy).number
  · rcases exact_or_infinite hy with ⟨r, ey⟩ | ⟨t, iy⟩
    · rw [ix] at bits
      refine (infinite_of_result bits ?_ : Lies (x + y) (s.apply _)).number
      generalize y.toModel.unpack = v at ey
      cases ey <;> rfl
    · obtain rfl := meets s t ix iy
      rw [ix, iy] at bits
      exact (infinite_of_result bits (if_pos (beq_self_eq_true s))).number

theorem number_add_of_nonneg (hx : IsNumber x.toBits.toNat) (low : x.toModel.unpack ≠ .infinity .negative)
    (nonneg : Number.le (Number.ofNat 0) y = true) : IsNumber (x + y).toBits.toNat := by
  refine number_add hx ((le_iff _ y).mp nonneg).2.1 fun s t ix iy => ?_
  obtain rfl : t = .positive := sign_of_nonneg nonneg iy
  cases s with
  | positive => rfl
  | negative => exact absurd ix low

theorem number_add_of_finite (finite : Number.isFinite x = true) (hy : IsNumber y.toBits.toNat) :
    IsNumber (x + y).toBits.toNat := by
  exact number_add ((le_iff x x).mp (le_self finite)).1 hy fun _ _ infinite _ => absurd infinite (finite_unpack finite)

end Adding

section Swapping

theorem sign_mul_comm (s t : Sign) : s * t = t * s := by cases s <;> cases t <;> rfl

theorem unpacked_mul_comm (u v : UnpackedFloat) :
    UnpackedFloat.mul Format.binary64 u v = UnpackedFloat.mul Format.binary64 v u := by
  cases u <;> cases v <;> simp only [UnpackedFloat.mul, sign_mul_comm, Nat.mul_comm, Int.add_comm]

theorem unpacked_add_comm (u v : UnpackedFloat) :
    UnpackedFloat.add Format.binary64 u v = UnpackedFloat.add Format.binary64 v u := by
  cases u <;> cases v <;> try rfl
  case zero.zero s t => cases s <;> cases t <;> rfl
  case finite.finite s m e hm t k f hk => rw [add_finite, add_finite, min_comm, Int.add_comm]
  case infinity.infinity s t => cases s <;> cases t <;> rfl

theorem product_comm (x y : Float) : x * y = y * x := by
  refine toBits_inj ?_
  rw [toBits_mul, toBits_mul, unpacked_mul_comm]

theorem sum_comm (x y : Float) : x + y = y + x := by
  refine toBits_inj ?_
  rw [toBits_add, toBits_add, unpacked_add_comm]

theorem sum_le {a b c d : Float} (ac : Number.le a c = true) (bd : Number.le b d = true)
    (finite : Number.isFinite a = true) (sum : IsNumber (c + d).toBits.toNat) : Number.le (a + b) (c + d) = true := by
  obtain ⟨nb, nd, -⟩ := (le_iff b d).mp bd
  have middle : IsNumber (a + d).toBits.toNat := number_add_of_finite finite nd
  have second : Number.le (a + b) (a + d) = true := add_le bd (number_add_of_finite finite nb) middle
  have first : Number.le (a + d) (c + d) = true := by
    rw [sum_comm a, sum_comm c] at *
    exact add_le ac middle sum
  exact le_trans second first

end Swapping
end FormulaSynth.Doubles
