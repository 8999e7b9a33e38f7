import FormulaSynth.Proofs.Configured
import FormulaSynth.Proofs.Nearest
import FormulaSynth.Proofs.Sums

/-!
# Counts that fill a word

The frames of a render and the onsets of a part are counted by doubles, and a count that does not fit into a word is
the greatest one that does. What a configuration may hold bounds the rate and the periods, but not the duration: a
count is exact, and the memory it asks for small enough, as long as the double it is made from stays below a limit,
and from some duration on it does not.
-/

set_option autoImplicit false
namespace FormulaSynth
open Number Score

namespace Doubles
open Float.Model Float.Model.UnpackedFloat

def value (x : Float) : ℚ := (Binary64.ofFloat x).toRat

def Below (x : Float) (limit : ℚ) : Prop := isFinite x = true ∧ value x < limit

/-- The double is finite, and the count is its value and a slack, rounded down. -/
def Counts (slack : ℚ) (x : Float) (n : ℕ) : Prop := isFinite x = true ∧ n = ⌊value x + slack⌋₊

def taken (slack : ℚ) (x : Float) : ℕ :=
  if isFinite x then min Binary64.countLimit ⌊value x + slack⌋₊ else Binary64.countLimit

section Values
variable {x : Float} {q slack : ℚ}

theorem Holds.value_eq (h : Holds x q) : value x = q := by
  have bits := reads x
  rcases h.form with ⟨rfl, s, form⟩ | ⟨m, e, fits, rfl, form⟩
  · rw [form] at bits
    cases bits with
    | zero _ eq =>
      have field : (Binary64.ofFloat x).exponentField = 0 := by
        rw [Binary64.exponentField_eq, Binary64.ofFloat, eq]
        cases s <;> rfl
      have none : (Binary64.ofFloat x).significand = 0 := by
        rw [Binary64.significand, if_pos field, Binary64.fractionField_eq, Binary64.ofFloat, eq]
        cases s <;> rfl
      rw [value, Binary64.toRat, none, Nat.cast_zero, mul_zero, zero_mul]
  · rw [form] at bits
    cases bits with
    | finite _ _ _ _ _ high eq =>
      obtain ⟨-, positive, significand, exponent⟩ := fields_of_word (b := .ofFloat x) fits high
        (eq.trans (Nat.zero_add _))
      rw [value, Binary64.toRat_of_nonneg positive, significand, exponent]

theorem holds_value (nonneg : le (Number.ofNat 0) x = true) (finite : isFinite x = true) :
    Holds x (value x) ∧ 0 ≤ value x := by
  rcases holds_or_infinite nonneg with ⟨q, qnonneg, holds⟩ | infinite
  · rw [holds.value_eq]
    exact ⟨holds, qnonneg⟩
  · rw [infinity_not_finite infinite] at finite
    cases finite

theorem infinite_of_nonneg (nonneg : le (Number.ofNat 0) x = true) (finite : isFinite x = false) :
    x.toModel.unpack = .infinity .positive := by
  refine (holds_or_infinite nonneg).resolve_left fun ⟨_, _, holds⟩ => ?_
  rw [isFinite_of_holds holds] at finite
  cases finite

theorem roundToInt_eq (s : Sign) (m : ℕ) (e : ℤ) :
    roundToInt s m e = s.apply (m * 2 ^ e.toNat / 2 ^ (-e).toNat : ℕ) := by
  have shifted := (describes_natural (m * 2 ^ e.toNat)).shiftRight Nat.one_pos (-e).toNat
  have places : (0 - (e - ((e - 0).toNat : ℤ))).toNat = (-e).toNat := by omega
  have cut := shifted.mantissa
  rw [Nat.one_mul] at cut
  unfold roundToInt decreaseExponent shiftToExponent
  dsimp only
  rw [places, Int.sub_zero, Nat.shiftLeft_eq]
  exact congrArg (fun n : ℕ => s.apply (n : ℤ)) cut

theorem floor_shifted (m : ℕ) (e : ℤ) : ⌊(m * 2 ^ e : ℚ)⌋₊ = m * 2 ^ e.toNat / 2 ^ (-e).toNat := by
  have ratio : (m * 2 ^ e : ℚ) = (m * 2 ^ e.toNat : ℕ) / (2 ^ (-e).toNat : ℕ) := by
    rw [zpow_eq_div]
    push_cast
    ring
  rw [ratio, Nat.floor_div_eq_div]

theorem toNat_ofNatClamp (n : ℕ) : (UInt64.ofNatClamp n).toNat = min Binary64.countLimit n := by
  have limit : Binary64.countLimit = UInt64.size - 1 := rfl
  have size : 0 < UInt64.size := by decide
  rw [UInt64.ofNatClamp]
  split_ifs with small
  · rw [UInt64.toNat_ofNatLT]
    omega
  · rw [UInt64.toNat_ofNatLT]
    omega

theorem truncToNat_eq_toInt (x : Float) :
    truncToNat x = min Binary64.countLimit (toInt 0 (UInt64.size - 1) x.toModel.unpack).toNat :=
  toNat_ofNatClamp _

theorem truncToNat_of_holds (h : Holds x q) : truncToNat x = min Binary64.countLimit ⌊q⌋₊ := by
  rcases h.form with ⟨rfl, s, form⟩ | ⟨m, e, fits, rfl, form⟩
  · rw [truncToNat_eq_toInt, form, Nat.floor_zero]
    rfl
  · rw [truncToNat_eq_toInt, form, floor_shifted]
    change min _ (roundToInt .positive m e).toNat = _
    rw [roundToInt_eq]
    rfl

theorem truncToNat_of_infinity (h : x.toModel.unpack = .infinity .positive) : truncToNat x = Binary64.countLimit := by
  rw [truncToNat_eq_toInt, h]
  rfl

theorem roundToNat_eq_taken (nonneg : le (Number.ofNat 0) x = true) : roundToNat x = taken (1 / 2) x := by
  unfold taken
  split_ifs with finite
  · exact roundToNat_of_holds (holds_value nonneg finite).1
  · exact roundToNat_of_infinity (infinite_of_nonneg nonneg (Bool.eq_false_iff.mpr finite))

theorem truncToNat_eq_taken (nonneg : le (Number.ofNat 0) x = true) : truncToNat x = taken 0 x := by
  unfold taken
  split_ifs with finite
  · rw [add_zero]
    exact truncToNat_of_holds (holds_value nonneg finite).1
  · exact truncToNat_of_infinity (infinite_of_nonneg nonneg (Bool.eq_false_iff.mpr finite))

/-- As long as a count is not the greatest one, it tells where the double lies. -/
theorem taken_lt_iff {n : ℕ} (nonneg : le (Number.ofNat 0) x = true) (slack_nonneg : 0 ≤ slack)
    (small : n ≤ Binary64.countLimit) : taken slack x < n ↔ Below x (n - slack) := by
  unfold taken Below
  split_ifs with finite
  · have positive : 0 ≤ value x + slack := add_nonneg (holds_value nonneg finite).2 slack_nonneg
    rw [min_lt_iff, or_iff_right (not_lt.mpr small), Nat.floor_lt positive, lt_sub_iff_add_lt]
    exact (and_iff_right finite).symm
  · exact iff_of_false (not_lt.mpr small) fun below => finite below.1

theorem counts_taken_iff (nonneg : le (Number.ofNat 0) x = true) (slack_nonneg : 0 ≤ slack) :
    Counts slack x (taken slack x) ↔ Below x (2 ^ 64 - slack) := by
  unfold Counts taken Below
  refine and_congr_right fun finite => ?_
  have positive : 0 ≤ value x + slack := add_nonneg (holds_value nonneg finite).2 slack_nonneg
  have limit : Binary64.countLimit + 1 = 2 ^ 64 := rfl
  rw [if_pos finite, min_eq_right_iff, ← Nat.lt_succ_iff, Nat.succ_eq_add_one, limit, Nat.floor_lt positive,
    lt_sub_iff_add_lt]
  norm_num

theorem Below.mono {limit limit' : ℚ} (below : Below x limit) (h : limit ≤ limit') : Below x limit' :=
  ⟨below.1, below.2.trans_le h⟩

end Values

section Bounds
variable {x y : Float} {q r limit : ℚ} {k : ℕ}

theorem holds_pow_two (high : k ≤ 1023) : Holds (Number.ofNat (2 ^ k)) (2 ^ k) := by
  have fits : Fits (2 ^ 52) (k - 52) := ⟨by norm_num, by norm_num, by omega, Or.inl le_rfl⟩
  have same : (2 ^ k : ℚ) = (2 ^ 52 : ℕ) * 2 ^ ((k : ℤ) - 52) := by
    have places : (k : ℤ) = 52 + (k - 52) := by omega
    rw [← zpow_natCast, places, zpow_add₀ two_ne_zero]
    norm_num
  have ranks := ranks_ofNat (2 ^ k)
  rw [Nat.cast_pow, Nat.cast_ofNat] at ranks
  exact ⟨ranks, Or.inr ⟨2 ^ 52, k - 52, fits, by omega, same⟩⟩

theorem value_le_of_le (high : k ≤ 1023) (nonneg : le (Number.ofNat 0) x = true)
    (h : le x (Number.ofNat (2 ^ k)) = true) : isFinite x = true ∧ value x ≤ 2 ^ k := by
  have power := holds_pow_two high
  have finite : isFinite x = true := by
    by_contra infinite
    have top := infinite_of_le (infinite_of_nonneg nonneg (Bool.eq_false_iff.mpr infinite)) h
    have contradiction := isFinite_of_holds power
    rw [infinity_not_finite top] at contradiction
    cases contradiction
  exact ⟨finite, (holds_value nonneg finite).1.le power (by positivity) h⟩

theorem not_below_of_le (high : k ≤ 1023) (h : le (Number.ofNat (2 ^ k)) x = true) (small : limit ≤ 2 ^ k) :
    ¬Below x limit := by
  rintro ⟨finite, less⟩
  have nonneg := le_trans (ofNat_le (Nat.zero_le (2 ^ k))) h
  obtain ⟨holds, positive⟩ := holds_value nonneg finite
  have least := (holds_pow_two high).le holds positive h
  linarith

theorem le_add_of_nonneg (hx : isFinite x = true) (hy : isFinite y = true) (nonneg : le (Number.ofNat 0) y = true) :
    le x (x + y) = true := by
  have number : IsNumber x.toBits.toNat := ((le_iff x x).mp (le_self hx)).1
  have number' : IsNumber y.toBits.toNat := ((le_iff y y).mp (le_self hy)).1
  obtain ⟨q, ex⟩ := (exact_or_infinite number).resolve_right fun ⟨_, infinite⟩ => finite_unpack hx infinite
  obtain ⟨r, ey⟩ := (exact_or_infinite number').resolve_right fun ⟨_, infinite⟩ => finite_unpack hy infinite
  have place := (reads x).rank_eq number
  have place' := (reads y).rank_eq number'
  have positive : 0 ≤ r := by
    refine (Exact.zero .positive).le_of_level ey ?_
    rw [← place']
    exact ((le_iff _ _).mp nonneg).2.2
  have lies : Lies x (signedCode q) := ⟨number, place.trans ex.level_eq⟩
  exact lies.le (ex.add ey) (signedCode_le (le_add_of_nonneg_right positive))

theorem le_mul_count {n : ℕ} (high : k ≤ 1023) (some : 0 < n) (small : n < 2 ^ 53)
    (h : le (Number.ofNat (2 ^ k)) x = true) : le (Number.ofNat (2 ^ k)) (x * Number.ofNat n) = true := by
  have power := holds_pow_two high
  have count := holds_ofNat small
  have positive : lt (Number.ofNat 0) (Number.ofNat n : Float) = true := ofNat_lt some small
  have scaled : le (Number.ofNat (2 ^ k)) (Number.ofNat (2 ^ k) * Number.ofNat n : Float) = true := by
    refine (power.ranks.le_iff (power.mul count)).mpr (code_le (by positivity) ?_)
    exact le_mul_of_one_le_right (by positivity) (Nat.one_le_cast.mpr some)
  exact le_trans scaled (mul_le power.ranks.nonneg h positive (Or.inl (isFinite_of_holds count)))

theorem holds_period (finite : isFinite y = true) (low : le 0.1 y = true) (high : le y Number.tau = true) :
    ∃ r, Holds y r ∧ 1 / 16 ≤ r ∧ r ≤ 8 := by
  have positive : lt (Number.ofNat 0) y = true := pos_of_le (by decide +kernel : lt (Number.ofNat 0) 0.1 = true) low
  obtain ⟨r, some, holds⟩ := holds_of_finite positive finite
  refine ⟨r, holds, ?_, ?_⟩
  · by_contra less
    have one : Holds (Number.ofNat 1) (1 : ℕ) := holds_ofNat (by norm_num)
    have sixteen : Holds (Number.ofNat 16) (16 : ℕ) := holds_ofNat (by norm_num)
    have below : le y (Number.ofNat 1 / Number.ofNat 16) = true := by
      refine (holds.ranks.le_iff (one.div sixteen (by norm_num))).mpr (code_le some.le ?_)
      push_cast
      exact (not_le.mp less).le
    have tenth : le (0.1 : Float) (Number.ofNat 1 / Number.ofNat 16) = false := by decide +kernel
    rw [le_trans low below] at tenth
    cases tenth
  · have eight : Holds (Number.ofNat 8) (8 : ℕ) := holds_ofNat (by norm_num)
    have top : le y (Number.ofNat 8) = true := le_trans high (by decide +kernel)
    exact holds.le eight (by norm_num) top

section Periods
variable (hy : Holds y r) (positive : lt (Number.ofNat 0) y = true)
include hy positive

theorem le_div_period (high : k + 3 ≤ 1023) (some : 0 < r) (most : r ≤ 8)
    (h : le (Number.ofNat (2 ^ (k + 3))) x = true) : le (Number.ofNat (2 ^ k)) (x / y) = true := by
  have power := holds_pow_two high
  have shared : le (Number.ofNat (2 ^ k)) (Number.ofNat (2 ^ (k + 3)) / y) = true := by
    refine ((holds_pow_two (by omega)).ranks.le_iff (power.div hy some)).mpr (code_le (by positivity) ?_)
    rw [le_div_iff₀ some, pow_add]
    exact mul_le_mul_of_nonneg_left (by linarith) (by positivity)
  exact le_trans shared (div_le power.ranks.nonneg h positive (isFinite_of_holds hy))

theorem div_period_le (high : k + 4 ≤ 1023) (least : 1 / 16 ≤ r) (nonneg : le (Number.ofNat 0) x = true)
    (h : le x (Number.ofNat (2 ^ k)) = true) : le (x / y) (Number.ofNat (2 ^ (k + 4))) = true := by
  have power : Holds (Number.ofNat (2 ^ k)) (2 ^ k) := holds_pow_two (by omega)
  have some : 0 < r := by linarith
  have shared : le (Number.ofNat (2 ^ k) / y) (Number.ofNat (2 ^ (k + 4))) = true := by
    refine ((power.div hy some).le_iff (holds_pow_two high).ranks).mpr (code_le (by positivity) ?_)
    rw [div_le_iff₀ some, pow_add, mul_assoc]
    exact le_mul_of_one_le_right (by positivity) (by linarith)
  exact le_trans (div_le nonneg h positive (isFinite_of_holds hy)) shared

end Periods

end Bounds

end Doubles

namespace Score
variable {α : Type} [Number α]

theorem length_schedule [Ordered α] {parts : List (Part α)} {duration : α} (finite : isFinite duration = true)
    (positive : lt 0 duration = true) (sound : ∀ part ∈ parts, part.isSchedulable = true) :
    (schedule parts duration).length = (parts.map fun part => onsetCount duration part.period).sum := by
  have window : ¬(!isFinite duration || le duration 0) = true := by
    simp [finite, Ordered.not_le_of_lt positive]
  have shares : ∀ entry ∈ parts.zipIdx,
      (entry.1.share entry.2 duration).length = onsetCount duration entry.1.period := by
    intro entry mem
    have inside := sound _ (List.mem_of_getElem? (List.mem_zipIdx_iff_getElem?.mp mem))
    rw [Part.share, if_pos inside, Part.onsets, List.length_map, List.length_range]
  rw [schedule_eq, if_neg window, List.length_mergeSort, unmerged_eq, List.length_flatMap, List.map_congr_left shares]
  conv_rhs => rw [← parts.zipIdx_map_fst 0, List.map_map]
  rfl

end Score

namespace Document

section Limits
variable {ν α : Type} [Number α]

theorem lt_of_orDefault [Datum ν] {limit standard n : ℕ} {field : Option ν}
    (h : orDefault (countBelow limit) standard field = some n) (usual : standard < limit) : n < limit := by
  cases field with
  | none => exact Option.some.inj h ▸ usual
  | some v => exact of_decide_eq_true (Option.filter_eq_some_iff.mp h).2

theorem rate_of_config? [Datum ν] {v : ν} {c : Config α} (h : config? v = some c) : c.rate < 2 ^ 32 := by
  obtain ⟨fields, -, h⟩ := Option.bind_eq_some_iff.mp h
  split at h
  · obtain ⟨rate, read, h⟩ := Option.bind_eq_some_iff.mp h
    obtain ⟨_, -, _, -, _, -, _, -, _, -, _, -, rfl⟩ := by simpa [Option.bind_eq_some_iff] using h
    exact lt_of_orDefault read (by decide : Audio.Renderer.defaultRate < 2 ^ 32)
  · cases h

theorem rate_of_readConfig? {text : String} {c : Config α} (h : readConfig? text = some c) : c.rate < 2 ^ 32 := by
  obtain ⟨raw, read, eq⟩ := Option.bind_eq_some_iff.mp h
  obtain ⟨v, -, read⟩ := Option.bind_eq_some_iff.mp read
  split at read
  · cases read
  · have small := rate_of_config? read
    obtain rfl := Option.some.inj eq
    change (if raw.rate = 0 then _ else raw.rate) < 2 ^ 32
    split_ifs
    · exact (by decide : Audio.Renderer.defaultRate < 2 ^ 32)
    · exact small

end Limits

end Document

namespace Session
open Audio Device Doubles
variable {σ : Type} [Silence σ]

section Lengths
variable {d : Float} {k : ℕ} (finite : isFinite d = true) (positive : lt 0 d = true)

include finite in
theorem le_window : le d (d + epsilon) = true :=
  le_add_of_nonneg finite (by decide +kernel) (by decide +kernel)

include finite positive in
theorem window_nonneg : le (Number.ofNat 0) (d + epsilon) = true :=
  Doubles.le_trans (Ordered.le_of_lt positive) (le_window finite)

include finite in
theorem window_le (short : le d (Number.ofNat (2 ^ 29)) = true) : le (d + epsilon) (Number.ofNat (2 ^ 30)) = true := by
  have rounded : le (Number.ofNat (2 ^ 29) + epsilon : Float) (Number.ofNat (2 ^ 30)) = true := by decide +kernel
  have slack : le (epsilon : Float) epsilon = true := by decide +kernel
  exact Doubles.le_trans (sum_le short slack finite ((Doubles.le_iff _ _).mp rounded).1) rounded

variable {rate : ℕ} (some : 0 < rate) (small : rate < 2 ^ 32)

include positive some in
theorem product_nonneg : le (Number.ofNat 0) (d * Number.ofNat rate) = true :=
  Doubles.mul_nonneg (Ordered.le_of_lt positive) (Ordered.ofNat_pos some) (Or.inr positive)

include positive some in
theorem frames_exact_iff : Counts (1 / 2) (d * Number.ofNat rate) (roundToNat (d * Number.ofNat rate)) ↔
    Below (d * Number.ofNat rate) (2 ^ 64 - 1 / 2) := by
  have nonneg := product_nonneg positive some
  rw [roundToNat_eq_taken nonneg, counts_taken_iff nonneg (by norm_num)]

include positive some in
theorem frames_lt_iff {n : ℕ} (fits : n ≤ Binary64.countLimit) :
    roundToNat (d * Number.ofNat rate) < n ↔ Below (d * Number.ofNat rate) (n - 1 / 2) := by
  have nonneg := product_nonneg positive some
  rw [roundToNat_eq_taken nonneg, taken_lt_iff nonneg (by norm_num) fits]

include positive some in
theorem frames_fit_iff : 4 * roundToNat (d * Number.ofNat rate) < 2 ^ 63 ↔
    Below (d * Number.ofNat rate) (2 ^ 61 - 1 / 2) := by
  have below := frames_lt_iff positive some (by decide : 2 ^ 61 ≤ Binary64.countLimit)
  rw [Nat.cast_pow, Nat.cast_ofNat] at below
  rw [← below]
  omega

include some small in
theorem frames_not_below (high : k ≤ 1023) (long : le (Number.ofNat (2 ^ k)) d = true) {limit : ℚ}
    (least : limit ≤ 2 ^ k) : ¬Below (d * Number.ofNat rate) limit :=
  not_below_of_le high (le_mul_count high some (small.trans (by norm_num)) long) least

include positive some small in
theorem frames_lt (short : le d (Number.ofNat (2 ^ 29)) = true) : roundToNat (d * Number.ofNat rate) < 2 ^ 61 := by
  have power : Holds (Number.ofNat (2 ^ 29)) (2 ^ 29) := holds_pow_two (by norm_num)
  have count : Holds (Number.ofNat rate) rate := holds_ofNat (small.trans (by norm_num))
  have scaled : le (d * Number.ofNat rate) (Number.ofNat (2 ^ 29) * Number.ofNat rate) = true :=
    Doubles.mul_le (Ordered.le_of_lt positive) short (Ordered.ofNat_pos some) (Or.inr positive)
  have greatest : le (Number.ofNat (2 ^ 29) * Number.ofNat rate : Float) (Number.ofNat (2 ^ 61 - 2 ^ 29)) = true := by
    refine ((power.mul count).le_iff (ranks_ofNat _)).mpr (code_le (by positivity) ?_)
    have most : (rate : ℚ) ≤ 2 ^ 32 - 1 := by
      have next : rate + 1 ≤ 2 ^ 32 := small
      rw [le_sub_iff_add_le]
      exact_mod_cast next
    norm_num
    linarith
  calc roundToNat (d * Number.ofNat rate) ≤ roundToNat (Number.ofNat (2 ^ 61 - 2 ^ 29) : Float) :=
        Doubles.roundToNat_le (product_nonneg positive some) (Doubles.le_trans scaled greatest)
    _ < 2 ^ 61 := by decide +kernel

end Lengths

structure Paced (p : Float) : Prop where
  finite : isFinite p = true
  low : le 0.1 p = true
  high : le p Number.tau = true

theorem Reachable.paced {s : Session Float} (h : Reachable σ s) {part : VoicedPart Float}
    (mem : part ∈ s.score.parts) : Paced part.period := by
  obtain ⟨i, there, played⟩ := instrument_of_part h.placed mem
  obtain ⟨finite, low, high⟩ := (h.tuned i (List.mem_of_getElem? there)).period _ played.period
  exact ⟨finite, low, high⟩

namespace Paced
variable {d p : Float} {k : ℕ} (h : Paced p) (finite : isFinite d = true) (positive : lt 0 d = true)
include h

theorem schedulable : (isFinite p && le minPeriod p) = true := Bool.and_eq_true_iff.mpr ⟨h.finite, h.low⟩

theorem pos : lt (Number.ofNat 0) p = true :=
  Doubles.pos_of_le (by decide +kernel : lt (Number.ofNat 0) (0.1 : Float) = true) h.low

include finite positive

theorem quotient_nonneg : le (Number.ofNat 0) ((d + epsilon) / p) = true :=
  Doubles.div_nonneg (window_nonneg finite positive) h.pos h.finite

theorem onsetCount_eq : onsetCount d p = taken 0 ((d + epsilon) / p) :=
  truncToNat_eq_taken (h.quotient_nonneg finite positive)

theorem counts_iff : Counts 0 ((d + epsilon) / p) (onsetCount d p) ↔ Below ((d + epsilon) / p) (2 ^ 64) := by
  rw [h.onsetCount_eq finite positive, counts_taken_iff (h.quotient_nonneg finite positive) le_rfl, sub_zero]

theorem count_lt_iff {n : ℕ} (small : n ≤ Binary64.countLimit) :
    onsetCount d p < n ↔ Below ((d + epsilon) / p) n := by
  rw [h.onsetCount_eq finite positive, taken_lt_iff (h.quotient_nonneg finite positive) le_rfl small, sub_zero]

theorem onsets_fit_iff :
    24 * onsetCount d p < 2 ^ 63 ↔ Below ((d + epsilon) / p) (2 ^ 63 / 24 + 1 : ℕ) := by
  rw [← h.count_lt_iff finite positive (by decide)]
  omega

theorem below_of_short (short : le d (Number.ofNat (2 ^ 29)) = true) : Below ((d + epsilon) / p) (2 ^ 35) := by
  obtain ⟨r, holds, least, -⟩ := holds_period h.finite h.low h.high
  have quotient := div_period_le holds h.pos (by norm_num) least (window_nonneg finite positive)
    (window_le finite short)
  obtain ⟨bounded, value⟩ := value_le_of_le (by norm_num) (h.quotient_nonneg finite positive) quotient
  exact ⟨bounded, value.trans_lt (by norm_num)⟩

theorem count_le_of_short (short : le d (Number.ofNat (2 ^ 29)) = true) : onsetCount d p ≤ 2 ^ 35 := by
  refine ((h.count_lt_iff finite positive (by decide)).mpr ?_).le
  rw [Nat.cast_pow, Nat.cast_ofNat]
  exact h.below_of_short finite positive short

omit positive in
theorem not_below_of_long (high : k + 3 ≤ 1023) (long : le (Number.ofNat (2 ^ (k + 3))) d = true) {limit : ℚ}
    (small : limit ≤ 2 ^ k) : ¬Below ((d + epsilon) / p) limit := by
  obtain ⟨r, holds, least, most⟩ := holds_period h.finite h.low h.high
  have window := Doubles.le_trans long (le_window finite)
  have quotient := le_div_period holds h.pos high (by linarith) most window
  exact not_below_of_le (by omega) quotient small

end Paced

theorem parts_length_le (s : Session Float) : s.score.parts.length ≤ s.instruments.length := by
  have shorter := (ids_scheduleInput s).length_le
  rwa [List.length_map, List.length_map, scheduleInput, List.length_map] at shorter

theorem Reachable.length_schedule {s : Session Float} (h : Reachable σ s) (finite : isFinite s.score.duration = true)
    (positive : lt 0 s.score.duration = true) :
    (schedule s.score.scheduleInput s.score.duration).length =
      (s.score.parts.map fun part => onsetCount s.score.duration part.period).sum := by
  rw [Score.length_schedule finite positive ?_, scheduleInput, List.map_map]
  · rfl
  · intro part mem
    obtain ⟨voiced, inside, rfl⟩ := List.mem_map.mp mem
    exact (h.paced inside).schedulable

/-- A session that is built from a file and used in any way counts its frames and onsets exactly as long as the doubles
    they are made from lie below `2 ^ 64`, or half a frame less, and has to find less than `2 ^ 63` bytes, four for a
    sample and 24 for an onset, as long as they lie below a smaller limit. Both is so for at most `2 ^ 29` seconds, at
    any rate and with any periods. From `2 ^ 62` seconds on the memory is too large, and from `2 ^ 67` seconds on no
    count is exact. -/
theorem counts_exact_iff {text : String} {c : Config Float} (read : Document.readConfig? text = some c)
    (actions : List (Action Float σ)) :
    let s := actions.foldl perform (ofConfig c)
    let frames := totalFrames s.renderer.rate s.score
    let onsets := schedule s.score.scheduleInput s.score.duration
    let count := fun part : VoicedPart Float => onsetCount s.score.duration part.period
    let product := c.duration * Number.ofNat c.rate
    let quotient := fun part : VoicedPart Float => (c.duration + epsilon) / part.period
    (Counts (1 / 2) product frames ↔ Below product (2 ^ 64 - 1 / 2)) ∧
    (4 * frames < 2 ^ 63 ↔ Below product (2 ^ 61 - 1 / 2)) ∧
    s.score.parts.length ≤ channelCount ∧ onsets.length = (s.score.parts.map count).sum ∧
    (∀ part ∈ s.score.parts, (Counts 0 (quotient part) (count part) ↔ Below (quotient part) (2 ^ 64)) ∧
      (24 * count part < 2 ^ 63 ↔ Below (quotient part) (2 ^ 63 / 24 + 1 : ℕ))) ∧
    (le c.duration (Number.ofNat (2 ^ 29)) = true →
      Counts (1 / 2) product frames ∧ 4 * frames < 2 ^ 63 ∧
        (∀ part ∈ s.score.parts, Counts 0 (quotient part) (count part)) ∧ 24 * onsets.length < 2 ^ 63) ∧
    (le (Number.ofNat (2 ^ 62)) c.duration = true →
      2 ^ 63 ≤ 4 * frames ∧ ∀ part ∈ s.score.parts, 2 ^ 63 ≤ 24 * count part) ∧
    (le (Number.ofNat (2 ^ 67)) c.duration = true →
      ¬Counts (1 / 2) product frames ∧ ∀ part ∈ s.score.parts, ¬Counts 0 (quotient part) (count part)) := by
  intro s frames onsets count product quotient
  obtain ⟨raw, rfl⟩ := Document.readConfig?_sanitized read
  obtain ⟨some, finite, positive, slots, -, -⟩ := raw.clean_sanitized
  set c := raw.sanitized
  have small : c.rate < 2 ^ 32 := Document.rate_of_readConfig? read
  have reachable : Reachable σ s := reachable_ofConfig c actions
  obtain ⟨kept, length, rate⟩ : s.duration = c.duration ∧ s.instruments.length = (ofConfig c).instruments.length ∧
      s.renderer.rate = c.rate := run_kept (ofConfig c) actions
  have duration : s.score.duration = c.duration := (score_duration s).trans kept
  have frames_eq : frames = roundToNat product := by
    change roundToNat (s.score.duration * Number.ofNat s.renderer.rate) = _
    rw [duration, rate]
  have count_eq : ∀ part, count part = onsetCount c.duration part.period := fun part => by rw [← duration]
  have paced : ∀ part ∈ s.score.parts, Paced part.period := fun _ mem => reachable.paced mem
  have most : s.score.parts.length ≤ channelCount := by
    refine (parts_length_le s).trans (length.le.trans ?_)
    change ((List.range c.instrumentCount).map Instrument.new).length ≤ _
    rw [List.length_map, List.length_range]
    exact slots.2
  have total : onsets.length = (s.score.parts.map count).sum :=
    reachable.length_schedule (duration ▸ finite) (duration ▸ positive)
  have exact_frames := frames_exact_iff positive some
  have small_frames := frames_fit_iff positive some
  rw [frames_eq]
  refine ⟨exact_frames, small_frames, most, total, ?_, ?_, ?_, ?_⟩
  · intro part mem
    rw [count_eq]
    exact ⟨(paced part mem).counts_iff finite positive, (paced part mem).onsets_fit_iff finite positive⟩
  · intro short
    have few : roundToNat product < 2 ^ 61 := frames_lt positive some small short
    have counts : ∀ n ∈ s.score.parts.map count, n ≤ 2 ^ 35 := by
      intro n mem
      obtain ⟨part, inside, rfl⟩ := List.mem_map.mp mem
      rw [count_eq]
      exact (paced part inside).count_le_of_short finite positive short
    have all := List.sum_le_card_nsmul _ _ counts
    rw [← total, List.length_map, smul_eq_mul] at all
    have channels : channelCount = 16 := rfl
    have fits : 4 * roundToNat product < 2 ^ 63 := by omega
    refine ⟨exact_frames.mpr ((small_frames.mp fits).mono (by norm_num)), fits, fun part mem => ?_, by omega⟩
    rw [count_eq]
    refine ((paced part mem).counts_iff finite positive).mpr ?_
    exact ((paced part mem).below_of_short finite positive short).mono (by norm_num)
  · intro long
    refine ⟨not_lt.mp (small_frames.not.mpr ?_), fun part mem => ?_⟩
    · exact frames_not_below some small (by norm_num) long (by norm_num)
    · rw [count_eq]
      refine not_lt.mp (((paced part mem).onsets_fit_iff finite positive).not.mpr ?_)
      exact (paced part mem).not_below_of_long finite (by norm_num) long (by norm_num)
  · intro long
    refine ⟨exact_frames.not.mpr ?_, fun part mem => ?_⟩
    · exact frames_not_below some small (by norm_num) long (by norm_num)
    · rw [count_eq]
      refine ((paced part mem).counts_iff finite positive).not.mpr ?_
      exact (paced part mem).not_below_of_long finite (by norm_num) long (by norm_num)

/-- A file may ask for `10 ^ 300` seconds. -/
theorem endless_duration_fills_counts :
    let text := "duration_secs: 1e300\n"
    let c : Config Float := (Document.readConfig? text).getD .default
    let actions : List (Action Float Sample) := [.setFormula 0 "x", .setPeriod 0 "2", .setEnabled 0 true, .flush]
    let s := actions.foldl perform (ofConfig c)
    let frames := totalFrames s.renderer.rate s.score
    Document.readConfig? text = some c ∧ s.score.parts.map (·.id) = [0] ∧ 2 ^ 63 ≤ 4 * frames ∧
      ¬Counts (1 / 2) (c.duration * Number.ofNat c.rate) frames ∧
      ∀ part ∈ s.score.parts, 2 ^ 63 ≤ 24 * onsetCount s.score.duration part.period := by
  intro text c actions s frames
  have something : (Document.readConfig? text : Option (Config Float)).isSome = true := by decide +kernel
  have read : Document.readConfig? text = some c := by
    obtain ⟨d, eq⟩ := Option.isSome_iff_exists.mp something
    rw [eq]
    exact congrArg some (congrArg (Option.getD · Config.default) eq).symm
  obtain ⟨-, -, -, -, -, -, large, inexact⟩ := counts_exact_iff (σ := Sample) read actions
  have long : le (Number.ofNat (2 ^ 62)) c.duration = true := by decide +kernel
  have longer : le (Number.ofNat (2 ^ 67)) c.duration = true := by decide +kernel
  exact ⟨read, by decide +kernel, (large long).1, (inexact longer).1, (large long).2⟩

end Session
end FormulaSynth
