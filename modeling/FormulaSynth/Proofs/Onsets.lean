import FormulaSynth.Proofs.Exact
import FormulaSynth.Score.Schedule

set_option autoImplicit false
namespace FormulaSynth.Score
open Number Exact

section Lists
variable {β : Type}

theorem not_both_orders {l : List β} {a b : β} (nodup : l.Nodup) (ab : [a, b].Sublist l)
    (ba : [b, a].Sublist l) : False := by
  induction l with
  | nil => cases ab
  | cons c l ih =>
    have fresh := (List.nodup_cons.mp nodup).1
    cases ab with
    | cons _ ab =>
      cases ba with
      | cons _ ba => exact ih (List.nodup_cons.mp nodup).2 ab ba
      | cons_cons _ ba => exact fresh (ab.subset (by simp))
    | cons_cons _ ab =>
      cases ba with
      | cons _ ba => exact fresh (ba.subset (by simp))
      | cons_cons _ ba => exact fresh (List.singleton_sublist.mp ab)

theorem ordered_of_mem {l : List β} {a b : β} (ha : a ∈ l) (hb : b ∈ l) (ne : a ≠ b) :
    [a, b].Sublist l ∨ [b, a].Sublist l := by
  induction l with
  | nil => cases ha
  | cons c l ih =>
    rcases List.mem_cons.mp ha with rfl | ha
    · left
      have hb := (List.mem_cons.mp hb).resolve_left (Ne.symm ne)
      exact (List.singleton_sublist.mpr hb).cons_cons a
    · rcases List.mem_cons.mp hb with eq | hb
      · right
        rw [eq]
        exact (List.singleton_sublist.mpr ha).cons_cons c
      · rcases ih ha hb with h | h
        · left
          exact h.cons c
        · right
          exact h.cons c

noncomputable def byKey (key : β → ℝ) (a b : β) : Bool :=
  decide (key a ≤ key b)

theorem byKey_iff {key : β → ℝ} {a b : β} : byKey key a b = true ↔ key a ≤ key b :=
  decide_eq_true_iff

theorem byKey_trans (key : β → ℝ) (a b c : β) (ab : byKey key a b = true) (bc : byKey key b c = true) :
    byKey key a c = true := by
  rw [byKey_iff] at *
  exact ab.trans bc

theorem byKey_total (key : β → ℝ) (a b : β) : (byKey key a b || byKey key b a) = true := by
  rw [Bool.or_eq_true, byKey_iff, byKey_iff]
  exact le_total (key a) (key b)

variable {key : β → ℝ} {le : β → β → Bool} {l : List β}

theorem mergeSort_by_key (agrees : ∀ a ∈ l, ∀ b ∈ l, (le a b = true ↔ key a ≤ key b)) :
    l.mergeSort le = l.mergeSort (byKey key) := by
  have same : ∀ a ∈ l, ∀ b ∈ l, le a b = byKey key (id a) (id b) := by
    intro a ha b hb
    rw [Bool.eq_iff_iff, agrees a ha b hb, byKey_iff, id, id]
  have mapped := List.map_mergeSort same
  rw [List.map_id, List.map_id] at mapped
  exact mapped

theorem pairwise_mergeSort_stable {before : β → β → Prop} (irrefl : ∀ a, ¬before a a)
    (ordered : l.Pairwise before) :
    (l.mergeSort (byKey key)).Pairwise fun a b => key a < key b ∨ key a = key b ∧ before a b := by
  have perm := List.mergeSort_perm l (byKey key)
  have nodup : (l.mergeSort (byKey key)).Nodup := by
    rw [perm.nodup_iff]
    refine ordered.imp ?_
    rintro a _ h rfl
    exact irrefl a h
  have sorted := List.pairwise_mergeSort (byKey_trans key) (byKey_total key) l
  rw [List.pairwise_iff_forall_sublist] at sorted ordered ⊢
  intro a b ab
  rcases (byKey_iff.mp (sorted ab)).lt_or_eq with lt | eq
  · exact Or.inl lt
  · right
    refine ⟨eq, ?_⟩
    have ha : a ∈ l := perm.mem_iff.mp (ab.subset (by simp))
    have hb : b ∈ l := perm.mem_iff.mp (ab.subset (by simp))
    have ne : a ≠ b := by
      rintro rfl
      exact List.nodup_iff_sublist.mp nodup a ab
    rcases ordered_of_mem ha hb ne with h | h
    · exact ordered h
    · have ba := List.pair_sublist_mergeSort (byKey_trans key) (byKey_total key) (byKey_iff.mpr eq.ge) h
      exact (not_both_orders nodup ab ba).elim

end Lists
variable {α : Type} [Number α]

def unmerged (parts : List (Part α)) (duration : α) : List (Onset α) :=
  (activeParts parts).flatMap fun (part, index) => part.onsets index duration

theorem activeParts_ascending (parts : List (Part α)) :
    (activeParts parts).Pairwise fun a b => a.2 < b.2 := by
  have places : (parts.zipIdx.map Prod.snd).Pairwise (· < ·) := by
    rw [List.zipIdx_map_snd]
    exact List.pairwise_lt_range'
  exact (List.pairwise_map.mp places).filter _

theorem index_of_mem_onsets {part : Part α} {index : ℕ} {duration : α} {onset : Onset α}
    (h : onset ∈ part.onsets index duration) : onset.index = index := by
  obtain ⟨k, -, rfl⟩ := List.mem_map.mp h
  rfl

theorem index_eq_of_single {parts : List (Part α)} {duration : α} (single : (activeParts parts).length ≤ 1)
    {a b : Onset α} (ha : a ∈ unmerged parts duration) (hb : b ∈ unmerged parts duration) :
    a.index = b.index := by
  obtain ⟨p, hp, ha⟩ := List.mem_flatMap.mp ha
  obtain ⟨q, hq, hb⟩ := List.mem_flatMap.mp hb
  obtain ⟨i, hi, rfl⟩ := List.getElem_of_mem hp
  obtain ⟨j, hj, rfl⟩ := List.getElem_of_mem hq
  have ij : i = j := by omega
  subst ij
  rw [index_of_mem_onsets ha, index_of_mem_onsets hb]

variable [Exact α]

theorem stands_epsilon : Stands value (epsilon : α) (Binary64.mk 0x3e112e0be826d695).toReal :=
  stands_decimal (by decide +kernel) (by decide +kernel)

theorem stands_minPeriod : Stands value (minPeriod : α) (Binary64.mk 0x3fb999999999999a).toReal :=
  stands_decimal (by decide +kernel) (by decide +kernel)

theorem minPeriod_pos : 0 < value (minPeriod : α) :=
  pos_of_pattern stands_minPeriod (by decide +kernel) (by decide +kernel)

theorem epsilon_pos : 0 < value (epsilon : α) :=
  pos_of_pattern stands_epsilon (by decide +kernel) (by decide +kernel)

def Part.Sounds (part : Part α) : Prop :=
  isFinite part.period = true ∧ value (minPeriod : α) ≤ value part.period

theorem Part.Sounds.pos {part : Part α} (h : part.Sounds) : 0 < value part.period :=
  minPeriod_pos.trans_le h.2

theorem isSchedulable_iff (part : Part α) : part.isSchedulable = true ↔ part.Sounds := by
  rw [Part.isSchedulable, Bool.and_eq_true]
  refine and_congr_right fun finite => ?_
  have least := Exact.stands (stands_minPeriod (α := α)).finite
  exact Exact.le_iff least (Exact.stands finite)

theorem stands_time (k : ℕ) {part : Part α} (h : part.Sounds) :
    Stands value (Number.ofNat k * part.period) (k * value part.period) :=
  Exact.mul (Exact.ofNat k) (Exact.stands h.1)

/-- The window is closed at its end, and a little wider than asked. -/
def Fits (k : ℕ) (period duration : α) : Prop :=
  1 ≤ k ∧ k * value period ≤ value duration + value (epsilon : α)

theorem lt_onsetCount_iff {part : Part α} {duration : α} (h : part.Sounds) (finite : isFinite duration = true)
    (nonneg : 0 ≤ value duration) (k : ℕ) :
    k < onsetCount duration part.period ↔ Fits (k + 1) part.period duration := by
  have length := Exact.add (Exact.stands finite) (Exact.stands (stands_epsilon (α := α)).finite)
  have ratio := Exact.div length (Exact.stands h.1) h.pos.ne'
  have positive : 0 ≤ (value duration + value (epsilon : α)) / value part.period :=
    div_nonneg (add_nonneg nonneg epsilon_pos.le) h.pos.le
  rw [onsetCount, Exact.truncToNat ratio, ← Nat.succ_le_iff, Nat.le_floor_iff positive, le_div_iff₀ h.pos]
  exact (and_iff_right (Nat.succ_le_succ (Nat.zero_le k))).symm

theorem mem_onsets_iff {part : Part α} {duration : α} (h : part.Sounds) (finite : isFinite duration = true)
    (nonneg : 0 ≤ value duration) (index : ℕ) (onset : Onset α) :
    onset ∈ part.onsets index duration ↔
      ∃ k, Fits k part.period duration ∧ onset = ⟨part.id, index, Number.ofNat k * part.period⟩ := by
  rw [Part.onsets, List.mem_map]
  constructor
  · rintro ⟨k, hk, rfl⟩
    have fits := (lt_onsetCount_iff h finite nonneg k).mp (List.mem_range.mp hk)
    exact ⟨k + 1, fits, rfl⟩
  · rintro ⟨k, fits, rfl⟩
    obtain ⟨j, rfl⟩ := Nat.exists_eq_add_of_le' fits.1
    exact ⟨j, List.mem_range.mpr ((lt_onsetCount_iff h finite nonneg j).mpr fits), rfl⟩

theorem mem_activeParts_iff (parts : List (Part α)) (part : Part α) (index : ℕ) :
    (part, index) ∈ activeParts parts ↔ parts[index]? = some part ∧ part.Sounds := by
  rw [activeParts, List.mem_filter, List.mk_mem_zipIdx_iff_getElem?, isSchedulable_iff]

/-- The onset is one of those the parts have in the window. -/
def Due (parts : List (Part α)) (duration : α) (onset : Onset α) : Prop :=
  ∃ part index k, parts[index]? = some part ∧ part.Sounds ∧ Fits k part.period duration ∧
    onset = ⟨part.id, index, Number.ofNat k * part.period⟩

theorem mem_unmerged_iff {parts : List (Part α)} {duration : α} (finite : isFinite duration = true)
    (nonneg : 0 ≤ value duration) (onset : Onset α) :
    onset ∈ unmerged parts duration ↔ Due parts duration onset := by
  rw [unmerged, List.mem_flatMap]
  constructor
  · rintro ⟨⟨part, index⟩, active, mem⟩
    obtain ⟨place, sounds⟩ := (mem_activeParts_iff parts part index).mp active
    obtain ⟨k, fits, rfl⟩ := (mem_onsets_iff sounds finite nonneg index onset).mp mem
    exact ⟨part, index, k, place, sounds, fits, rfl⟩
  · rintro ⟨part, index, k, place, sounds, fits, rfl⟩
    refine ⟨(part, index), (mem_activeParts_iff parts part index).mpr ⟨place, sounds⟩, ?_⟩
    exact (mem_onsets_iff sounds finite nonneg index _).mpr ⟨k, fits, rfl⟩

theorem Due.finite {parts : List (Part α)} {duration : α} {onset : Onset α} (h : Due parts duration onset) :
    isFinite onset.time = true := by
  obtain ⟨part, index, k, -, sounds, -, rfl⟩ := h
  exact (stands_time k sounds).finite

def Listed (a b : Onset α) : Prop :=
  a.index < b.index ∨ a.index = b.index ∧ value a.time < value b.time

theorem onsets_listed {part : Part α} (h : part.Sounds) (index : ℕ) (duration : α) :
    (part.onsets index duration).Pairwise Listed := by
  rw [Part.onsets, List.pairwise_map]
  refine List.pairwise_lt_range.imp ?_
  intro j k hjk
  have later : (j + 1 : ℕ) * value part.period < (k + 1 : ℕ) * value part.period := by
    have cast : ((j + 1 : ℕ) : ℝ) < (k + 1 : ℕ) := by
      exact_mod_cast Nat.succ_lt_succ hjk
    exact mul_lt_mul_of_pos_right cast h.pos
  right
  refine ⟨rfl, ?_⟩
  rw [(stands_time (j + 1) h).value_eq, (stands_time (k + 1) h).value_eq]
  exact later

theorem unmerged_listed (parts : List (Part α)) (duration : α) :
    (unmerged parts duration).Pairwise Listed := by
  rw [unmerged, List.pairwise_flatMap]
  constructor
  · rintro ⟨part, index⟩ active
    exact onsets_listed ((mem_activeParts_iff parts part index).mp active).2 index duration
  · refine (activeParts_ascending parts).imp ?_
    rintro ⟨first, i⟩ ⟨second, j⟩ hij a ha b hb
    left
    rw [index_of_mem_onsets ha, index_of_mem_onsets hb]
    exact hij

theorem listed_irrefl (a : Onset α) : ¬Listed a a := by
  rintro (h | ⟨-, h⟩)
  · exact lt_irrefl _ h
  · exact lt_irrefl _ h

/-- The order of a schedule. -/
def Precedes (a b : Onset α) : Prop :=
  value a.time < value b.time ∨ value a.time = value b.time ∧ a.index < b.index

theorem earlier_iff_of_due {parts : List (Part α)} {duration : α} {a b : Onset α} (ha : Due parts duration a)
    (hb : Due parts duration b) : earlier a b = true ↔ value a.time ≤ value b.time :=
  Exact.le_iff (Exact.stands ha.finite) (Exact.stands hb.finite)

theorem earlier_eq_byKey (parts : List (Part α)) {duration : α} (finite : isFinite duration = true)
    (nonneg : 0 ≤ value duration) :
    (unmerged parts duration).mergeSort earlier =
      (unmerged parts duration).mergeSort (byKey fun onset => value onset.time) := by
  refine mergeSort_by_key ?_
  intro a ha b hb
  exact earlier_iff_of_due ((mem_unmerged_iff finite nonneg a).mp ha) ((mem_unmerged_iff finite nonneg b).mp hb)

theorem mergeSort_single {parts : List (Part α)} {duration : α} (finite : isFinite duration = true)
    (nonneg : 0 ≤ value duration) (single : (activeParts parts).length ≤ 1) :
    (unmerged parts duration).mergeSort earlier = unmerged parts duration := by
  refine List.mergeSort_of_pairwise ?_
  refine (unmerged_listed parts duration).imp_of_mem ?_
  intro a b ha hb listed
  have due (onset : Onset α) : onset ∈ unmerged parts duration ↔ Due parts duration onset :=
    mem_unmerged_iff finite nonneg onset
  rw [earlier_iff_of_due ((due a).mp ha) ((due b).mp hb)]
  rcases listed with index | ⟨-, time⟩
  · exact absurd (index_eq_of_single single ha hb) index.ne
  · exact time.le

theorem schedule_eq_mergeSort (parts : List (Part α)) {duration : α} (finite : isFinite duration = true)
    (positive : 0 < value duration) :
    schedule parts duration = (unmerged parts duration).mergeSort earlier := by
  have nonzero : le duration 0 = false := by
    rw [Bool.eq_false_iff, Ne, Exact.le_iff (Exact.stands finite) Exact.stands_zero]
    exact positive.not_ge
  simp only [schedule, finite, nonzero, Bool.not_true, Bool.or_self, Bool.false_eq_true, if_false]
  split
  · rfl
  · rename_i single
    exact (mergeSort_single finite positive.le (Nat.le_of_not_lt single)).symm

theorem schedule_eq_nil (parts : List (Part α)) {duration : α}
    (empty : ¬(isFinite duration = true ∧ 0 < value duration)) : schedule parts duration = [] := by
  refine if_pos ?_
  by_cases finite : isFinite duration = true
  · have past : le duration 0 = true := by
      rw [Exact.le_iff (Exact.stands finite) Exact.stands_zero]
      exact not_lt.mp fun positive => empty ⟨finite, positive⟩
    rw [past, Bool.or_true]
  · rw [Bool.eq_false_iff.mpr finite, Bool.not_false, Bool.true_or]

/-- Whatever ran before, an empty window holds no onset, and any other one holds those that are due, each of
    them once, by time and then by place. This is what sorting them all gives, also where the sort is left
    out. -/
theorem run_onsets_merge (s : Scheduler α) (parts : List (Part α)) (duration : α) :
    (¬(isFinite duration = true ∧ 0 < value duration) → (s.run parts duration).onsets = []) ∧
    (isFinite duration = true ∧ 0 < value duration →
      (∀ onset, onset ∈ (s.run parts duration).onsets ↔ Due parts duration onset) ∧
      (s.run parts duration).onsets.Nodup ∧
      (s.run parts duration).onsets.Pairwise Precedes ∧
      (s.run parts duration).onsets = (unmerged parts duration).mergeSort earlier) := by
  rw [Scheduler.run_onsets]
  refine ⟨schedule_eq_nil parts, ?_⟩
  rintro ⟨finite, positive⟩
  have merged := schedule_eq_mergeSort parts finite positive
  have ordered : (schedule parts duration).Pairwise Precedes := by
    rw [merged, earlier_eq_byKey parts finite positive.le]
    refine (pairwise_mergeSort_stable listed_irrefl (unmerged_listed parts duration)).imp ?_
    rintro a b (time | ⟨time, index | ⟨-, later⟩⟩)
    · exact Or.inl time
    · exact Or.inr ⟨time, index⟩
    · exact absurd time later.ne
  refine ⟨?_, ?_, ordered, merged⟩
  · intro onset
    rw [merged, List.mem_mergeSort]
    exact mem_unmerged_iff finite positive.le onset
  · refine ordered.imp ?_
    rintro a _ (time | ⟨-, index⟩) rfl
    · exact lt_irrefl _ time
    · exact lt_irrefl _ index

theorem minPeriod_le_one : value (minPeriod : α) ≤ 1 := by
  rw [stands_minPeriod.value_eq]
  have positive : (Binary64.mk 0x3fb999999999999a).isNegative = false := by decide +kernel
  have significand : (Binary64.mk 0x3fb999999999999a).significand = 0x1999999999999a := by decide +kernel
  have exponent : (Binary64.mk 0x3fb999999999999a).exponent = -56 := by decide +kernel
  rw [Binary64.toReal, positive, significand, exponent]
  norm_num

/-- A part whose period is not a number is skipped, and the part behind it keeps its place. -/
theorem run_onsets_merge_behind_nan :
    let line : Formula.Program := ⟨#[.arg], #[], [], 1⟩
    let parts : List (Part Ideal) := [⟨0, line, .nan⟩, ⟨7, line, .real 1⟩]
    let one : Ideal := .real 1
    let onset : Onset Ideal := ⟨7, 1, Number.ofNat 1 * one⟩
    (¬(isFinite Ideal.nan = true ∧ 0 < value Ideal.nan) ∧ (Scheduler.new.run parts .nan).onsets = []) ∧
    (isFinite one = true ∧ 0 < value one) ∧ onset ∈ ((⟨[onset, onset]⟩ : Scheduler Ideal).run parts one).onsets ∧
      (∀ other ∈ (Scheduler.new.run parts one).onsets, other.index = 1) ∧
      (Scheduler.new.run parts one).onsets.Pairwise Precedes := by
  intro line parts one onset
  have infinite : ¬(isFinite Ideal.nan = true ∧ 0 < value Ideal.nan) := fun h => Bool.false_ne_true h.1
  have window : isFinite one = true ∧ 0 < value one := ⟨rfl, one_pos⟩
  have due : Due parts one onset := by
    refine ⟨⟨7, line, one⟩, 1, 1, rfl, ⟨rfl, minPeriod_le_one⟩, ⟨le_rfl, ?_⟩, rfl⟩
    change ((1 : ℕ) : ℝ) * 1 ≤ 1 + value (epsilon : Ideal)
    rw [Nat.cast_one, one_mul]
    exact le_add_of_nonneg_right epsilon_pos.le
  have merged := (run_onsets_merge ⟨[onset, onset]⟩ parts one).2 window
  refine ⟨⟨infinite, (run_onsets_merge .new parts .nan).1 infinite⟩, window, (merged.1 onset).mpr due, ?_, merged.2.2.1⟩
  intro other mem
  obtain ⟨part, index, k, place, sounds, -, rfl⟩ := ((run_onsets_merge .new parts one).2 window).1 other |>.mp mem
  match index, place with
  | 0, place =>
    cases place
    exact absurd sounds.1 Bool.false_ne_true
  | 1, _ => rfl

end FormulaSynth.Score
