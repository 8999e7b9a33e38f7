import FormulaSynth.Proofs.Onsets
import FormulaSynth.Proofs.Ordered

set_option autoImplicit false
namespace FormulaSynth.Score
open Number

section Lists
variable {β γ : Type}

theorem mergeSort_congr {le le' : β → β → Bool} {l : List β} (agrees : ∀ a ∈ l, ∀ b ∈ l, le a b = le' a b) :
    l.mergeSort le = l.mergeSort le' := by
  have same : ∀ a ∈ l, ∀ b ∈ l, le a b = le' (id a) (id b) := agrees
  have mapped := List.map_mergeSort same
  rw [List.map_id, List.map_id] at mapped
  exact mapped

/-- An order in which one can compare only some elements, with all others put before them. -/
noncomputable def among (p : β → Prop) (le : β → β → Bool) (a b : β) : Bool :=
  open Classical in decide (p a → p b ∧ le a b = true)

section Among
variable {p : β → Prop} {le : β → β → Bool} {l : List β}

theorem among_iff {a b : β} : among p le a b = true ↔ (p a → p b ∧ le a b = true) :=
  open Classical in decide_eq_true_iff

theorem among_eq {a b : β} (ha : p a) (hb : p b) : among p le a b = le a b := by
  rw [Bool.eq_iff_iff, among_iff]
  exact ⟨fun h => (h ha).2, fun h _ => ⟨hb, h⟩⟩

theorem among_trans (trans : ∀ a b c, le a b = true → le b c = true → le a c = true) (a b c : β)
    (ab : among p le a b = true) (bc : among p le b c = true) : among p le a c = true := by
  rw [among_iff] at *
  intro ha
  obtain ⟨hb, left⟩ := ab ha
  obtain ⟨hc, right⟩ := bc hb
  exact ⟨hc, trans a b c left right⟩

theorem among_total (total : ∀ a b, p a → p b → le a b = true ∨ le b a = true) (a b : β) :
    (among p le a b || among p le b a) = true := by
  rw [Bool.or_eq_true, among_iff, among_iff]
  by_cases ha : p a
  · by_cases hb : p b
    · exact (total a b ha hb).imp (fun h _ => ⟨hb, h⟩) (fun h _ => ⟨ha, h⟩)
    · exact Or.inr fun h => absurd h hb
  · exact Or.inl fun h => absurd h ha

variable (trans : ∀ a b c, le a b = true → le b c = true → le a c = true)
  (total : ∀ a b, p a → p b → le a b = true ∨ le b a = true) (all : ∀ a ∈ l, p a)

include all in
theorem mergeSort_among : l.mergeSort le = l.mergeSort (among p le) :=
  mergeSort_congr fun a ha b hb => (among_eq (all a ha) (all b hb)).symm

include trans total all in
theorem pairwise_mergeSort_among : (l.mergeSort le).Pairwise fun a b => le a b = true := by
  have sorted := List.pairwise_mergeSort (among_trans (p := p) trans) (among_total total) l
  rw [← mergeSort_among all] at sorted
  refine sorted.imp_of_mem ?_
  intro a b ha _ h
  rw [List.mem_mergeSort] at ha
  exact (among_iff.mp h (all a ha)).2

include trans total all in
theorem sublist_mergeSort_among {c : List β} (sorted : c.Pairwise fun a b => le a b = true)
    (sublist : c.Sublist l) : c.Sublist (l.mergeSort le) := by
  rw [mergeSort_among all]
  refine List.sublist_mergeSort (among_trans trans) (among_total total) ?_ sublist
  refine sorted.imp_of_mem ?_
  intro a b _ hb h
  exact among_iff.mpr fun _ => ⟨all b (sublist.subset hb), h⟩

include trans total all in
theorem filter_mergeSort_among {q : β → Bool} (sorted : (l.filter q).Pairwise fun a b => le a b = true) :
    (l.mergeSort le).filter q = l.filter q := by
  have within := (sublist_mergeSort_among trans total all sorted List.filter_sublist).filter q
  rw [List.filter_filter] at within
  simp only [Bool.and_self] at within
  have lengths := ((List.mergeSort_perm l le).filter q).length_eq
  exact (within.eq_of_length lengths.symm).symm

end Among

theorem flatMap_zipIdx_at (f : β → ℕ → List γ) (l : List β) (i k : ℕ) :
    ((l.zipIdx k).flatMap fun (a, j) => if j = k + i then f a j else []) =
      l[i]?.elim [] fun a => f a (k + i) := by
  induction l generalizing i k with
  | nil => rfl
  | cons a l ih =>
    rw [List.zipIdx_cons, List.flatMap_cons]
    cases i with
    | zero =>
      have later : ((l.zipIdx (k + 1)).flatMap fun (a, j) => if j = k + 0 then f a j else []) = [] := by
        rw [List.flatMap_eq_nil_iff]
        rintro ⟨b, j⟩ mem
        have beyond := (List.mem_zipIdx mem).1
        exact if_neg (by omega)
      rw [later, List.append_nil]
      exact if_pos rfl
    | succ i =>
      have shift : k + (i + 1) = k + 1 + i := by omega
      have here : (if k = k + (i + 1) then f a k else []) = [] := if_neg (by omega)
      dsimp only
      rw [here, List.nil_append, shift]
      exact ih i (k + 1)

end Lists

variable {α : Type} [Number α]

theorem mem_activeParts {parts : List (Part α)} {part : Part α} {i : ℕ} :
    (part, i) ∈ activeParts parts ↔ parts[i]? = some part ∧ part.isSchedulable = true := by
  rw [activeParts, List.mem_filter, List.mem_zipIdx_iff_getElem?]

def Part.share (part : Part α) (i : ℕ) (duration : α) : List (Onset α) :=
  if part.isSchedulable then part.onsets i duration else []

theorem share_index (part : Part α) (i : ℕ) (duration : α) :
    part.share i duration = (part.share 0 duration).map fun onset => { onset with index := i } := by
  rw [Part.share, Part.share]
  split_ifs
  · rw [Part.onsets, Part.onsets, List.map_map]
    rfl
  · rfl

theorem unmerged_eq (parts : List (Part α)) (duration : α) :
    unmerged parts duration = parts.zipIdx.flatMap fun (part, j) => part.share j duration := by
  rw [unmerged, activeParts]
  induction parts.zipIdx with
  | nil => rfl
  | cons entry entries ih =>
    obtain ⟨part, j⟩ := entry
    rw [List.filter_cons, List.flatMap_cons, ← ih]
    dsimp only
    rw [Part.share]
    split_ifs
    · rfl
    · rfl

theorem filter_share (part : Part α) (i j : ℕ) (duration : α) :
    (part.share j duration).filter (·.index == i) = if j = i then part.share j duration else [] := by
  have places : ∀ onset ∈ part.share j duration, onset.index = j := by
    intro onset mem
    rw [Part.share] at mem
    split_ifs at mem
    · exact index_of_mem_onsets mem
    · cases mem
  split_ifs with here
  · rw [List.filter_eq_self]
    intro onset mem
    exact beq_iff_eq.mpr ((places onset mem).trans here)
  · rw [List.filter_eq_nil_iff]
    intro onset mem
    rw [beq_iff_eq, places onset mem]
    exact here

theorem filter_unmerged (parts : List (Part α)) (i : ℕ) (duration : α) :
    (unmerged parts duration).filter (·.index == i) = parts[i]?.elim [] fun part => part.share i duration := by
  have at_place := flatMap_zipIdx_at (fun (part : Part α) j => part.share j duration) parts i 0
  rw [Nat.zero_add] at at_place
  rw [unmerged_eq, List.filter_flatMap, ← at_place]
  refine congrArg (fun f => parts.zipIdx.flatMap f) ?_
  funext entry
  exact filter_share entry.1 i entry.2 duration

section Times
variable [Ordered α] {part : Part α}

theorem minPeriod_positive : lt 0 (minPeriod : α) = true :=
  Ordered.zero_lt_decimal (b := ⟨0x3fb999999999999a⟩) (by decide +kernel) (by decide +kernel)
    (by decide +kernel) (by decide +kernel)

theorem period_positive (h : part.isSchedulable = true) : isFinite part.period = true ∧ lt 0 part.period = true := by
  rw [Part.isSchedulable, Bool.and_eq_true] at h
  exact ⟨h.1, Ordered.lt_of_lt_of_le minPeriod_positive h.2⟩

theorem time_le (h : part.isSchedulable = true) {j k : ℕ} (jk : j ≤ k) :
    le (Number.ofNat j * part.period) (Number.ofNat k * part.period) = true := by
  obtain ⟨finite, positive⟩ := period_positive h
  exact Ordered.mul_le (Ordered.zero_le_ofNat j) (Ordered.ofNat_le jk) positive (Or.inl finite)

theorem time_positive (h : part.isSchedulable = true) (k : ℕ) : lt 0 (Number.ofNat (k + 1) * part.period) = true := by
  have positive := (period_positive h).2
  have first := Ordered.le_trans (Ordered.le_one_mul positive) (time_le h (Nat.le_add_left 1 k))
  exact Ordered.lt_of_lt_of_le positive first

/-- What is known of an onset of the schedule. -/
structure Belongs (parts : List (Part α)) (onset : Onset α) (part : Part α) : Prop where
  found : parts[onset.index]? = some part
  id_eq : onset.id = part.id
  positive : lt 0 onset.time = true
  comparable : le onset.time onset.time = true

theorem belongs_of_mem {parts : List (Part α)} {duration : α} {onset : Onset α}
    (mem : onset ∈ unmerged parts duration) : ∃ part, Belongs parts onset part := by
  obtain ⟨⟨part, i⟩, active, mem⟩ := List.mem_flatMap.mp mem
  obtain ⟨found, schedulable⟩ := mem_activeParts.mp active
  obtain ⟨k, -, rfl⟩ := List.mem_map.mp mem
  exact ⟨part, found, rfl, time_positive schedulable k, time_le schedulable le_rfl⟩

theorem share_ascending (part : Part α) (i : ℕ) (duration : α) :
    (part.share i duration).Pairwise fun a b => earlier a b = true := by
  rw [Part.share]
  split_ifs with schedulable
  · rw [Part.onsets, List.pairwise_map]
    exact List.pairwise_lt_range.imp fun less => time_le schedulable (Nat.succ_le_succ less.le)
  · exact List.Pairwise.nil

theorem unmerged_single {parts : List (Part α)} (single : (activeParts parts).length ≤ 1) (duration : α) :
    (unmerged parts duration).Pairwise fun a b => earlier a b = true := by
  rw [unmerged]
  cases active : activeParts parts with
  | nil => exact List.Pairwise.nil
  | cons entry entries =>
    obtain ⟨part, i⟩ := entry
    have schedulable : part.isSchedulable = true :=
      (mem_activeParts.mp (by rw [active]; exact List.mem_cons_self)).2
    have last : entries = [] := by
      rw [active] at single
      exact List.eq_nil_of_length_eq_zero (Nat.le_zero.mp (Nat.le_of_succ_le_succ single))
    have share := share_ascending part i duration
    rw [Part.share, if_pos schedulable] at share
    rw [last, List.flatMap_singleton]
    exact share

theorem schedule_eq (parts : List (Part α)) (duration : α) :
    schedule parts duration =
      if !isFinite duration || le duration 0 then [] else (unmerged parts duration).mergeSort earlier := by
  rw [schedule]
  split_ifs with none
  · rfl
  · dsimp only
    split_ifs with several
    · rfl
    · exact (List.mergeSort_of_pairwise (unmerged_single (Nat.le_of_not_lt several) duration)).symm

theorem schedule_alone {duration : α} (window : ¬(!isFinite duration || le duration 0) = true) :
    schedule [part] duration = part.share 0 duration := by
  have single : (activeParts [part]).length ≤ 1 := List.length_filter_le _ _
  rw [schedule_eq, if_neg window, List.mergeSort_of_pairwise (unmerged_single single duration), unmerged_eq]
  exact List.append_nil _

theorem earlier_trans (a b c : Onset α) (ab : earlier a b = true) (bc : earlier b c = true) : earlier a c = true :=
  Ordered.le_trans ab bc

theorem earlier_total (a b : Onset α) (ha : le a.time a.time = true) (hb : le b.time b.time = true) :
    earlier a b = true ∨ earlier b a = true :=
  Ordered.le_total ha hb

theorem mem_schedule {parts : List (Part α)} {duration : α} {onset : Onset α}
    (mem : onset ∈ schedule parts duration) : ∃ part, Belongs parts onset part := by
  rw [schedule_eq] at mem
  split_ifs at mem
  · cases mem
  · exact belongs_of_mem (List.mem_mergeSort.mp mem)

theorem schedule_ascending (parts : List (Part α)) (duration : α) :
    (schedule parts duration).Pairwise fun a b => earlier a b = true := by
  rw [schedule_eq]
  split_ifs
  · exact List.Pairwise.nil
  · exact pairwise_mergeSort_among (p := fun onset => le onset.time onset.time = true) earlier_trans earlier_total
      fun onset mem => (belongs_of_mem mem).elim fun _ belongs => belongs.comparable

theorem schedule_filter (parts : List (Part α)) (i : ℕ) (duration : α) :
    (schedule parts duration).filter (·.index == i) = parts[i]?.elim [] fun part =>
      (schedule [part] duration).map fun onset => { onset with index := i } := by
  rw [schedule_eq]
  split_ifs with none
  · cases parts[i]? with
    | none => rfl
    | some part => rw [Option.elim_some, schedule_eq, if_pos none]; rfl
  · rw [filter_mergeSort_among (p := fun onset => le onset.time onset.time = true) earlier_trans earlier_total]
    · rw [filter_unmerged]
      cases parts[i]? with
      | none => rfl
      | some part =>
        rw [Option.elim_some, Option.elim_some, schedule_alone none]
        exact share_index part i duration
    · intro onset mem
      exact (belongs_of_mem mem).elim fun _ belongs => belongs.comparable
    · rw [filter_unmerged]
      cases parts[i]? with
      | none => exact List.Pairwise.nil
      | some part => exact share_ascending part i duration

end Times
end FormulaSynth.Score
