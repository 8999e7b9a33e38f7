import FormulaSynth.Number.Machine
import FormulaSynth.Proofs.Runs

/-!
# What the flag tells

The flag is down only while the score is the one of the moment it was taken down, with one exception: a
recompilation that meets a good new text beside a faulty one puts the good one to work and does not say so.
-/

set_option autoImplicit false
namespace FormulaSynth.Session
open Number Audio Formula

namespace Instrument
variable {α : Type} [Number α]

def wanted (i : Instrument α) : Bool := i.enabled && !Text.allBlank i.formula

def entry (i : Instrument α) (program : Option Program) (period : Option α) :
    Option (Score.Part α × Sound.Voice × ℕ) :=
  program.bind fun program => period.map fun period => (⟨i.id, program, period⟩, i.voice, i.level)

/-- What the score holds of the instrument. -/
def voiced (i : Instrument α) : Option (Score.Part α × Sound.Voice × ℕ) :=
  if i.wanted then i.entry i.program i.period else none

theorem entry_none (i : Instrument α) (program : Option Program) : i.entry program none = none := by
  cases program <;> rfl

theorem entry_eq_some {i : Instrument α} {program : Option Program} {period : Option α}
    {v : Score.Part α × Sound.Voice × ℕ} :
    i.entry program period = some v ↔
      ∃ p q, program = some p ∧ period = some q ∧ v = (⟨i.id, p, q⟩, i.voice, i.level) := by
  constructor
  · intro h
    obtain ⟨p, hp, h⟩ := Option.bind_eq_some_iff.mp h
    obtain ⟨q, hq, rfl⟩ := Option.map_eq_some_iff.mp h
    exact ⟨p, q, hp, hq, rfl⟩
  · rintro ⟨p, q, rfl, rfl, rfl⟩
    rfl

theorem entry_program_iff (i : Instrument α) (p p' : Option Program) (q : Option α) :
    i.entry p q = i.entry p' q ↔ (q.isSome → p = p') := by
  cases q with
  | none =>
    rw [entry_none, entry_none]
    exact iff_of_true rfl fun h => absurd h Bool.false_ne_true
  | some q =>
    cases p <;> cases p' <;> simp [entry]

theorem entry_period_iff (i : Instrument α) (p : Option Program) (q q' : Option α) :
    i.entry p q = i.entry p q' ↔ (p.isSome → q = q') := by
  cases p with
  | none => exact iff_of_true rfl fun h => absurd h Bool.false_ne_true
  | some p =>
    cases q <;> cases q' <;> simp [entry]

theorem id_of_voiced {i : Instrument α} {v : Score.Part α × Sound.Voice × ℕ} (h : i.voiced = some v) :
    v.1.id = i.id := by
  unfold voiced at h
  split at h
  · obtain ⟨p, q, -, -, rfl⟩ := entry_eq_some.mp h
    rfl
  · cases h

/-- The formula is faulty and the period text gives a new period, or the other way round, so that the
    recompilation is told as a failure and changes what is heard. -/
def ComesApart (i : Instrument α) : Prop :=
  i.wanted = true ∧ i.formula ≠ i.seenFormula ∧ i.periodText ≠ i.seenPeriod ∧
    ((∃ fault period, programOf i.formula = .error fault ∧ periodOf i.periodText = .ok period ∧
        i.program.isSome ∧ period ≠ i.period) ∨
      ∃ fault program, periodOf (α := α) i.periodText = .error fault ∧
        programOf i.formula = .ok program ∧ i.period.isSome ∧ program ≠ i.program)

theorem ComesApart.stale {i : Instrument α} (h : i.ComesApart) : i.isStale = true :=
  i.isStale_iff.mpr (Or.inl h.2.1)

theorem recompiled_voiced (i : Instrument α) :
    i.recompiled.voiced = if i.wanted then i.entry i.nextProgram i.nextPeriod else none := rfl

theorem kept_of_seen {i : Instrument α} (quiet : i.isNews = false)
    (seen : i.formula = i.seenFormula ∨ i.periodText = i.seenPeriod) :
    i.nextProgram = i.program ∧ i.nextPeriod = i.period := by
  rcases seen with formula | period
  · refine ⟨if_pos formula, ?_⟩
    by_cases period : i.periodText = i.seenPeriod
    · exact if_pos period
    · have sound : i.formulaFault? = none := if_pos formula
      have fault := fault_of_not_isNews quiet (i.isStale_iff.mpr (Or.inr period))
      exact nextPeriod_of_fault (fault.resolve_left (not_not.mpr sound))
  · refine ⟨?_, if_pos period⟩
    by_cases formula : i.formula = i.seenFormula
    · exact if_pos formula
    · have sound : i.periodFault? = none := if_pos period
      have fault := fault_of_not_isNews quiet (i.isStale_iff.mpr (Or.inl formula))
      exact nextProgram_of_fault (fault.resolve_right (not_not.mpr sound))

theorem comesApart_iff_of_new {i : Instrument α} (quiet : i.isNews = false) (wanted : i.wanted = true)
    (formula : i.formula ≠ i.seenFormula) (period : i.periodText ≠ i.seenPeriod) :
    i.ComesApart ↔ ¬i.entry i.program i.period = i.entry i.nextProgram i.nextPeriod := by
  have fault := fault_of_not_isNews quiet (i.isStale_iff.mpr (Or.inl formula))
  rw [formulaFault?, periodFault?, if_neg formula, if_neg period] at fault
  rw [ComesApart, nextProgram, nextPeriod, if_neg formula, if_neg period]
  cases compiled : programOf i.formula with
  | error f =>
    cases timed : periodOf (α := α) i.periodText with
    | error g =>
      refine iff_of_false ?_ (fun h => h rfl)
      rintro ⟨-, -, -, ⟨_, _, -, h, -⟩ | ⟨_, _, -, h, -⟩⟩
      · cases h
      · cases h
    | ok q =>
      change _ ↔ ¬i.entry i.program i.period = i.entry i.program q
      rw [entry_period_iff, Classical.not_imp]
      constructor
      · rintro ⟨-, -, -, ⟨_, _, -, h, some, ne⟩ | ⟨_, _, h, -⟩⟩
        · cases h
          exact ⟨some, Ne.symm ne⟩
        · cases h
      · rintro ⟨some, ne⟩
        exact ⟨wanted, formula, period, Or.inl ⟨f, q, rfl, rfl, some, Ne.symm ne⟩⟩
  | ok p =>
    cases timed : periodOf (α := α) i.periodText with
    | error g =>
      change _ ↔ ¬i.entry i.program i.period = i.entry p i.period
      rw [entry_program_iff, Classical.not_imp]
      constructor
      · rintro ⟨-, -, -, ⟨_, _, h, -⟩ | ⟨_, _, -, h, some, ne⟩⟩
        · cases h
        · cases h
          exact ⟨some, Ne.symm ne⟩
      · rintro ⟨some, ne⟩
        exact ⟨wanted, formula, period, Or.inr ⟨g, p, rfl, rfl, some, Ne.symm ne⟩⟩
    | ok q =>
      rw [compiled, timed] at fault
      rcases fault with h | h
      · exact absurd rfl h
      · exact absurd rfl h

theorem comesApart_iff {i : Instrument α} (quiet : i.isNews = false) :
    i.ComesApart ↔ ¬i.voiced = i.recompiled.voiced := by
  rw [recompiled_voiced, voiced]
  by_cases wanted : i.wanted = true
  · rw [if_pos wanted, if_pos wanted]
    by_cases seen : i.formula = i.seenFormula ∨ i.periodText = i.seenPeriod
    · obtain ⟨program, period⟩ := kept_of_seen quiet seen
      rw [program, period]
      exact iff_of_false (fun h => seen.elim h.2.1 h.2.2.1) (fun h => h rfl)
    · obtain ⟨formula, period⟩ := not_or.mp seen
      exact comesApart_iff_of_new quiet wanted formula period
  · rw [if_neg wanted, if_neg wanted]
    exact iff_of_false (fun h => wanted h.1) (fun h => h rfl)

end Instrument

section Scores
variable {α : Type}

def pushVoiced (score : Score α) (v : Score.Part α × Sound.Voice × ℕ) : Score α :=
  score.push v.1 v.2.1 v.2.2

theorem parts_foldl_push (vs : List (Score.Part α × Sound.Voice × ℕ)) (start : Score α) :
    (vs.foldl pushVoiced start).parts.map (fun part => (part.toPart, part.voice, part.volume)) =
      start.parts.map (fun part => (part.toPart, part.voice, part.volume)) ++ vs := by
  induction vs generalizing start with
  | nil => rw [List.foldl_nil, List.append_nil]
  | cons v vs ih =>
    rw [List.foldl_cons, ih, pushVoiced, Score.push, List.map_append, List.append_assoc]
    rfl

variable [Number α]

theorem addPart_eq (score : Score α) (i : Instrument α) :
    (if i.isPlayable then addPart score i else score) = i.voiced.elim score (pushVoiced score) := by
  unfold Instrument.isPlayable Instrument.voiced Instrument.wanted addPart
  cases i.enabled with
  | false => rfl
  | true =>
    cases Text.allBlank i.formula with
    | true => simp
    | false =>
      cases i.program with
      | none => rfl
      | some program =>
        cases i.period with
        | none => rfl
        | some period => rfl

theorem score_eq (s : Session α) :
    s.score = (s.instruments.filterMap Instrument.voiced).foldl pushVoiced (.empty s.duration) := by
  rw [score, List.foldl_filter, List.foldl_filterMap]
  refine congrArg (fun step => s.instruments.foldl step (Score.empty s.duration)) ?_
  funext score i
  rw [addPart_eq]
  cases i.voiced with
  | none => rfl
  | some v => rfl

theorem score_eq_iff {s t : Session α} (duration : t.duration = s.duration) :
    s.score = t.score ↔
      s.instruments.filterMap Instrument.voiced = t.instruments.filterMap Instrument.voiced := by
  rw [score_eq, score_eq, duration]
  constructor
  · intro h
    have parts := congrArg
      (fun score : Score α => score.parts.map fun part => (part.toPart, part.voice, part.volume)) h
    rw [parts_foldl_push, parts_foldl_push] at parts
    exact List.append_cancel_left parts
  · intro h
    rw [h]

theorem not_mem_filterMap_voiced {is : List (Instrument α)} {v : Score.Part α × Sound.Voice × ℕ}
    (fresh : v.1.id ∉ is.map Instrument.id) : v ∉ is.filterMap Instrument.voiced := by
  intro mem
  obtain ⟨j, hj, voiced⟩ := List.mem_filterMap.mp mem
  exact fresh (List.mem_map.mpr ⟨j, hj, (Instrument.id_of_voiced voiced).symm⟩)

theorem filterMap_voiced_iff {f : Instrument α → Instrument α} (keeps : ∀ i, (f i).id = i.id)
    {is : List (Instrument α)} (nodup : (is.map Instrument.id).Nodup) :
    is.filterMap Instrument.voiced = (is.map f).filterMap Instrument.voiced ↔
      ∀ i ∈ is, i.voiced = (f i).voiced := by
  induction is with
  | nil => exact iff_of_true rfl fun i h => absurd h List.not_mem_nil
  | cons i is ih =>
    obtain ⟨fresh, nodup⟩ := List.nodup_cons.mp nodup
    rw [List.map_cons, List.filterMap_cons, List.filterMap_cons, List.forall_mem_cons, ← ih nodup]
    cases old : i.voiced with
    | none =>
      cases new : (f i).voiced with
      | none => exact (and_iff_right rfl).symm
      | some v =>
        refine iff_of_false ?_ (fun h => nomatch h.1)
        intro h
        rw [← keeps, ← Instrument.id_of_voiced new] at fresh
        refine not_mem_filterMap_voiced fresh ?_
        dsimp only at h
        rw [h]
        exact List.mem_cons_self
    | some v =>
      cases new : (f i).voiced with
      | none =>
        refine iff_of_false ?_ (fun h => nomatch h.1)
        intro h
        have ids : (is.map f).map Instrument.id = is.map Instrument.id := by
          rw [List.map_map]
          exact List.map_congr_left fun i _ => keeps i
        rw [← Instrument.id_of_voiced old, ← ids] at fresh
        refine not_mem_filterMap_voiced fresh ?_
        dsimp only at h
        rw [← h]
        exact List.mem_cons_self
      | some w =>
        dsimp only
        rw [List.cons.injEq, Option.some.injEq]

theorem flush_score_iff {s : Session α} (placed : Placed s.instruments) (quiet : s.flush.2.changed = false) :
    s.score = s.flush.2.score ↔ ¬∃ i ∈ s.instruments, i.ComesApart := by
  have duration : s.flush.2.duration = s.duration := rfl
  have instruments : s.flush.2.instruments = s.instruments.map Instrument.recompiled := by
    rw [flush_eq]
  rw [flush_eq, Bool.or_eq_false_iff, List.any_eq_false] at quiet
  rw [score_eq_iff duration, instruments, filterMap_voiced_iff Instrument.recompiled_id placed.nodup, not_exists]
  refine forall_congr' fun i => ?_
  rw [not_and]
  refine forall_congr' fun mem => ?_
  rw [Instrument.comesApart_iff (Bool.eq_false_iff.mpr (quiet.2 i mem)), not_not]

theorem score_congr {s t : Session α} (duration : t.duration = s.duration)
    (instruments : t.instruments = s.instruments) : t.score = s.score := by
  rw [score, score, duration, instruments]

end Scores
variable {α σ : Type} [Number α] [Silence σ]

/-- A session with what an observer remembers: the score of the moment the flag was last taken down, and
    whether an instrument has come apart in a recompilation since. -/
structure Watched (α : Type) where
  session : Session α
  cleared : Option (Score α)
  apart : Prop

theorem not_up_and_down {b : Bool} {p : Prop} (up : b = true) (down : b = false) : p := by
  rw [up] at down
  cases down

namespace Watched

def start (s : Session α) : Watched α := ⟨s, none, False⟩

def perform (w : Watched α) (a : Action α σ) : Watched α :=
  { session := w.session.perform a
    cleared := if a.clears w.session then some w.session.score else w.cleared
    apart := a.clears w.session = false ∧
      (w.apart ∨ a.recompiles w.session = true ∧ ∃ i ∈ w.session.instruments, i.ComesApart) }

def run (w : Watched α) (actions : List (Action α σ)) : Watched α := actions.foldl perform w

/-- While the flag is down nobody has edited a text, so after the recompilation that came apart nothing is
    stale. -/
structure Faithful (w : Watched α) : Prop where
  placed : Placed w.session.instruments
  settled : w.session.changed = false → w.apart → ∀ i ∈ w.session.instruments, i.isStale = false
  told : w.session.changed = false →
    ∃ score, w.cleared = some score ∧ (score = w.session.score ↔ ¬w.apart)

theorem Faithful.start {s : Session α} (h : Built s) : Faithful (start s) where
  placed := h.placed
  settled down := not_up_and_down h.changed down
  told down := not_up_and_down h.changed down

theorem Faithful.clear {w : Watched α} (h : Faithful w) {a : Action α σ} (clears : a.clears w.session = true) :
    Faithful (w.perform a) := by
  obtain ⟨instruments, duration, -⟩ := perform_of_clears clears
  have whole : ¬(w.perform a).apart := by
    rintro ⟨quiet, -⟩
    exact not_up_and_down clears quiet
  refine ⟨placed_of_ids_eq (perform_ids w.session a) h.placed, fun _ apart => absurd apart whole, ?_⟩
  intro _
  refine ⟨w.session.score, if_pos clears, iff_of_true ?_ whole⟩
  exact (score_congr duration instruments).symm

theorem Faithful.recompile {w : Watched α} (h : Faithful w) {a : Action α σ}
    (clears : a.clears w.session = false) (recompiles : a.recompiles w.session = true) :
    Faithful (w.perform a) := by
  have flushed : (w.perform a).session = w.session.flush.2 := perform_of_recompiles recompiles
  have instruments : (w.perform a).session.instruments = w.session.instruments.map Instrument.recompiled := by
    rw [flushed, flush_eq]
  have apart : (w.perform a).apart ↔ w.apart ∨ ∃ i ∈ w.session.instruments, i.ComesApart := by
    change (_ ∧ (_ ∨ _ ∧ _)) ↔ _
    rw [and_iff_right clears, and_iff_right recompiles]
  refine ⟨placed_of_ids_eq (perform_ids w.session a) h.placed, ?_, ?_⟩
  · intro _ _ i mem
    rw [instruments] at mem
    obtain ⟨j, -, rfl⟩ := List.mem_map.mp mem
    exact j.recompiled_fresh
  · intro down
    rw [flushed] at down
    have before : w.session.changed = false := by
      rw [flush_eq, Bool.or_eq_false_iff] at down
      exact down.1
    obtain ⟨score, cleared, same⟩ := h.told before
    have kept : (w.perform a).cleared = w.cleared := by
      change (if _ then _ else _) = _
      rw [clears]
      rfl
    refine ⟨score, kept.trans cleared, ?_⟩
    have news := flush_score_iff h.placed down
    rw [apart, flushed, not_or, ← news]
    by_cases already : w.apart
    · have quiet : w.session.score = w.session.flush.2.score := by
        rw [news]
        rintro ⟨i, mem, broken⟩
        exact not_up_and_down broken.stale (h.settled before already i mem)
      rw [← quiet, same]
      exact iff_of_false (not_not.mpr already) fun both => both.1 already
    · rw [same.mpr already]
      exact (and_iff_right already).symm

theorem Faithful.edit {w : Watched α} (h : Faithful w) {a : Action α σ} (clears : a.clears w.session = false)
    (recompiles : a.recompiles w.session = false) : Faithful (w.perform a) := by
  have edited : Edited w.session (w.perform a).session := perform_edited clears recompiles
  have apart : (w.perform a).apart ↔ w.apart := by
    change (_ ∧ (_ ∨ _ ∧ _)) ↔ _
    rw [and_iff_right clears, recompiles]
    simp
  have kept : (w.perform a).cleared = w.cleared := by
    change (if _ then _ else _) = _
    rw [clears]
    rfl
  have placed := placed_of_ids_eq (perform_ids w.session a) h.placed
  rcases edited.raised with up | ⟨instruments, changed⟩
  · exact ⟨placed, fun down => not_up_and_down up down,
      fun down => not_up_and_down up down⟩
  · refine ⟨placed, ?_, ?_⟩
    · intro down
      rw [apart, instruments]
      exact h.settled (changed.symm.trans down)
    · intro down
      rw [apart, kept, score_congr edited.duration instruments]
      exact h.told (changed.symm.trans down)

theorem Faithful.perform {w : Watched α} (h : Faithful w) (a : Action α σ) : Faithful (w.perform a) := by
  cases clears : a.clears w.session with
  | true => exact h.clear clears
  | false =>
    cases recompiles : a.recompiles w.session with
    | true => exact h.recompile clears recompiles
    | false => exact h.edit clears recompiles

theorem Faithful.run {w : Watched α} (h : Faithful w) (actions : List (Action α σ)) :
    Faithful (w.run actions) := by
  induction actions generalizing w with
  | nil => exact h
  | cons a actions ih => exact ih (h.perform a)

theorem run_session (w : Watched α) (actions : List (Action α σ)) :
    (w.run actions).session = actions.foldl Session.perform w.session := by
  induction actions generalizing w with
  | nil => rfl
  | cons a actions ih => exact ih (w.perform a)

/-- A render is refused exactly while the flag is down, and then the score is still the one of the moment the
    flag was taken down unless an instrument has come apart since. -/
theorem refused_render_score_iff {s : Session α} (h : Built s) (actions : List (Action α σ)) :
    let w := (start s).run actions
    w.session = actions.foldl Session.perform s ∧
    (w.session.changed = false →
      ∃ score, w.cleared = some score ∧ (score = w.session.score ↔ ¬w.apart)) ∧
    ∀ {δ : Type} [NoteDevice δ σ] (device : δ) (progress : Progress α) (cancelled : ℕ → Bool),
      (w.session.renderWith (σ := σ) device progress cancelled).result.isNone = true ↔
        w.session.changed = false := by
  have faithful : Faithful ((start s).run actions) := (Faithful.start h).run actions
  refine ⟨run_session (start s) actions, faithful.told, ?_⟩
  intro δ _ device progress cancelled
  exact renderWith_none_iff _ device progress cancelled

/-- A good formula beside a faulty period text: the last recompilation leaves the flag down, and the next render
    would not play what the last one was given. -/
theorem refused_render_after_half_faulty_edit :
    let edits : List (Action Float Sample) :=
      [.setFormula 0 "x", .setPeriod 0 "1", .setEnabled 0 true, .flush, .setFormula 0 "x*2", .setPeriod 0 "1+",
        .takeScore]
    let w := (start (new 1)).run (edits ++ [.flush])
    Built (new 1 : Session Float) ∧ w.session.changed = false ∧
      ∃ score, w.cleared = some score ∧ score ≠ w.session.score := by
  intro edits w
  have built : Built (new 1 : Session Float) := .new 1
  have down : w.session.changed = false := by decide +kernel
  obtain ⟨score, cleared, same⟩ := (refused_render_score_iff built (edits ++ [.flush])).2.1 down
  refine ⟨built, down, score, cleared, fun eq => same.mp eq ?_⟩
  let before := ((start (new 1)).run edits).session
  have placed : Placed before.instruments := ((Faithful.start built).run edits).placed
  have differs : before.score ≠ before.flush.2.score := by
    intro h
    have codes := congrArg (fun score : Score Float => score.parts.map fun part => part.formula.code) h
    exact absurd codes (by decide +kernel)
  have apart : ∃ i ∈ before.instruments, i.ComesApart := by
    by_contra whole
    exact differs ((flush_score_iff placed down).mpr whole)
  exact ⟨rfl, Or.inr ⟨rfl, apart⟩⟩

end Watched
end FormulaSynth.Session
