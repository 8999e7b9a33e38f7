import FormulaSynth.Number.Machine
import FormulaSynth.Proofs.Edits

/-!
# Waiting for a quiet time

What is typed waits until the quiet time has passed since the last text was edited. A pass then compiles the texts
it finds, and it tells of an instrument if they are not the ones that the pass before it found.
-/

set_option autoImplicit false
namespace FormulaSynth.Session
open Number

namespace Instrument
variable {α : Type}

def texts (i : Instrument α) : String × String := (i.formula, i.periodText)
def seenTexts (i : Instrument α) : String × String := (i.seenFormula, i.seenPeriod)

theorem isStale_iff_texts (i : Instrument α) : i.isStale = true ↔ i.texts ≠ i.seenTexts := by
  simp only [isStale_iff, texts, seenTexts, ne_eq, Prod.mk.injEq, not_and_or]

variable [Number α]

theorem edited_seenTexts (i : Instrument α) (edits : List (Edit α)) :
    (i.edited edits).seenTexts = i.seenTexts := by
  have h := i.edited_retouched edits
  rw [seenTexts, seenTexts, h.seenFormula, h.seenPeriod]

theorem answer_id (i : Instrument α) : i.answer.id = i.id := by
  unfold answer
  cases i.fault? with
  | some fault => rfl
  | none =>
    dsimp only
    split <;> rfl

end Instrument

section Clocks

theorem Clock.now_advance {c : Clock} {nanos : ℕ} (h : c.now + nanos < UInt64.size) :
    (c.advance nanos).now = c.now + nanos := by
  have least : min nanos (Nat.pow 2 64 - 1) = nanos := by
    have size : UInt64.size = Nat.pow 2 64 := rfl
    omega
  have small : nanos < UInt64.size := by omega
  rw [now, advance, least, UInt64.toNat_add, Nat.toUInt64, UInt64.toNat_ofNat_of_lt' small]
  exact Nat.mod_eq_of_lt h

end Clocks

variable {α σ : Type} [Number α]

theorem flush_updates_ids {s : Session α} (placed : Placed s.instruments) :
    s.flush.1.map PlotUpdate.id =
      (List.range s.instruments.length).filter fun place => s.instruments[place]?.any Instrument.isStale := by
  have stale : s.flush.1.map PlotUpdate.id = (s.instruments.filter Instrument.isStale).map Instrument.id := by
    change ((s.instruments.map Instrument.recompile).filterMap Prod.snd).map PlotUpdate.id = _
    induction s.instruments with
    | nil => rfl
    | cons i is ih =>
      rw [List.map_cons, List.filterMap_cons, List.filter_cons, Instrument.recompile_eq]
      cases i.isStale with
      | false => exact ih
      | true => exact congrArg₂ List.cons i.answer_id ih
  have listed : ∀ i ∈ s.instruments, (s.instruments[i.id]?.any Instrument.isStale) = i.isStale := by
    intro i mem
    obtain ⟨place, found⟩ := List.mem_iff_getElem?.mp mem
    rw [placed.id_eq found, found]
    rfl
  -- The places are the names, so a filter of the places is one of the instruments.
  rw [stale, ← placed, List.filter_map]
  refine congrArg (List.map Instrument.id) (List.filter_congr ?_)
  exact fun i mem => (listed i mem).symm

theorem flush_of_fresh {s : Session α} (idle : s.deadline = none)
    (fresh : ∀ i ∈ s.instruments, i.isStale = false) : s.flush = ([], s) := by
  have updates : s.flush.1 = [] := by
    change (s.instruments.map Instrument.recompile).filterMap Prod.snd = []
    rw [List.filterMap_map, List.filterMap_eq_nil_iff]
    intro i mem
    simp [Instrument.recompile_eq, fresh i mem]
  have kept : s.instruments.map Instrument.recompiled = s.instruments :=
    List.map_congr_left (fun i mem => Instrument.recompiled_of_fresh (fresh i mem)) |>.trans (List.map_id _)
  have silent : s.instruments.any Instrument.isNews = false := by
    rw [List.any_eq_false]
    intro i mem
    simp [Instrument.isNews, fresh i mem]
  refine Prod.ext updates ?_
  rw [flush_eq, kept, silent, Bool.or_false, ← idle]

def Edit.types : Edit α → Bool
  | .formula _ | .period _ => true
  | _ => false

theorem edited_texts {edits : List (Edit α)} (untyped : ∀ e ∈ edits, e.types = false) (i : Instrument α) :
    (i.edited edits).texts = i.texts := by
  induction edits generalizing i with
  | nil => rfl
  | cons e edits ih =>
    obtain ⟨first, rest⟩ := List.forall_mem_cons.mp untyped
    rw [Instrument.edited, List.foldl_cons]
    refine (ih rest (e.apply i)).trans ?_
    cases e with
    | formula text | period text => cases first
    | _ => rfl

theorem editsAt_untyped {s : Session α} {a : Action α σ} (stays : a.isPass s = false)
    (untyped : a.retypes s = false) {place : ℕ} (inside : place < s.instruments.length) :
    ∀ e ∈ a.editsAt place, e.types = false := by
  have voice (index : ℕ) : ∀ e ∈ Action.voiceEdits (α := α) index, e.types = false := by
    unfold Action.voiceEdits
    split <;> simp [Edit.types]
  cases a with
  | setFormula id text | setPeriod id text =>
    have elsewhere : id ≠ place := by
      simp [Action.retypes] at untyped
      omega
    simp [Action.editsAt, elsewhere]
  | setEnabled id on | setVolume id volume => simp [Action.editsAt, Edit.types]
  | setVoice id index =>
    simp only [Action.editsAt]
    split
    · exact voice index
    · simp
  | setVoiceNamed id name =>
    simp only [Action.editsAt]
    split
    · cases Sound.voiceIndex? name with
      | none => simp
      | some index => exact voice index
    · simp
  | importSettings settings => exact absurd stays.symm Bool.false_ne_true
  | _ => simp [Action.editsAt]

theorem Built.idle {s : Session α} (h : Built s) : s.clock = .start ∧ s.deadline = none := by
  induction h with
  | new | ofConfig => exact ⟨rfl, rfl⟩
  | withDebounce _ _ ih | withDuration _ _ ih | withRenderer _ _ ih => exact ih

def texts (s : Session α) : List (String × String) := s.instruments.map Instrument.texts

def textsAt (texts : List (String × String)) (place : ℕ) : String × String := texts.getD place ("", "")

omit [Number α] in
theorem texts_at {s : Session α} {place : ℕ} {i : Instrument α} (found : s.instruments[place]? = some i) :
    textsAt s.texts place = i.texts := by
  simp [textsAt, texts, found]

/-- A session with what an observer remembers: the nanoseconds since the start, when a text was last typed since the
    last pass, and the texts that each pass found, the latest pass first. -/
structure Logged (α : Type) where
  session : Session α
  elapsed : ℕ
  typed : Option ℕ
  passes : List (List (String × String))

namespace Logged
variable [Silence σ]

def start (s : Session α) : Logged α := ⟨s, 0, none, []⟩

def perform (w : Logged α) (a : Action α σ) : Logged α where
  session := w.session.perform a
  elapsed := w.elapsed + a.nanos
  typed := if a.isPass w.session then none else if a.retypes w.session then some w.elapsed else w.typed
  passes := if a.isPass w.session then (w.session.perform a).texts :: w.passes else w.passes

def run (w : Logged α) (actions : List (Action α σ)) : Logged α := actions.foldl perform w

def seenAt (w : Logged α) (place : ℕ) : String × String := textsAt (w.passes.headD []) place

theorem run_session (w : Logged α) (actions : List (Action α σ)) :
    (w.run actions).session = actions.foldl Session.perform w.session := by
  induction actions generalizing w with
  | nil => rfl
  | cons a actions ih => exact ih (w.perform a)

theorem perform_of_pass {w : Logged α} {a : Action α σ} (passes : a.isPass w.session = true) :
    w.perform a =
      ⟨w.session.perform a, w.elapsed + a.nanos, none, (w.session.perform a).texts :: w.passes⟩ := by
  simp [perform, passes]

theorem perform_of_stay {w : Logged α} {a : Action α σ} (stays : a.isPass w.session = false) :
    w.perform a = ⟨w.session.perform a, w.elapsed + a.nanos,
      if a.retypes w.session then some w.elapsed else w.typed, w.passes⟩ := by
  simp [perform, stays]

/-- What is typed and not yet compiled is waited for, until the quiet time after it is over. -/
structure Waits (w : Logged α) : Prop where
  placed : Placed w.session.instruments
  seen (place : ℕ) (i : Instrument α) (found : w.session.instruments[place]? = some i) : i.seenTexts = w.seenAt place
  settled (untyped : w.typed = none) : ∀ i ∈ w.session.instruments, i.isStale = false
  now (total : w.elapsed < UInt64.size) : w.session.clock.now = w.elapsed
  deadline (total : w.elapsed < UInt64.size) : w.session.deadline = w.typed.map (· + w.session.debounce)

theorem Waits.start {s : Session α} (h : Built s) : Waits (start s) where
  placed := h.placed
  seen place i found := by
    have blank := h.forall_instruments (P := fun i => i.seenTexts = ("", "")) (fun _ => rfl)
    exact blank i (List.mem_of_getElem? found)
  settled _ := h.forall_instruments (P := fun i => i.isStale = false) fun _ => rfl
  now _ := by
    change s.clock.now = 0
    rw [h.idle.1]
    rfl
  deadline _ := h.idle.2

theorem Waits.clock {w : Logged α} (h : Waits w) (a : Action α σ) (total : w.elapsed + a.nanos < UInt64.size) :
    (w.session.perform a).clock.now = w.elapsed + a.nanos := by
  have now := h.now (by omega)
  rw [(performed w.session a).clock, Clock.now_advance, now]
  rw [now]
  exact total

theorem Waits.pass {w : Logged α} (h : Waits w) {a : Action α σ} (passes : a.isPass w.session = true) :
    Waits (w.perform a) := by
  have fresh (place : ℕ) (j : Instrument α) (found : (w.session.perform a).instruments[place]? = some j) :
      j.seenTexts = j.texts := by
    obtain ⟨i, -, rfl⟩ := comes_of_pass passes found
    rfl
  rw [perform_of_pass passes]
  refine ⟨placed_of_ids_eq (perform_ids w.session a) h.placed, ?_, ?_, h.clock a, ?_⟩
  · intro place j found
    rw [fresh place j found, ← texts_at found]
    rfl
  · intro _ j mem
    obtain ⟨place, found⟩ := List.mem_iff_getElem?.mp mem
    rw [Bool.eq_false_iff, Ne, j.isStale_iff_texts, not_not, fresh place j found]
  · intro _
    simp [(performed w.session a).deadline, passes]

theorem Waits.stay {w : Logged α} (h : Waits w) {a : Action α σ} (stays : a.isPass w.session = false) :
    Waits (w.perform a) := by
  have after := performed w.session a
  rw [perform_of_stay stays]
  refine ⟨placed_of_ids_eq (perform_ids w.session a) h.placed, ?_, ?_, h.clock a, ?_⟩
  · intro place j found
    obtain ⟨i, there, rfl⟩ := comes_of_stay stays found
    rw [i.edited_seenTexts]
    exact h.seen place i there
  · intro untyped j mem
    obtain ⟨place, found⟩ := List.mem_iff_getElem?.mp mem
    obtain ⟨i, there, rfl⟩ := comes_of_stay stays found
    obtain ⟨types, untyped⟩ : a.retypes w.session = false ∧ w.typed = none := by
      cases types : a.retypes w.session <;> simp_all
    have inside : place < w.session.instruments.length := (List.getElem?_eq_some_iff.mp there).1
    have settled := h.settled untyped i (List.mem_of_getElem? there)
    rw [Bool.eq_false_iff, Ne, Instrument.isStale_iff_texts] at settled ⊢
    rwa [i.edited_seenTexts, edited_texts (editsAt_untyped stays types inside)]
  · intro total
    have before : w.elapsed < UInt64.size := (Nat.le_add_right _ _).trans_lt total
    change (w.session.perform a).deadline = Option.map (· + (w.session.perform a).debounce) _
    rw [after.deadline, after.debounce, stays, h.now before, h.deadline before]
    cases a.retypes w.session <;> rfl

theorem Waits.perform {w : Logged α} (h : Waits w) (a : Action α σ) : Waits (w.perform a) := by
  cases passes : a.isPass w.session with
  | true => exact h.pass passes
  | false => exact h.stay passes

theorem Waits.run {w : Logged α} (h : Waits w) (actions : List (Action α σ)) : Waits (w.run actions) :=
  List.foldlRecOn (motive := Waits) actions Logged.perform h fun _ h a _ => h.perform a

theorem Waits.updates {w : Logged α} (h : Waits w) {a : Action α σ} (passes : a.isPass w.session = true) :
    (a.updates w.session).map PlotUpdate.id = (List.range w.session.instruments.length).filter fun place =>
      textsAt (w.session.perform a).texts place ≠ w.seenAt place := by
  obtain ⟨met, meets⟩ := exists_meets passes
  rw [meets.tells, flush_updates_ids (placed_of_ids_eq meets.ids h.placed), meets.length]
  refine List.filter_congr ?_
  intro place inside
  obtain ⟨i, found⟩ : ∃ i, w.session.instruments[place]? = some i :=
    ⟨_, List.getElem?_eq_getElem (List.mem_range.mp inside)⟩
  have after : (w.session.perform a).instruments[place]? = some (i.edited (a.editsAt place)).recompiled := by
    simp [(performed w.session a).instruments, found, Action.leaves, passes]
  rw [meets.instruments, found, texts_at after, ← h.seen place i found, ← i.edited_seenTexts (a.editsAt place)]
  rw [Bool.eq_iff_iff, decide_eq_true_iff]
  exact Instrument.isStale_iff_texts _

/-- Nothing typed is lost, and a burst of edits is compiled once: something waits exactly since the first text typed
    after the last pass, until the quiet time after the latest one is over. A pass tells of each instrument whose
    texts it finds changed, once and in order, and leaves nothing to do. -/
theorem pass_after_quiet_time {s : Session α} (h : Built s) (actions : List (Action α σ))
    (total : ((start s).run actions).elapsed < UInt64.size) :
    let w := (start s).run actions
    w.session = actions.foldl Session.perform s ∧
    w.session.clock.now = w.elapsed ∧
    (w.session.isPending = true ↔ w.typed.isSome = true) ∧
    w.session.deadline = w.typed.map (· + s.debounce) ∧
    (∀ i ∈ w.session.instruments, i.isStale = true → w.session.isPending = true) ∧
    w.session.update =
      (if w.typed.any fun typed => typed + s.debounce ≤ w.elapsed then w.session.flush else ([], w.session)) ∧
    ∀ a : Action α σ, a.isPass w.session = true →
      let after := w.session.perform a
      (a.updates w.session).map PlotUpdate.id = ((List.range w.session.instruments.length).filter fun place =>
        textsAt after.texts place ≠ w.seenAt place) ∧
      after.isPending = false ∧ (∀ i ∈ after.instruments, i.isStale = false) ∧ after.flush = ([], after) := by
  intro w
  have waits : Waits w := (Waits.start h).run actions
  have debounce : w.session.debounce = s.debounce := by
    rw [run_session]
    exact List.foldlRecOn (motive := fun t : Session α => t.debounce = s.debounce) actions Session.perform rfl
      fun t same a _ => (performed t a).debounce.trans same
  have deadline : w.session.deadline = w.typed.map (· + s.debounce) := by
    rw [waits.deadline total, debounce]
  refine ⟨run_session (start s) actions, waits.now total, ?_, deadline, ?_, ?_, ?_⟩
  · rw [isPending, deadline, Option.isSome_map]
  · intro i mem stale
    rw [isPending, deadline, Option.isSome_map]
    by_contra none
    have settled := waits.settled (by simpa using none) i mem
    rw [stale] at settled
    cases settled
  · rw [update, isDue, deadline, waits.now total]
    cases w.typed <;> simp
  · intro a passes after
    have fresh : ∀ i ∈ after.instruments, i.isStale = false :=
      (waits.pass passes).settled (by rw [perform_of_pass passes])
    have idle : after.deadline = none := by
      rw [(performed w.session a).deadline, passes]
      rfl
    refine ⟨waits.updates passes, ?_, fresh, flush_of_fresh idle fresh⟩
    rw [isPending, idle]
    rfl

/-- A text is corrected half a second after a slip, and another one is typed and taken back. -/
theorem pass_after_typing_burst :
    let edits : List (Action Float Sample) := [.setFormula 0 "x+", .advance 500000000, .setFormula 1 "1",
      .setFormula 1 "", .setFormula 0 "x", .advance 750000000]
    let w := (start (new 2)).run edits
    Built (new 2 : Session Float) ∧ w.elapsed < UInt64.size ∧ w.session.deadline = some 1250000000 ∧
      w.session.update = w.session.flush ∧ w.session.update.1.map PlotUpdate.id = [0] := by
  intro edits w
  have built : Built (new 2 : Session Float) := .new 2
  have total : w.elapsed < UInt64.size := by decide +kernel
  obtain ⟨-, -, -, deadline, -, due, pass⟩ := pass_after_quiet_time built edits total
  refine ⟨built, total, ?_, ?_, ?_⟩
  · rw [deadline]
    decide +kernel
  · rw [due, if_pos (by decide +kernel)]
  · have updates := (pass .update (by decide +kernel)).1
    exact updates.trans (by decide +kernel)

end Logged
end FormulaSynth.Session
