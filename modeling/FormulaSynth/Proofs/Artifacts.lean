import FormulaSynth.Proofs.Debounce

set_option autoImplicit false
namespace FormulaSynth.Session
open Number Formula

/-- Blank or free of faults. -/
def sound (text : String) : Bool := Text.allBlank text || (Formula.compile text).toOption.isSome

def compiled? (text : String) : Option Program :=
  if Text.allBlank text then none else (Formula.compile text).toOption

def measured? {α : Type} [Number α] (text : String) : Option α :=
  (compiled? text).bind fun program =>
    let value := program.eval (1 : α)
    if isFinite value && !le value 0 then some (clamp value 0.1 Number.tau) else none

theorem programOf_toOption (text : String) :
    (programOf text).toOption = if sound text then some (compiled? text) else none := by
  unfold programOf sound compiled?
  by_cases blank : Text.allBlank text = true
  · simp [blank, Except.toOption]
  · cases Formula.compile text <;> simp [blank, Except.map, Except.toOption]

section Texts
variable {α : Type} [Number α]

theorem clampPeriod_eq (value : α) :
    Score.clampPeriod value =
      if isFinite value && !le value 0 then some (clamp value 0.1 Number.tau) else none := by
  unfold Score.clampPeriod
  cases isFinite value <;> cases le value 0 <;> rfl

theorem periodOf_toOption (text : String) :
    (periodOf (α := α) text).toOption = if sound text then some (measured? text) else none := by
  unfold periodOf sound measured? compiled? Score.compilePeriod
  by_cases blank : Text.allBlank text = true
  · simp [blank, Except.toOption]
  · cases Formula.compile text with
    | error fault => simp [blank, Except.toOption, bind, Except.bind]
    | ok program => simp [blank, Except.toOption, bind, Except.bind, pure, Except.pure, clampPeriod_eq]

structure Settled (i : Instrument α) : Prop where
  program : (programOf i.seenFormula).toOption.getD i.program = i.program
  period : (periodOf i.seenPeriod).toOption.getD i.period = i.period

theorem settled_new (id : ℕ) : Settled (Instrument.new (α := α) id) := ⟨rfl, rfl⟩

theorem Settled.apply (e : Edit α) {i : Instrument α} (h : Settled i) : Settled (e.apply i) := by
  cases e <;> exact ⟨h.program, h.period⟩

theorem Settled.nextProgram {i : Instrument α} (h : Settled i) :
    i.nextProgram = (programOf i.formula).toOption.getD i.program := by
  unfold Instrument.nextProgram
  split
  · rename_i same
    rw [same, h.program]
  · rfl

theorem Settled.nextPeriod {i : Instrument α} (h : Settled i) :
    i.nextPeriod = (periodOf i.periodText).toOption.getD i.period := by
  unfold Instrument.nextPeriod
  split
  · rename_i same
    rw [same, h.period]
  · rfl

theorem Settled.recompiled {i : Instrument α} (h : Settled i) : Settled i.recompiled := by
  constructor
  · change (programOf i.formula).toOption.getD i.nextProgram = i.nextProgram
    rw [h.nextProgram]
    cases (programOf i.formula).toOption <;> rfl
  · change (periodOf i.periodText).toOption.getD i.nextPeriod = i.nextPeriod
    rw [h.nextPeriod]
    cases (periodOf (α := α) i.periodText).toOption <;> rfl

theorem find?_sound_cons {β : Type} (f : String → Option β) (text : String) (texts : List String) :
    ((text :: texts).find? sound).bind f =
      (if sound text then some (f text) else none).getD ((texts.find? sound).bind f) := by
  rw [List.find?_cons]
  cases sound text <;> rfl

end Texts

namespace Logged
variable {α σ : Type} [Number α] [Silence σ]

def formulasAt (w : Logged α) (place : ℕ) : List String := w.passes.map fun texts => (textsAt texts place).1

def periodsAt (w : Logged α) (place : ℕ) : List String := w.passes.map fun texts => (textsAt texts place).2

structure Holds (w : Logged α) : Prop where
  settled : ∀ i ∈ w.session.instruments, Settled i
  program (place : ℕ) (i : Instrument α) (found : w.session.instruments[place]? = some i) :
    i.program = ((w.formulasAt place).find? sound).bind compiled?
  period (place : ℕ) (i : Instrument α) (found : w.session.instruments[place]? = some i) :
    i.period = ((w.periodsAt place).find? sound).bind measured?

theorem Holds.start {s : Session α} (h : Built s) : Holds (start s) where
  settled := h.forall_instruments settled_new
  program _ i found :=
    h.forall_instruments (P := fun i => i.program = none) (fun _ => rfl) i (List.mem_of_getElem? found)
  period _ i found :=
    h.forall_instruments (P := fun i => i.period = none) (fun _ => rfl) i (List.mem_of_getElem? found)

theorem Holds.met {w : Logged α} (h : Holds w) {a : Action α σ} (passes : a.isPass w.session = true) {place : ℕ}
    {j : Instrument α} (found : (w.session.perform a).instruments[place]? = some j) :
    ∃ i, Settled i ∧ j = i.recompiled ∧ textsAt (w.session.perform a).texts place = i.texts ∧
      i.program = ((w.formulasAt place).find? sound).bind compiled? ∧
      i.period = ((w.periodsAt place).find? sound).bind measured? := by
  have texts := texts_at found
  obtain ⟨i, there, rfl⟩ := comes_of_pass passes found
  have kept := i.edited_retouched (a.editsAt place)
  exact ⟨i.edited (a.editsAt place),
    Instrument.edited_keeps (fun e _ h => h.apply e) (h.settled i (List.mem_of_getElem? there)) _, rfl, texts,
    kept.program.trans (h.program place i there), kept.period.trans (h.period place i there)⟩

theorem Holds.pass {w : Logged α} (h : Holds w) {a : Action α σ} (passes : a.isPass w.session = true)
    (settled : ∀ i ∈ (w.session.perform a).instruments, Settled i) : Holds (w.perform a) := by
  rw [perform_of_pass passes]
  refine ⟨settled, ?_, ?_⟩
  · intro place j found
    obtain ⟨i, before, rfl, texts, program, -⟩ := h.met passes found
    change i.nextProgram = (((textsAt (w.session.perform a).texts place).1 :: w.formulasAt place).find? sound).bind _
    rw [find?_sound_cons, texts, ← program, before.nextProgram, programOf_toOption]
    rfl
  · intro place j found
    obtain ⟨i, before, rfl, texts, -, period⟩ := h.met passes found
    change i.nextPeriod = (((textsAt (w.session.perform a).texts place).2 :: w.periodsAt place).find? sound).bind _
    rw [find?_sound_cons, texts, ← period, before.nextPeriod, periodOf_toOption]
    rfl

theorem Holds.stay {w : Logged α} (h : Holds w) {a : Action α σ} (stays : a.isPass w.session = false)
    (settled : ∀ i ∈ (w.session.perform a).instruments, Settled i) : Holds (w.perform a) := by
  rw [perform_of_stay stays]
  refine ⟨settled, ?_, ?_⟩
  · intro place j found
    obtain ⟨i, there, rfl⟩ := comes_of_stay stays found
    exact (i.edited_retouched _).program.trans (h.program place i there)
  · intro place j found
    obtain ⟨i, there, rfl⟩ := comes_of_stay stays found
    exact (i.edited_retouched _).period.trans (h.period place i there)

theorem Holds.perform {w : Logged α} (h : Holds w) (a : Action α σ) : Holds (w.perform a) := by
  have settled := perform_forall (P := Settled) (fun e _ h => h.apply e) (fun _ h => h.recompiled) h.settled a
  cases passes : a.isPass w.session with
  | true => exact h.pass passes settled
  | false => exact h.stay passes settled

theorem Holds.run {w : Logged α} (h : Holds w) (actions : List (Action α σ)) : Holds (w.run actions) :=
  List.foldlRecOn (motive := Holds) actions Logged.perform h fun _ h a _ => h.perform a

theorem compiled?_of_blank {text : String} (blank : Text.allBlank text = true) : compiled? text = none :=
  if_pos blank

/-- What an instrument has compiled is told by the texts that the passes found in it, and by each of the two on its
    own: the latest one that is blank or compiles counts, however often the texts were changed and whatever was
    faulty since. -/
theorem artifacts_of_passes {s : Session α} (h : Built s) (actions : List (Action α σ)) :
    let w := (start s).run actions
    w.session = actions.foldl Session.perform s ∧
    ∀ (place : ℕ) (i : Instrument α), w.session.instruments[place]? = some i →
      i.program = ((w.formulasAt place).find? sound).bind compiled? ∧
      i.period = ((w.periodsAt place).find? sound).bind measured? ∧
      ∀ text, (w.formulasAt place).head? = some text → Text.allBlank text = true → i.program = none := by
  intro w
  have holds : Holds w := (Holds.start h).run actions
  refine ⟨run_session (start s) actions, fun place i found => ?_⟩
  have program := holds.program place i found
  refine ⟨program, holds.period place i found, ?_⟩
  intro text latest blank
  obtain ⟨rest, formulas⟩ := List.head?_eq_some_iff.mp latest
  rw [program, formulas, List.find?_cons_of_pos (by simp [sound, blank]), Option.bind_some]
  exact compiled?_of_blank blank

/-- A faulty formula beside a good period, a faulty period beside a good formula, and an import with two faulty texts. -/
theorem artifacts_of_faulty_texts :
    let edits : List (Action Float Sample) := [.setFormula 0 "x+", .setPeriod 0 "0.01", .flush, .setFormula 0 "x",
      .setPeriod 0 "1+", .flush, .setPeriod 0 "1", .importSettings [⟨"2(", "(", 1, "", true⟩]]
    let w := (start (new 1)).run edits
    Built (new 1 : Session Float) ∧ ∃ i, w.session.instruments[0]? = some i ∧
      i.program = (Formula.compile "x").toOption ∧ i.period = some 0.1 := by
  intro edits w
  have built : Built (new 1 : Session Float) := .new 1
  have some : w.session.instruments[0]?.isSome = true := by decide +kernel
  obtain ⟨i, found⟩ := Option.isSome_iff_exists.mp some
  obtain ⟨program, period, -⟩ := (artifacts_of_passes built edits).2 0 i found
  refine ⟨built, i, found, ?_, ?_⟩
  · rw [program]
    decide +kernel
  · rw [period]
    decide +kernel

end Logged
end FormulaSynth.Session
