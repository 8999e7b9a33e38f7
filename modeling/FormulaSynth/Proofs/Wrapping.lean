import FormulaSynth.Proofs.Debounce

set_option autoImplicit false
namespace FormulaSynth.Session
open Number

namespace Clock

def stride (nanos : ℕ) : ℕ := min nanos (UInt64.size - 1)

theorem stride_lt (nanos : ℕ) : stride nanos < UInt64.size := by
  have size : UInt64.size = 2 ^ 64 := rfl
  unfold stride
  omega

theorem now_lt (c : Clock) : c.now < UInt64.size := c.nanos.toNat_lt_size

theorem now_advance_mod (c : Clock) (nanos : ℕ) : (c.advance nanos).now = (c.now + stride nanos) % UInt64.size := by
  have cut : (min nanos (Nat.pow 2 64 - 1)).toUInt64.toNat = stride nanos :=
    UInt64.toNat_ofNat_of_lt' (stride_lt nanos)
  rw [now, advance, UInt64.toNat_add, cut]
  rfl

theorem now_le_advance_iff (c : Clock) (nanos : ℕ) :
    c.now ≤ (c.advance nanos).now ↔ c.now + stride nanos < UInt64.size := by
  have now := c.now_lt
  have step := stride_lt nanos
  rw [now_advance_mod]
  constructor
  · intro forth
    by_contra full
    have turned : (c.now + stride nanos) % UInt64.size = c.now + stride nanos - UInt64.size := by
      rw [Nat.mod_eq_sub_mod (by omega), Nat.mod_eq_of_lt (by omega)]
    omega
  · intro room
    rw [Nat.mod_eq_of_lt room]
    omega

/-- The sum of the strides, were there no end of the counter. -/
def total (c : Clock) (steps : List ℕ) : ℕ := c.now + (steps.map stride).sum

theorem total_cons (c : Clock) (nanos : ℕ) (steps : List ℕ) :
    c.total (nanos :: steps) = c.now + stride nanos + (steps.map stride).sum := by
  rw [total, List.map_cons, List.sum_cons, Nat.add_assoc]

theorem now_foldl_advance (c : Clock) (steps : List ℕ) :
    (steps.foldl advance c).now = c.total steps % UInt64.size := by
  induction steps generalizing c with
  | nil => exact (Nat.mod_eq_of_lt c.now_lt).symm
  | cons nanos steps ih =>
    rw [List.foldl_cons, ih, total, now_advance_mod, Nat.mod_add_mod, total_cons]

def readings (c : Clock) (steps : List ℕ) : List ℕ := (steps.scanl advance c).map now

theorem readings_cons (c : Clock) (nanos : ℕ) (steps : List ℕ) :
    c.readings (nanos :: steps) = c.now :: (c.advance nanos).readings steps := by
  rw [readings, List.scanl_cons, List.map_cons]
  rfl

theorem head?_readings (c : Clock) (steps : List ℕ) : (c.readings steps).head? = some c.now := by
  cases steps <;> simp [readings]

theorem readings_isChain_iff (c : Clock) (steps : List ℕ) :
    (c.readings steps).IsChain (· ≤ ·) ↔ c.total steps < UInt64.size := by
  induction steps generalizing c with
  | nil => simpa [readings, total] using c.now_lt
  | cons nanos steps ih =>
    rw [readings_cons, List.isChain_cons, head?_readings, ih, total_cons]
    constructor
    · rintro ⟨forth, rest⟩
      have room := (c.now_le_advance_iff nanos).mp (forth _ rfl)
      rwa [total, now_advance_mod, Nat.mod_eq_of_lt room] at rest
    · intro room
      have first : c.now + stride nanos < UInt64.size := by omega
      refine ⟨fun _ read => ?_, ?_⟩
      · cases read
        exact (c.now_le_advance_iff nanos).mpr first
      · rwa [total, now_advance_mod, Nat.mod_eq_of_lt first]

end Clock

namespace Action
variable {α σ : Type}

def isCalm : Action α σ → Bool
  | .setFormula .. | .setPeriod .. | .update | .flush | .importSettings _ => false
  | _ => true

theorem isPass_of_isCalm {a : Action α σ} (calm : a.isCalm = true) (s : Session α) : a.isPass s = false := by
  cases a <;> first | rfl | cases calm

theorem retypes_of_isCalm {a : Action α σ} (calm : a.isCalm = true) (s : Session α) : a.retypes s = false := by
  cases a <;> first | rfl | cases calm

end Action

variable {α σ : Type} [Number α]

theorem Instrument.recompile_congr {i j : Instrument α} (same : Retouched i j) (texts : j.texts = i.texts) :
    j.recompile.2 = i.recompile.2 := by
  obtain ⟨formula, period⟩ := Prod.mk.inj texts
  have stale : j.isStale = i.isStale := by
    rw [isStale, isStale, formula, period, same.seenFormula, same.seenPeriod]
  have fault : j.fault? = i.fault? := by
    rw [fault?, fault?, formulaFault?, formulaFault?, periodFault?, periodFault?, formula, period, same.seenFormula,
      same.seenPeriod]
  have program : j.nextProgram = i.nextProgram := by
    rw [nextProgram, nextProgram, formula, same.seenFormula, same.program]
  rw [recompile_eq, recompile_eq, stale, answer, answer, fault, program, same.id]

/-- Nothing was typed or recompiled in between. -/
structure SameWait (s t : Session α) : Prop where
  deadline : t.deadline = s.deadline
  answers : t.instruments.map (·.recompile.2) = s.instruments.map (·.recompile.2)

theorem SameWait.flush {s t : Session α} (h : SameWait s t) : t.flush.1 = s.flush.1 := by
  have listed (s : Session α) : s.flush.1 = (s.instruments.map (·.recompile.2)).filterMap id := by
    rw [List.filterMap_map]
    exact List.filterMap_map
  rw [listed, listed, h.answers]

variable [Silence σ]

theorem SameWait.perform (s : Session α) {a : Action α σ} (calm : a.isCalm = true) : SameWait s (s.perform a) where
  deadline := by
    simp [(performed s a).deadline, a.isPass_of_isCalm calm, a.retypes_of_isCalm calm]
  answers := by
    have stays := a.isPass_of_isCalm calm s
    refine List.ext_getElem? fun place => ?_
    rw [List.getElem?_map, List.getElem?_map, (performed s a).instruments, Option.map_map]
    refine Option.map_congr fun i there => ?_
    have inside : place < s.instruments.length := (List.getElem?_eq_some_iff.mp there).1
    have untyped := editsAt_untyped stays (a.retypes_of_isCalm calm s) inside
    have leaves : a.leaves s place i = i.edited (a.editsAt place) := by simp [Action.leaves, stays]
    change (a.leaves s place i).recompile.2 = i.recompile.2
    rw [leaves]
    exact Instrument.recompile_congr (i.edited_retouched _) (edited_texts untyped i)

theorem SameWait.run {actions : List (Action α σ)} (calm : ∀ a ∈ actions, a.isCalm = true) (s : Session α) :
    SameWait s (actions.foldl Session.perform s) := by
  refine List.foldlRecOn (motive := SameWait s) actions Session.perform ⟨rfl, rfl⟩ ?_
  intro t h a mem
  have step := SameWait.perform t (calm a mem)
  exact ⟨step.deadline.trans h.deadline, step.answers.trans h.answers⟩

theorem clock_run (s : Session α) (actions : List (Action α σ)) :
    (actions.foldl Session.perform s).clock = (actions.map Action.nanos).foldl Clock.advance s.clock := by
  induction actions generalizing s with
  | nil => rfl
  | cons a actions ih => rw [List.foldl_cons, ih, (performed s a).clock, List.map_cons, List.foldl_cons]

/-- The time goes back in a run of steps exactly when their sum fills the counter. What is due is compiled as it would
    have been, if the time that is left of the sum still reaches the deadline, and else an update does nothing. -/
theorem due_while_counter_lasts :
    (∀ (c : Clock) (steps : List ℕ), (c.readings steps).IsChain (· ≤ ·) ↔ c.total steps < UInt64.size) ∧
    ∀ (s : Session α) (actions : List (Action α σ)), s.isDue = true → (∀ a ∈ actions, a.isCalm = true) →
      let t := actions.foldl perform s
      let total := s.clock.total (actions.map Action.nanos)
      t.clock.now = total % UInt64.size ∧
      ∃ deadline, s.deadline = some deadline ∧ t.deadline = some deadline ∧
        (t.isDue = true ↔ deadline ≤ total % UInt64.size) ∧
        t.update.1 = (if deadline ≤ total % UInt64.size then s.update.1 else []) ∧
        (total < UInt64.size → t.isDue = true ∧ t.update.1 = s.update.1) := by
  refine ⟨Clock.readings_isChain_iff, ?_⟩
  intro s actions due calm t total
  have wait : SameWait s t := SameWait.run calm s
  have now : t.clock.now = total % UInt64.size := by
    rw [show t.clock = _ from clock_run s actions, Clock.now_foldl_advance]
  obtain ⟨deadline, pending, passed⟩ : ∃ deadline, s.deadline = some deadline ∧ deadline ≤ s.clock.now := by
    simpa [isDue, Option.any_eq_true] using due
  have still : t.deadline = some deadline := wait.deadline.trans pending
  have dueAgain : t.isDue = decide (deadline ≤ total % UInt64.size) := by
    rw [isDue, still, now]
    rfl
  have told : t.update.1 = if deadline ≤ total % UInt64.size then s.update.1 else [] := by
    simp only [update, due, dueAgain, decide_eq_true_eq, if_true, ← wait.flush]
    split <;> rfl
  refine ⟨now, deadline, pending, still, by simp [dueAgain], told, ?_⟩
  intro room
  have reached : deadline ≤ total % UInt64.size := by
    rw [Nat.mod_eq_of_lt room]
    exact passed.trans (Nat.le_add_right _ _)
  exact ⟨by simp [dueAgain, reached], by rw [told, if_pos reached]⟩

/-- A formula is due after three quarters of a second. One step of the longest kind later it waits again. -/
theorem due_formula_waits_again :
    let edits : List (Action Float Sample) := [.setFormula 0 "x", .advance 750000000]
    let calm : List (Action Float Sample) := [.setEnabled 0 true, .advance (UInt64.size - 1)]
    let s := edits.foldl perform (new 1)
    let t := calm.foldl perform s
    s.isDue = true ∧ s.update.1 = [.redraw 0] ∧ t.clock.now = 749999999 ∧ t.isPending = true ∧ t.update.1 = [] := by
  intro edits calm s t
  have due : s.isDue = true := by decide +kernel
  have typed : s.deadline = some 750000000 := by decide +kernel
  have quiet : ∀ a ∈ calm, a.isCalm = true := by
    intro a mem
    obtain rfl | rfl : a = .setEnabled 0 true ∨ a = .advance (UInt64.size - 1) := by simpa [calm] using mem
    · rfl
    · rfl
  obtain ⟨now, deadline, pending, still, -, told, -⟩ := due_while_counter_lasts.2 s calm due quiet
  have total : s.clock.total (calm.map Action.nanos) % UInt64.size = 749999999 := by decide +kernel
  obtain rfl : 750000000 = deadline := Option.some.inj (typed.symm.trans pending)
  rw [total] at now told
  exact ⟨due, by decide +kernel, now, by rw [isPending, still]; rfl, told⟩

end FormulaSynth.Session
