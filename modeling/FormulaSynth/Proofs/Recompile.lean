import FormulaSynth.Session.Session
import Mathlib

set_option autoImplicit false
namespace FormulaSynth.Session
open Number Formula

def programOf (text : String) : Except Fault (Option Program) :=
  if Text.allBlank text then .ok none else (Formula.compile text).map some

def periodOf {α : Type} [Number α] (text : String) : Except Fault (Option α) :=
  if Text.allBlank text then .ok none else Score.compilePeriod text

def faultOf {β : Type} : Except Fault β → Option Fault
  | .ok _ => none
  | .error fault => some fault

theorem toOption_getD_of_fault {β : Type} {r : Except Fault β} {old : β} (h : faultOf r ≠ none) :
    r.toOption.getD old = old := by
  cases r with
  | ok v => exact absurd rfl h
  | error fault => rfl

namespace Instrument
variable {α : Type}

theorem isStale_iff (i : Instrument α) :
    i.isStale = true ↔ i.formula ≠ i.seenFormula ∨ i.periodText ≠ i.seenPeriod := by
  rw [isStale, Bool.or_eq_true, bne_iff_ne, bne_iff_ne]

theorem seenFormula_self {i : Instrument α} {text : String} (h : text = i.seenFormula) :
    { i with seenFormula := text } = i := by
  rw [h]

theorem seenPeriod_self {i : Instrument α} {text : String} (h : text = i.seenPeriod) :
    { i with seenPeriod := text } = i := by
  rw [h]

def nextProgram (i : Instrument α) : Option Program :=
  if i.formula = i.seenFormula then i.program else (programOf i.formula).toOption.getD i.program

def formulaFault? (i : Instrument α) : Option Fault :=
  if i.formula = i.seenFormula then none else faultOf (programOf i.formula)

theorem recompileFormula_eq (i : Instrument α) :
    i.recompileFormula =
      ({ i with seenFormula := i.formula, program := i.nextProgram }, i.formulaFault?) := by
  unfold recompileFormula nextProgram formulaFault?
  by_cases seen : i.formula = i.seenFormula
  · rw [if_pos seen, if_pos seen, if_pos seen]
    exact congrArg (·, none) (seenFormula_self seen).symm
  · rw [if_neg seen, if_neg seen, if_neg seen]
    unfold programOf
    by_cases blank : Text.allBlank i.formula = true
    · rw [if_pos blank, if_pos blank]
      rfl
    · rw [if_neg blank, if_neg blank]
      cases Formula.compile i.formula with
      | ok program => rfl
      | error fault => rfl

theorem nextProgram_of_fault {i : Instrument α} (h : i.formulaFault? ≠ none) : i.nextProgram = i.program := by
  unfold nextProgram
  unfold formulaFault? at h
  split
  · rfl
  · rename_i new
    rw [if_neg new] at h
    exact toOption_getD_of_fault h

variable [Number α]

def nextPeriod (i : Instrument α) : Option α :=
  if i.periodText = i.seenPeriod then i.period else (periodOf i.periodText).toOption.getD i.period

def periodFault? (i : Instrument α) : Option Fault :=
  if i.periodText = i.seenPeriod then none else faultOf (periodOf (α := α) i.periodText)

def fault? (i : Instrument α) : Option Fault :=
  i.formulaFault?.or i.periodFault?

def recompiled (i : Instrument α) : Instrument α :=
  { i with
    seenFormula := i.formula
    program := i.nextProgram
    seenPeriod := i.periodText
    period := i.nextPeriod }

@[simp] theorem recompiled_id (i : Instrument α) : i.recompiled.id = i.id := rfl

def answer (i : Instrument α) : PlotUpdate :=
  match i.fault? with
  | some fault => .invalid i.id fault
  | none => if i.nextProgram.isSome then .redraw i.id else .clear i.id

theorem recompilePeriod_eq (i : Instrument α) :
    i.recompilePeriod =
      ({ i with seenPeriod := i.periodText, period := i.nextPeriod }, i.periodFault?) := by
  unfold recompilePeriod nextPeriod periodFault?
  by_cases seen : i.periodText = i.seenPeriod
  · rw [if_pos seen, if_pos seen, if_pos seen]
    exact congrArg (·, none) (seenPeriod_self seen).symm
  · rw [if_neg seen, if_neg seen, if_neg seen]
    unfold periodOf
    by_cases blank : Text.allBlank i.periodText = true
    · rw [if_pos blank, if_pos blank]
      rfl
    · rw [if_neg blank, if_neg blank]
      cases Score.compilePeriod (α := α) i.periodText with
      | ok period => rfl
      | error fault => rfl

theorem recompiled_of_fresh {i : Instrument α} (fresh : i.isStale = false) : i.recompiled = i := by
  have same : ¬(i.formula ≠ i.seenFormula ∨ i.periodText ≠ i.seenPeriod) := by
    rw [← isStale_iff, fresh]
    exact Bool.false_ne_true
  have formula : i.formula = i.seenFormula := by
    by_contra h
    exact same (Or.inl h)
  have period : i.periodText = i.seenPeriod := by
    by_contra h
    exact same (Or.inr h)
  rw [recompiled, nextProgram, nextPeriod, if_pos formula, if_pos period]
  change { { i with seenFormula := i.formula } with seenPeriod := i.periodText } = i
  rw [seenFormula_self formula, seenPeriod_self period]

theorem recompiled_fresh (i : Instrument α) : i.recompiled.isStale = false := by
  rw [Bool.eq_false_iff, Ne, isStale_iff]
  exact fun h => h.elim (fun ne => ne rfl) (fun ne => ne rfl)

theorem nextPeriod_of_fault {i : Instrument α} (h : i.periodFault? ≠ none) : i.nextPeriod = i.period := by
  unfold nextPeriod
  unfold periodFault? at h
  split
  · rfl
  · rename_i new
    rw [if_neg new] at h
    exact toOption_getD_of_fault h

theorem recompile_eq (i : Instrument α) :
    i.recompile = (i.recompiled, if i.isStale = true then some i.answer else none) := by
  unfold recompile
  by_cases stale : i.isStale = true
  · rw [if_pos stale, if_neg (by rw [stale]; exact Bool.false_ne_true)]
    rw [recompileFormula_eq]
    dsimp only
    rw [recompilePeriod_eq]
    unfold answer fault?
    change (match i.formulaFault?.or i.periodFault? with
      | some fault => (i.recompiled, some (PlotUpdate.invalid i.id fault))
      | none => (i.recompiled, some (if i.nextProgram.isSome then .redraw i.id else .clear i.id))) = _
    cases i.formulaFault?.or i.periodFault? with
    | none => rfl
    | some fault => rfl
  · have fresh := Bool.eq_false_iff.mpr stale
    rw [if_neg stale, if_pos (by rw [fresh]; rfl), recompiled_of_fresh fresh]

theorem answer_isInvalid (i : Instrument α) : i.answer.isInvalid = i.fault?.isSome := by
  unfold answer
  cases i.fault? with
  | some fault => rfl
  | none =>
    dsimp only
    split <;> rfl

/-- Stale, and both of its new texts compile. -/
def isNews (i : Instrument α) : Bool := i.isStale && i.fault?.isNone

theorem fault_of_not_isNews {i : Instrument α} (quiet : i.isNews = false) (stale : i.isStale = true) :
    i.formulaFault? ≠ none ∨ i.periodFault? ≠ none := by
  by_contra both
  obtain ⟨formula, period⟩ := not_or.mp both
  rw [isNews, stale, fault?, not_not.mp formula, not_not.mp period] at quiet
  exact absurd quiet.symm Bool.false_ne_true

theorem recompile_isNews (i : Instrument α) :
    (i.recompile.2.any fun u => !u.isInvalid) = i.isNews := by
  rw [recompile_eq, isNews]
  cases i.isStale with
  | false => rfl
  | true =>
    change (!i.answer.isInvalid) = (true && i.fault?.isNone)
    rw [answer_isInvalid, Bool.true_and]
    cases i.fault? <;> rfl

end Instrument

variable {α : Type} [Number α]

theorem any_filterMap_recompile (is : List (Instrument α)) :
    ((is.map Instrument.recompile).filterMap Prod.snd).any (fun u => !u.isInvalid) =
      is.any Instrument.isNews := by
  rw [List.filterMap_map, List.any_filterMap]
  refine congrArg is.any ?_
  funext i
  exact i.recompile_isNews

theorem flush_eq (s : Session α) :
    s.flush.2 = { s with
      instruments := s.instruments.map Instrument.recompiled
      deadline := none
      changed := s.changed || s.instruments.any Instrument.isNews } := by
  have firsts : (s.instruments.map Instrument.recompile).map Prod.fst =
      s.instruments.map Instrument.recompiled := by
    rw [List.map_map]
    refine List.map_congr_left ?_
    intro i _
    exact congrArg Prod.fst i.recompile_eq
  change { s with
    instruments := (s.instruments.map Instrument.recompile).map Prod.fst
    deadline := none
    changed := s.changed ||
      ((s.instruments.map Instrument.recompile).filterMap Prod.snd).any fun u => !u.isInvalid } = _
  rw [firsts, any_filterMap_recompile]

end FormulaSynth.Session
