import FormulaSynth.Number.Machine
import FormulaSynth.Proofs.Recompile

set_option autoImplicit false
namespace FormulaSynth.Session
open Number Formula

theorem renewed_ne_iff {β : Type} {text seen : String} {r : Except Fault β} {old : β} :
    (if text = seen then old else r.toOption.getD old) ≠ old ↔ text ≠ seen ∧ ∃ v, r = .ok v ∧ v ≠ old := by
  split
  · rename_i same
    exact iff_of_false (fun other => other rfl) fun new => new.1 same
  · rename_i new
    rw [and_iff_right new]
    cases r with
    | ok v =>
      constructor
      · exact fun other => ⟨v, rfl, other⟩
      · rintro ⟨_, h, other⟩
        cases h
        exact other
    | error fault =>
      refine iff_of_false (fun other => other rfl) ?_
      rintro ⟨_, h, -⟩
      cases h

theorem newFault_iff {β : Type} {text seen : String} {r : Except Fault β} {fault : Fault} :
    (if text = seen then none else faultOf r) = some fault ↔ text ≠ seen ∧ r = .error fault := by
  split
  · rename_i same
    exact iff_of_false nofun fun new => new.1 same
  · rename_i new
    rw [and_iff_right new]
    cases r with
    | ok v => exact iff_of_false nofun nofun
    | error f => exact ⟨fun h => congrArg _ (Option.some.inj h), fun h => congrArg some (Except.error.inj h)⟩

namespace Instrument
variable {α : Type}

def noted (i : Instrument α) : Instrument α :=
  { i with seenFormula := i.formula, seenPeriod := i.periodText }

variable [Number α]

/-- Both texts are new, one of them has the fault, and what the other one gives takes the place of something else. -/
inductive TakesHalf (i : Instrument α) : Fault → Instrument α → Prop
  | period {fault : Fault} {period : Option α} (formulaNew : i.formula ≠ i.seenFormula)
      (periodNew : i.periodText ≠ i.seenPeriod) (faulty : programOf i.formula = .error fault)
      (good : periodOf i.periodText = .ok period) (other : period ≠ i.period) :
    TakesHalf i fault { i.noted with period := period }
  | program {fault : Fault} {program : Option Program} (formulaNew : i.formula ≠ i.seenFormula)
      (periodNew : i.periodText ≠ i.seenPeriod) (faulty : periodOf (α := α) i.periodText = .error fault)
      (good : programOf i.formula = .ok program) (other : program ≠ i.program) :
    TakesHalf i fault { i.noted with program := program }

theorem answer_eq_invalid_iff {i : Instrument α} {fault : Fault} :
    i.answer = .invalid i.id fault ↔ i.fault? = some fault := by
  unfold answer
  cases i.fault? with
  | some f =>
    constructor
    · intro h
      cases h
      rfl
    · intro h
      cases h
      rfl
  | none =>
    refine iff_of_false (fun h => ?_) nofun
    dsimp only at h
    split at h <;> cases h

theorem stale_of_fault {i : Instrument α} {fault : Fault} (h : i.fault? = some fault) : i.isStale = true := by
  rw [isStale_iff]
  by_contra seen
  obtain ⟨formula, period⟩ := not_or.mp seen
  rw [fault?, formulaFault?, periodFault?, if_pos (not_not.mp formula), if_pos (not_not.mp period)] at h
  cases h

theorem recompile_invalid_iff {i j : Instrument α} {fault : Fault} :
    i.recompile = (j, some (.invalid i.id fault)) ↔ j = i.recompiled ∧ i.fault? = some fault := by
  rw [recompile_eq, Prod.mk.injEq, eq_comm (a := i.recompiled)]
  refine and_congr_right fun _ => ?_
  cases stale : i.isStale with
  | true =>
    rw [if_pos rfl, Option.some.injEq]
    exact answer_eq_invalid_iff
  | false =>
    refine iff_of_false nofun fun fault => ?_
    rw [stale_of_fault fault] at stale
    cases stale

theorem fault?_eq_some {i : Instrument α} {fault : Fault} (h : i.fault? = some fault) :
    (i.formulaFault? = some fault ∧ i.nextProgram = i.program) ∨
      (i.formulaFault? = none ∧ i.periodFault? = some fault ∧ i.nextPeriod = i.period) := by
  unfold fault? at h
  cases formula : i.formulaFault? with
  | some f =>
    rw [formula] at h
    exact Or.inl ⟨h, nextProgram_of_fault (by rw [formula]; exact nofun)⟩
  | none =>
    rw [formula] at h
    refine Or.inr ⟨rfl, h, nextPeriod_of_fault ?_⟩
    rw [show i.periodFault? = some fault from h]
    exact nofun

theorem takesHalf_iff {i j : Instrument α} {fault : Fault} :
    i.TakesHalf fault j ↔
      (j = i.recompiled ∧ i.fault? = some fault) ∧ (j.program ≠ i.program ∨ j.period ≠ i.period) := by
  constructor
  · intro h
    cases h with
    | @period period formulaNew periodNew faulty good other =>
      have formula : i.formulaFault? = some fault := newFault_iff.mpr ⟨formulaNew, faulty⟩
      have kept : i.nextProgram = i.program := nextProgram_of_fault (by rw [formula]; exact nofun)
      have taken : i.nextPeriod = period := by rw [nextPeriod, if_neg periodNew, good]; rfl
      refine ⟨⟨?_, ?_⟩, Or.inr other⟩
      · rw [recompiled, kept, taken]
        rfl
      · rw [fault?, formula]
        rfl
    | @program program formulaNew periodNew faulty good other =>
      have period : i.periodFault? = some fault := newFault_iff.mpr ⟨periodNew, faulty⟩
      have kept : i.nextPeriod = i.period := nextPeriod_of_fault (by rw [period]; exact nofun)
      have taken : i.nextProgram = program := by rw [nextProgram, if_neg formulaNew, good]; rfl
      refine ⟨⟨?_, ?_⟩, Or.inl other⟩
      · rw [recompiled, kept, taken]
        rfl
      · rw [fault?, period, formulaFault?, if_neg formulaNew, good]
        rfl
  · rintro ⟨⟨rfl, told⟩, changed⟩
    rcases fault?_eq_some told with ⟨formula, kept⟩ | ⟨-, period, kept⟩
    · obtain ⟨formulaNew, faulty⟩ := newFault_iff.mp formula
      have taken : i.nextPeriod ≠ i.period := changed.resolve_left fun other => other kept
      obtain ⟨periodNew, period, good, other⟩ := renewed_ne_iff.mp taken
      have same : i.recompiled = { i.noted with period := period } := by
        rw [recompiled, kept, nextPeriod, if_neg periodNew, good]
        rfl
      rw [same]
      exact .period formulaNew periodNew faulty good other
    · obtain ⟨periodNew, faulty⟩ := newFault_iff.mp period
      have taken : i.nextProgram ≠ i.program := changed.resolve_right fun other => other kept
      obtain ⟨formulaNew, program, good, other⟩ := renewed_ne_iff.mp taken
      have same : i.recompiled = { i.noted with program := program } := by
        rw [recompiled, kept, nextProgram, if_neg formulaNew, good]
        rfl
      rw [same]
      exact .program formulaNew periodNew faulty good other

/-- A recompilation that answers a fault changes the program or the period in exactly one case, and otherwise
    nothing but the texts it has seen. A change that comes without a fault is told to the plot. -/
theorem recompile_takes_half_iff (i : Instrument α) :
    (∀ fault j, i.TakesHalf fault j ↔
      i.recompile = (j, some (.invalid i.id fault)) ∧ (j.program ≠ i.program ∨ j.period ≠ i.period)) ∧
    (∀ fault j, i.recompile = (j, some (.invalid i.id fault)) → i.TakesHalf fault j ∨ j = i.noted) ∧
    (∀ j update, i.recompile = (j, update) → j.program ≠ i.program ∨ j.period ≠ i.period →
      update = some (.redraw i.id) ∨ update = some (.clear i.id) ∨ ∃ fault, i.TakesHalf fault j) := by
  refine ⟨fun fault j => ?_, fun fault j h => ?_, fun j update h changed => ?_⟩
  · rw [recompile_invalid_iff]
    exact takesHalf_iff
  · obtain ⟨rfl, told⟩ := recompile_invalid_iff.mp h
    by_cases changed : i.nextProgram ≠ i.program ∨ i.nextPeriod ≠ i.period
    · exact Or.inl (takesHalf_iff.mpr ⟨⟨rfl, told⟩, changed⟩)
    · obtain ⟨program, period⟩ := not_or.mp changed
      refine Or.inr ?_
      rw [recompiled, not_not.mp program, not_not.mp period]
      rfl
  · rw [recompile_eq] at h
    cases h
    cases stale : i.isStale with
    | false =>
      rw [recompiled_of_fresh stale] at changed
      exact absurd changed (by simp)
    | true =>
      rw [if_pos rfl]
      cases told : i.fault? with
      | some fault => exact Or.inr (Or.inr ⟨fault, takesHalf_iff.mpr ⟨⟨rfl, told⟩, changed⟩⟩)
      | none =>
        unfold answer
        rw [told]
        dsimp only
        split
        · exact Or.inl rfl
        · exact Or.inr (Or.inl rfl)

/-- `sin(x)` beside the faulty period `1+`: the answer is a fault, and the program is a new one. -/
theorem recompile_takes_formula_beside_faulty_period :
    let compiled : Instrument Float := (((new 0).setFormula "x").setPeriod "1").recompile.1
    let i := (compiled.setFormula "sin(x)").setPeriod "1+"
    let fault : Fault := ⟨.unexpected none, ⟨1, 3⟩⟩
    i.recompile.2 = some (.invalid 0 fault) ∧ i.recompile.1.program ≠ i.program ∧
      i.TakesHalf fault i.recompile.1 := by
  intro compiled i fault
  have told : i.recompile.2 = some (.invalid 0 fault) := by decide +kernel
  have other : i.recompile.1.program ≠ i.program := by decide +kernel
  have id : i.id = 0 := by decide +kernel
  have whole : i.recompile = (i.recompile.1, some (.invalid i.id fault)) := by
    rw [id]
    exact Prod.ext rfl told
  exact ⟨told, other, ((recompile_takes_half_iff i).1 fault _).mpr ⟨whole, Or.inl other⟩⟩

end Instrument
end FormulaSynth.Session
