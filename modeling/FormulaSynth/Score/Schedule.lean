import FormulaSynth.Formula.Compile
import FormulaSynth.Formula.Machine

set_option autoImplicit false
namespace FormulaSynth.Score
open Number
variable {α : Type} [Number α]

def minPeriod : α := 0.1
def maxPeriod : α := Number.tau

/-- A period is positive, and is brought between the shortest and the longest one. -/
def clampPeriod (value : α) : Option α :=
  if !isFinite value || le value 0 then none else some (clamp value minPeriod maxPeriod)

def compilePeriod (source : String) : Except Formula.Fault (Option α) := do
  return clampPeriod ((← Formula.compile source).eval (1 : α))

structure Part (α : Type) where
  id : Nat
  formula : Formula.Program
  period : α

/-- The start of a note. `index` is the place of its part in the scheduled list. -/
structure Onset (α : Type) where
  id : Nat
  index : Nat
  time : α

def Part.isSchedulable (part : Part α) : Bool := isFinite part.period && le minPeriod part.period

def onsetCount (duration period : α) : Nat := truncToNat ((duration + epsilon) / period)

def Part.onsets (part : Part α) (index : Nat) (duration : α) : List (Onset α) :=
  (List.range (onsetCount duration part.period)).map fun k =>
    ⟨part.id, index, Number.ofNat (k + 1) * part.period⟩

def activeParts (parts : List (Part α)) : List (Part α × Nat) :=
  parts.zipIdx.filter fun (part, _) => part.isSchedulable

/-- Times are positive, so the order of numbers is total on them. -/
def earlier (a b : Onset α) : Bool := le a.time b.time

/-- The onsets of a single part need no sorting. -/
def schedule (parts : List (Part α)) (duration : α) : List (Onset α) :=
  if !isFinite duration || le duration 0 then []
  else
    let active := activeParts parts
    let onsets := active.flatMap fun (part, index) => part.onsets index duration
    if active.length > 1 then onsets.mergeSort earlier else onsets

structure Scheduler (α : Type) where
  onsets : List (Onset α)

def Scheduler.new : Scheduler α := ⟨[]⟩

def Scheduler.run (_ : Scheduler α) (parts : List (Part α)) (duration : α) : Scheduler α :=
  ⟨schedule parts duration⟩

theorem Scheduler.run_onsets (s : Scheduler α) (parts : List (Part α)) (duration : α) :
    (s.run parts duration).onsets = schedule parts duration := rfl

structure Point (α : Type) where
  x : α
  y : α

def Part.points (part : Part α) (duration : α) : List (Point α) :=
  (schedule [part] duration).map fun onset => ⟨onset.time, part.formula.eval onset.time⟩

end FormulaSynth.Score
