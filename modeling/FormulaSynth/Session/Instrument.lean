import FormulaSynth.Score.Schedule
import FormulaSynth.Sound.Voice
import FormulaSynth.Text.Basic

set_option autoImplicit false
namespace FormulaSynth.Session
open Number Sound

inductive PlotUpdate
  | redraw (id : Nat)
  | clear (id : Nat)
  | invalid (id : Nat) (fault : Formula.Fault)
deriving DecidableEq, Repr

namespace PlotUpdate

def id : PlotUpdate → Nat
  | redraw id | clear id | invalid id _ => id

def isInvalid : PlotUpdate → Bool
  | invalid .. => true
  | _ => false

end PlotUpdate

structure Instrument (α : Type) where
  id : Nat
  formula : String
  seenFormula : String
  program : Option Formula.Program
  periodText : String
  seenPeriod : String
  period : Option α
  enabled : Bool
  volume : α
  voiceIndex : Nat

namespace Instrument
variable {α : Type} [Number α]

def new (id : Nat) : Instrument α := ⟨id, "", "", none, "", "", none, false, 1, 0⟩

def voice (i : Instrument α) : Voice := (voice? i.voiceIndex).getD .first

def level (i : Instrument α) : Nat := Nat.min (roundToNat (127 * i.volume)) 255

/-- Whether a render plays the instrument. A blank formula is silent even while its old program waits to be
    dropped. -/
def isPlayable (i : Instrument α) : Bool :=
  i.enabled && i.program.isSome && i.period.isSome && !Text.allBlank i.formula

def setFormula (i : Instrument α) (text : String) : Instrument α := { i with formula := text }
def setPeriod (i : Instrument α) (text : String) : Instrument α := { i with periodText := text }
def setEnabled (i : Instrument α) (on : Bool) : Instrument α := { i with enabled := on }

def setVolume (i : Instrument α) (volume : α) : Instrument α :=
  { i with volume := if isNaN volume then 0 else clamp volume 0 1 }

def setVoice (i : Instrument α) (index : Nat) : Instrument α := { i with voiceIndex := index }

def isStale (i : Instrument α) : Bool := i.formula != i.seenFormula || i.periodText != i.seenPeriod

/-- Compiles the formula if it changed. A faulty one leaves the program as it was. -/
def recompileFormula (i : Instrument α) : Instrument α × Option Formula.Fault :=
  if i.formula = i.seenFormula then (i, none)
  else
    let i := { i with seenFormula := i.formula }
    if Text.allBlank i.formula then ({ i with program := none }, none)
    else match Formula.compile i.formula with
      | .ok program => ({ i with program := some program }, none)
      | .error fault => (i, some fault)

def recompilePeriod (i : Instrument α) : Instrument α × Option Formula.Fault :=
  if i.periodText = i.seenPeriod then (i, none)
  else
    let i := { i with seenPeriod := i.periodText }
    if Text.allBlank i.periodText then ({ i with period := none }, none)
    else match Score.compilePeriod i.periodText with
      | .ok period => ({ i with period := period }, none)
      | .error fault => (i, some fault)

/-- Compiles what changed since the last time. The formula's fault is told before the period's. -/
def recompile (i : Instrument α) : Instrument α × Option PlotUpdate :=
  if !i.isStale then (i, none)
  else
    let (i, formulaFault) := i.recompileFormula
    let (i, periodFault) := i.recompilePeriod
    match formulaFault.or periodFault with
    | some fault => (i, some (.invalid i.id fault))
    | none => (i, some (if i.program.isSome then .redraw i.id else .clear i.id))

end Instrument
end FormulaSynth.Session
