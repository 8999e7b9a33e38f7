import FormulaSynth.Proofs.Cancellation
import FormulaSynth.Proofs.Fractions
import FormulaSynth.Proofs.Groups
import FormulaSynth.Proofs.Walk

/-!
# What a render counts

The schedule is ascending, so the groups of a render are the distinct times of its onsets, and the counts of onsets up
to these times are the lengths of what is done after each group. So the statistics add up to all onsets, and the
fractions in the cell grow to one.
-/

set_option autoImplicit false
namespace FormulaSynth.Audio
open Number Score Device Sound
variable {α : Type} [Number α]

section Counting
variable [Ordered α] {onsets : List (Onset α)} {times : List α} {s t : α}

end Counting

def audible (score : Score α) (onset : Onset α) : Bool :=
  score.parts[onset.index]?.any fun part =>
    let magnitude := Number.abs (part.formula.eval onset.time)
    le 0 magnitude && le magnitude audibleMax

section Sums
variable (score : Score α) (rate velocity total all done : ℕ) (gs : List (List (Onset α)))

end Sums

section Cells
variable {δ σ : Type} [NoteDevice δ σ]

end Cells

namespace Renderer
variable {δ σ : Type} [NoteDevice δ σ] [Silence σ]

/-- What the cell holds after each group. -/
def fractions (r : Renderer α) (score : Score α) (device : δ) (progress : Progress α) : List α :=
  let stages : List (Stage α δ σ) := (r.scoreSections score).scanl Stage.play (r.ready score device progress)
  stages.tail.map fun st => st.progress.fraction

section Rendering
variable [Ordered α] {r : Renderer α} {score : Score α}

variable (sound : Renderable r.rate score) (device : δ) {progress : Progress α} (going : progress.cancelled = false)
include sound going

end Rendering

section Doubles
variable {score : Score Float}

end Doubles

end Renderer
end FormulaSynth.Audio
