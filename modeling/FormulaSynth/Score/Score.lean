import FormulaSynth.Score.Schedule
import FormulaSynth.Sound.Voice

set_option autoImplicit false
namespace FormulaSynth
open Sound

namespace Score

/-- A part with its place in the score, its voice and its channel volume from 0 to 127. The identity of
    the part is its channel. -/
structure VoicedPart (α : Type) extends Part α where
  index : Nat
  voice : Voice
  volume : Nat

end Score

structure Score (α : Type) where
  parts : List (Score.VoicedPart α)
  duration : α

namespace Score
variable {α : Type}

def empty (duration : α) : Score α := ⟨[], duration⟩

def defaultDuration [Number α] : α := Number.ofNat 20

def push (s : Score α) (part : Part α) (voice : Voice) (volume : Nat) : Score α :=
  { s with parts := s.parts ++ [⟨part, s.parts.length, voice, volume⟩] }

def scheduleInput (s : Score α) : List (Part α) := s.parts.map VoicedPart.toPart

end Score
end FormulaSynth
