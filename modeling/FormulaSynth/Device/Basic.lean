import FormulaSynth.Sound.Voice

set_option autoImplicit false
namespace FormulaSynth.Device
open Sound (Voice)

def channelCount : Nat := 16

inductive Command
  | reset
  | voice (channel : Nat) (voice : Voice)
  | volume (channel level : Nat)
  /-- Release what the channel holds and start a key. -/
  | noteOn (channel key velocity : Nat)
  | noteOff (channel : Nat)
deriving DecidableEq, Repr

end FormulaSynth.Device

namespace FormulaSynth

class Commanded (δ : Type) where
  command : δ → Device.Command → δ

/-- Rendering answers the new leading samples of a left and a right span of the given lengths. -/
class NoteDevice (δ σ : Type) extends Commanded δ where
  render : δ → (left right : Nat) → δ × Array σ × Array σ

def Commanded.commands {δ : Type} [Commanded δ] (device : δ) (cs : List Device.Command) : δ :=
  cs.foldl Commanded.command device

end FormulaSynth
