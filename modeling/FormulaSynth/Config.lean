import FormulaSynth.Audio.Render
import FormulaSynth.Device.Tone

set_option autoImplicit false
namespace FormulaSynth
open Number

structure Config (α : Type) where
  rate : Nat
  duration : α
  /-- Quiet time after an edit, in milliseconds. -/
  debounce : Nat
  instrumentCount : Nat
  master : α
  velocity : Nat
  seed : UInt64

namespace Config
variable {α : Type} [Number α]

def defaultDebounce : Nat := 750
def defaultInstruments : Nat := 4

def default : Config α where
  rate := Audio.Renderer.defaultRate
  duration := Score.defaultDuration
  debounce := defaultDebounce
  instrumentCount := defaultInstruments
  master := Device.ToneDevice.defaultMaster
  velocity := Audio.Renderer.defaultVelocity
  seed := 42

def sanitized (c : Config α) : Config α :=
  { c with
    rate := if c.rate = 0 then (default : Config α).rate else c.rate
    duration := if !isFinite c.duration || le c.duration 0 then (default : Config α).duration else c.duration
    instrumentCount := Nat.min (Nat.max c.instrumentCount 1) Device.channelCount
    master := if isFinite c.master then clamp c.master 0 1 else (default : Config α).master
    velocity := Nat.min c.velocity 127 }

end Config
end FormulaSynth
