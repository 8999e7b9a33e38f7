import FormulaSynth.Number.Basic

set_option autoImplicit false
namespace FormulaSynth.Sound
open Number
variable {α : Type} [Number α]

def lowestKey : Nat := 36
def keySpan : Nat := 48

def audibleMax : α := 3

/-- Magnitudes from zero to the audible limit spread evenly over the keys. All else is a rest. -/
def formulaKey? (y : α) : Option Nat :=
  let magnitude := Number.abs y
  if le 0 magnitude && le magnitude audibleMax then
    some (lowestKey + roundToNat (magnitude * Number.ofNat keySpan / audibleMax))
  else none

def pitchNames : List String := ["C", "C#", "D", "D#", "E", "F", "F#", "G", "G#", "A", "A#", "B"]

def keyName (key : Nat) : String :=
  pitchNames.getD (key % 12) "" ++ toString ((key / 12 : Nat) - 1 : Int)

def keyFrequency (key : Nat) : α := 440 * Number.pow 2 ((Number.ofNat key - 69) / 12)

structure Envelope (α : Type) where
  attack : α
  decay : α
  sustain : α
  release : α

namespace Envelope

def held (e : Envelope α) (t : α) : α :=
  if lt t 0 then 0
  else if lt t e.attack then t / e.attack
  else if lt t (e.attack + e.decay) then 1 - (t - e.attack) / e.decay * (1 - e.sustain)
  else e.sustain

def released (e : Envelope α) (level t : α) : α :=
  if le e.release t then 0 else level * (1 - t / e.release)

/-- `off` is when the key went up, if it did. -/
def amplitude (e : Envelope α) (t : α) : Option α → α
  | some off => if le off t then e.released (e.held off) (t - off) else e.held t
  | none => e.held t

def isFinished (e : Envelope α) (t : α) : Option α → Bool
  | some off => le e.release (t - off)
  | none => false

end Envelope
end FormulaSynth.Sound
