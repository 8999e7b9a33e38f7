import FormulaSynth.Device.Basic
import FormulaSynth.Number.Basic

set_option autoImplicit false
namespace FormulaSynth.Device

inductive Call
  | command (c : Command)
  | render (position frames : Nat)
deriving DecidableEq, Repr

/-- A silent device. `calls` has the last one first. -/
structure Recorder where
  calls : List Call
  position : Nat

namespace Recorder

def new : Recorder := ⟨[], 0⟩

def log (r : Recorder) : List Call := r.calls.reverse

def command (r : Recorder) (c : Command) : Recorder :=
  ⟨.command c :: r.calls, if c = .reset then 0 else r.position⟩

def render (r : Recorder) (frames : Nat) : Recorder :=
  ⟨.render r.position frames :: r.calls, r.position + frames⟩

def emptied (r : Recorder) : Recorder := { r with calls := [] }

end Recorder

structure PlacedNote where
  frame : Nat
  channel : Nat
  key : Nat
deriving DecidableEq, Repr

def notesFrom (frame : Nat) : List Call → List PlacedNote
  | [] => []
  | .command .reset :: rest => notesFrom 0 rest
  | .command (.noteOn channel key _) :: rest => ⟨frame, channel, key⟩ :: notesFrom frame rest
  | .command _ :: rest => notesFrom frame rest
  | .render position frames :: rest => notesFrom (position + frames) rest

def Recorder.notes (r : Recorder) : List PlacedNote := notesFrom 0 r.log

instance {σ : Type} [Silence σ] : NoteDevice Recorder σ where
  command := Recorder.command
  render r left right :=
    (r.render left, Array.replicate left Silence.silence, Array.replicate right Silence.silence)

end FormulaSynth.Device
