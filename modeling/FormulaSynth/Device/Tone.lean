import FormulaSynth.Device.Basic
import FormulaSynth.Sound.Note

/-!
# The tone device

One oscillator for each sounding note. A released note keeps sounding until its envelope ends, so a channel may
have several tails beside the note it holds.
-/

set_option autoImplicit false
namespace FormulaSynth.Device
open Number Sound

structure Channel where
  voice : Voice
  volume : Nat
deriving DecidableEq, Repr

def Channel.initial : Channel := ⟨.first, 100⟩

def maxSounding : Nat := 64

/-- `age` counts the frames since the key went down, and `gateOff` is the age at which it went up. -/
structure Sounding (α : Type) where
  channel : Nat
  timbre : Timbre α
  frequency : α
  phase : α
  gain : α
  age : Nat
  gateOff : Option Nat

structure ToneDevice (α : Type) where
  rate : Nat
  master : α
  seed : UInt64
  noise : NoiseSource
  channels : List Channel
  sounding : List (Sounding α)

variable {α : Type} [Number α]

namespace Sounding

def isHeld (n : Sounding α) : Bool := n.gateOff.isNone

def released (n : Sounding α) : Sounding α := if n.isHeld then { n with gateOff := some n.age } else n

def seconds (rate : α) (frames : Nat) : α := Number.ofNat frames / rate

def level (n : Sounding α) (rate : α) : α :=
  n.timbre.envelope.amplitude (seconds rate n.age) (n.gateOff.map (seconds rate))

def isFinished (n : Sounding α) (rate : α) : Bool :=
  n.timbre.envelope.isFinished (seconds rate n.age) (n.gateOff.map (seconds rate))

def advanced (n : Sounding α) (rate : Nat) : Sounding α :=
  { n with phase := advancePhase n.phase n.frequency rate, age := n.age + 1 }

end Sounding

namespace ToneDevice

def defaultMaster : α := 0.75

def idle : List Channel := List.replicate channelCount Channel.initial

def new (rate : Nat) (seed : UInt64) : ToneDevice α :=
  ⟨rate, defaultMaster, seed, .ofSeed seed, idle, []⟩

def withMaster (d : ToneDevice α) (volume : α) : ToneDevice α := { d with master := clamp volume 0 1 }

def reset (d : ToneDevice α) : ToneDevice α :=
  { d with sounding := [], channels := idle, noise := .ofSeed d.seed }

def onChannel (d : ToneDevice α) (channel : Nat) (f : Channel → Channel) : ToneDevice α :=
  { d with channels := d.channels.modify channel f }

def release (d : ToneDevice α) (channel : Nat) : ToneDevice α :=
  { d with sounding := d.sounding.map fun n => if n.channel = channel then n.released else n }

/-- When the device is full, the oldest released note is dropped, and the oldest of all if none is released. -/
def makeRoom (d : ToneDevice α) : ToneDevice α :=
  if d.sounding.length < maxSounding then d
  else { d with sounding := d.sounding.eraseIdx ((d.sounding.findIdx? fun n => !n.isHeld).getD 0) }

def noteGain (timbre : Timbre α) (velocity volume : Nat) : α :=
  timbre.gain * Number.ofNat (Nat.min velocity 127) / 127 * Number.ofNat volume / 127

def start (d : ToneDevice α) (channel : Nat) (c : Channel) (key velocity : Nat) : ToneDevice α :=
  let timbre := c.voice.timbre
  { d with sounding := d.sounding ++
      [⟨channel, timbre, keyFrequency key, 0, noteGain timbre velocity c.volume, 0, none⟩] }

def noteOn (d : ToneDevice α) (channel key velocity : Nat) : ToneDevice α :=
  match d.channels[channel]? with
  | some c => ((d.release channel).makeRoom).start channel c key velocity
  | none => d

def command (d : ToneDevice α) : Command → ToneDevice α
  | .reset => d.reset
  | .voice channel voice => d.onChannel channel fun c => { c with voice := voice }
  | .volume channel level => d.onChannel channel fun c => { c with volume := Nat.min level 127 }
  | .noteOn channel key velocity => d.noteOn channel key velocity
  | .noteOff channel => d.release channel

/-- Adds one sample of each note to `mix`, in order, and moves the notes one frame on. `done` has the notes
    already heard, the last one first. -/
def mixNotes (rate : Nat) (seconds : α) (source : NoiseSource) (mix : α) (done : List (Sounding α)) :
    List (Sounding α) → α × NoiseSource × List (Sounding α)
  | [] => (mix, source, done.reverse)
  | n :: rest =>
    let (wave, source) := n.timbre.waveform.sample n.phase source
    mixNotes rate seconds source (mix + wave * n.level seconds * n.gain) (n.advanced rate :: done) rest

def mixFrame (d : ToneDevice α) : α × ToneDevice α :=
  let (mix, noise, sounding) := mixNotes d.rate (Number.ofNat d.rate) d.noise 0 [] d.sounding
  (mix, { d with noise := noise, sounding := sounding })

def renderFrames {σ : Type} [Narrow α σ] (d : ToneDevice α) (samples : Array σ) :
    Nat → ToneDevice α × Array σ
  | 0 => (d, samples)
  | frames + 1 =>
    let (mix, d) := d.mixFrame
    d.renderFrames (samples.push (Narrow.narrow (mix * d.master))) frames

def settled (d : ToneDevice α) : ToneDevice α :=
  { d with sounding := d.sounding.filter fun n => !n.isFinished (Number.ofNat d.rate) }

def render {σ : Type} [Narrow α σ] (d : ToneDevice α) (frames : Nat) : ToneDevice α × Array σ :=
  let (d, samples) := d.renderFrames (Array.mkEmpty frames) frames
  (d.settled, samples)

end ToneDevice

/-- Both sides get the same samples, as many as both have room for. -/
instance {σ : Type} [Narrow α σ] : NoteDevice (ToneDevice α) σ where
  command := ToneDevice.command
  render d left right :=
    let (d, samples) := d.render (Nat.min left right)
    (d, samples, samples)

end FormulaSynth.Device
