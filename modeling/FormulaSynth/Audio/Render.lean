import FormulaSynth.Audio.Buffer
import FormulaSynth.Score.Score
import FormulaSynth.Sound.Note

/-!
# Rendering a score

Onsets with the same time make one section: the device is rendered up to the frame of that time, and then every
onset releases its channel and starts a key or rests. Frames are absolute, so rounding never adds up. Before
each section the renderer asks whether it has been cancelled.
-/

set_option autoImplicit false
namespace FormulaSynth.Audio
open Number Score Device Sound

structure Progress (α : Type) where
  fraction : α
  cancelled : Bool

namespace Progress
variable {α : Type} [Number α]

def new : Progress α := ⟨0, false⟩

def set (p : Progress α) (fraction : α) : Progress α :=
  { p with fraction := if isNaN fraction then 0 else clamp fraction 0 1 }

def cancel (p : Progress α) : Progress α := { p with cancelled := true }

def reset (p : Progress α) : Progress α := { p.set 0 with cancelled := false }

end Progress

inductive RenderError (α : Type)
  | cancelled
  | invalidDuration (duration : α)
  | invalidSampleRate (rate : Nat)
  | channelOutOfRange (id : Nat)

namespace RenderError

def label {α : Type} : RenderError α → String
  | cancelled => "Cancelled"
  | invalidDuration _ => "InvalidDuration"
  | invalidSampleRate _ => "InvalidSampleRate"
  | channelOutOfRange _ => "ChannelOutOfRange"

def message : RenderError Float → String
  | cancelled => "render cancelled"
  | invalidDuration duration => s!"invalid render duration: {(Binary64.ofFloat duration).message}"
  | invalidSampleRate rate => s!"invalid sample rate: {rate}"
  | channelOutOfRange id => s!"instrument {id} has no device channel (max {channelCount - 1})"

end RenderError

structure Stats where
  groups : Nat
  notes : Nat
  rests : Nat
deriving DecidableEq, Repr

def Stats.zero : Stats := ⟨0, 0, 0⟩

structure Renderer (α : Type) where
  rate : Nat
  velocity : Nat
  scheduler : Scheduler α
  stats : Stats

namespace Renderer
variable {α : Type}

def defaultRate : Nat := 44100
def defaultVelocity : Nat := 40

def new (rate : Nat) : Renderer α := ⟨rate, defaultVelocity, .new, .zero⟩
def default : Renderer α := new defaultRate

def withVelocity (r : Renderer α) (velocity : Nat) : Renderer α := { r with velocity := Nat.min velocity 127 }

end Renderer

/-- The onsets of one time: the frame they fall on, what the device is told there, and the fraction of
    all onsets that is done after them. -/
structure Section (α : Type) where
  frame : Nat
  commands : List Command
  notes : Nat
  rests : Nat
  fraction : α

variable {α : Type} [Number α]

def onsetKey? (score : Score α) (onset : Onset α) : Option Nat := do
  let part ← score.parts[onset.index]?
  formulaKey? (part.formula.eval onset.time)

def onsetCommands (score : Score α) (velocity : Nat) (onset : Onset α) : List Command :=
  match onsetKey? score onset with
  | some key => [.noteOff onset.id, .noteOn onset.id key velocity]
  | none => [.noteOff onset.id]

def frameAt (rate total : Nat) (time : α) : Nat := Nat.min (roundToNat (time * Number.ofNat rate)) total

/-- Runs of onsets with equal times. -/
def timeGroups (onsets : List (Onset α)) : List (List (Onset α)) :=
  onsets.splitBy fun a b => same a.time b.time

def sectionOf (score : Score α) (rate velocity total : Nat) (onsets : List (Onset α)) (fraction : α) :
    Section α :=
  let notes := onsets.countP fun onset => (onsetKey? score onset).isSome
  { frame := frameAt rate total (onsets.head?.elim 0 Onset.time)
    commands := onsets.flatMap (onsetCommands score velocity)
    notes := notes
    rests := onsets.length - notes
    fraction := fraction }

/-- `done` of `all` onsets come before the given groups. -/
def sectionsFrom (score : Score α) (rate velocity total all : Nat) (done : Nat) :
    List (List (Onset α)) → List (Section α)
  | [] => []
  | group :: rest =>
    let done := done + group.length
    sectionOf score rate velocity total group (Number.ofNat done / Number.ofNat all) ::
      sectionsFrom score rate velocity total all done rest

def setup (score : Score α) : List Command :=
  .reset :: score.parts.flatMap fun part => [.voice part.id part.voice, .volume part.id part.volume]

structure Stage (α δ σ : Type) where
  device : δ
  buffer : SampleBuffer σ
  position : Nat
  stats : Stats
  progress : Progress α

namespace Stage
variable {δ σ : Type} [NoteDevice δ σ]

def renderTo (st : Stage α δ σ) (frame : Nat) : Stage α δ σ :=
  let (buffer, device) := st.buffer.renderSpan st.device st.position frame
  { st with buffer := buffer, device := device, position := frame }

def play (st : Stage α δ σ) (s : Section α) : Stage α δ σ :=
  let st := st.renderTo s.frame
  { st with
    device := Commanded.commands st.device s.commands
    stats := ⟨st.stats.groups + 1, st.stats.notes + s.notes, st.stats.rests + s.rests⟩
    progress := st.progress.set s.fraction }

/-- Plays section after section until none is left or, asked before section `g`, `cancelled g` holds. Answers
    whether it came to the end. -/
def playAll (cancelled : Nat → Bool) (g : Nat) (st : Stage α δ σ) : List (Section α) → Stage α δ σ × Bool
  | [] => (st, true)
  | s :: rest => if cancelled g then (st, false) else (st.play s).playAll cancelled (g + 1) rest

end Stage

structure Rendered (α δ σ : Type) where
  result : Except (RenderError α) (SampleBuffer σ)
  renderer : Renderer α
  device : δ
  progress : Progress α

def invalid? (rate : Nat) (score : Score α) : Option (RenderError α) :=
  if rate = 0 then some (.invalidSampleRate rate)
  else if !isFinite score.duration || lt score.duration 0 then some (.invalidDuration score.duration)
  else (score.parts.find? fun part => channelCount ≤ part.id).map fun part => .channelOutOfRange part.id

def totalFrames (rate : Nat) (score : Score α) : Nat := roundToNat (score.duration * Number.ofNat rate)

namespace Renderer
variable {δ σ : Type} [NoteDevice δ σ] [Silence σ]

def sections (r : Renderer α) (score : Score α) (onsets : List (Onset α)) : List (Section α) :=
  sectionsFrom score r.rate r.velocity (totalFrames r.rate score) onsets.length 0 (timeGroups onsets)

def renderWith (r : Renderer α) (score : Score α) (device : δ) (progress : Progress α)
    (cancelled : Nat → Bool) : Rendered α δ σ :=
  match invalid? r.rate score with
  | some error => ⟨.error error, r, device, progress⟩
  | none =>
    let total := totalFrames r.rate score
    let scheduler := r.scheduler.run score.scheduleInput score.duration
    let ready : Stage α δ σ :=
      ⟨Commanded.commands device (setup score), .silent total r.rate, 0, .zero, progress⟩
    match ready.playAll cancelled 0 (r.sections score scheduler.onsets) with
    | (st, false) => ⟨.error .cancelled, { r with scheduler := scheduler }, st.device, st.progress⟩
    | (st, true) =>
      let st := st.renderTo total
      ⟨.ok st.buffer, { r with scheduler := scheduler, stats := st.stats }, st.device, st.progress.set 1⟩

/-- Nobody interferes while this runs, so the answer is the same before every section. -/
def render (r : Renderer α) (score : Score α) (device : δ) (progress : Progress α) : Rendered α δ σ :=
  r.renderWith score device progress fun _ => progress.cancelled

end Renderer
end FormulaSynth.Audio
