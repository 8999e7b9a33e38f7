import FormulaSynth.Audio.Render
import FormulaSynth.Config
import FormulaSynth.Session.Instrument
import FormulaSynth.Session.Settings

/-!
# Sessions

The instruments under live editing. An edit of a text compiles nothing. It sets a deadline, a quiet time
ahead, and once that has passed the stale instruments are recompiled and the plots hear about it. A flag tells
whether a render taken now could differ from the last one.
-/

set_option autoImplicit false
namespace FormulaSynth.Session

def nanosPerSecond : Nat := 1000000000
def nanosPerMilli : Nat := 1000000

/-- A clock that moves when it is told to. It counts nanoseconds in one machine word. -/
structure Clock where
  nanos : UInt64
deriving DecidableEq, Repr

namespace Clock

def start : Clock := ⟨0⟩

def now (c : Clock) : Nat := c.nanos.toNat

/-- A step longer than a word can count is cut to the longest one. -/
def advance (c : Clock) (nanos : Nat) : Clock := ⟨c.nanos + (min nanos (Nat.pow 2 64 - 1)).toUInt64⟩

end Clock
end FormulaSynth.Session

namespace FormulaSynth
open Number Sound Session Audio

structure Session (α : Type) where
  instruments : List (Instrument α)
  clock : Clock
  /-- In nanoseconds, as are all times of the clock. -/
  debounce : Nat
  deadline : Option Nat
  changed : Bool
  duration : α
  renderer : Renderer α

namespace Session
variable {α : Type} [Number α]

def new (count : Nat) : Session α where
  instruments := (List.range count).map Instrument.new
  clock := .start
  debounce := Config.defaultDebounce * nanosPerMilli
  deadline := none
  changed := true
  duration := Score.defaultDuration
  renderer := .default

def default : Session α := new Config.defaultInstruments

def ofConfig (c : Config α) : Session α :=
  { new c.instrumentCount with
    debounce := c.debounce * nanosPerMilli
    duration := c.duration
    renderer := (Renderer.new c.rate).withVelocity c.velocity }

def withDebounce (s : Session α) (nanos : Nat) : Session α := { s with debounce := nanos }
def withDuration (s : Session α) (duration : α) : Session α := { s with duration := duration }
def withRenderer (s : Session α) (renderer : Renderer α) : Session α := { s with renderer := renderer }

def advance (s : Session α) (nanos : Nat) : Session α := { s with clock := s.clock.advance nanos }

def onInstrument (s : Session α) (id : Nat) (f : Instrument α → Instrument α) : Session α :=
  if id < s.instruments.length then { s with instruments := s.instruments.modify id f, changed := true }
  else s

def arm (s : Session α) : Session α := { s with deadline := some (s.clock.now + s.debounce) }

def editText (s : Session α) (id : Nat) (f : Instrument α → Instrument α) : Session α :=
  if id < s.instruments.length then (s.onInstrument id f).arm else s

def setFormula (s : Session α) (id : Nat) (text : String) : Session α := s.editText id (·.setFormula text)
def setPeriod (s : Session α) (id : Nat) (text : String) : Session α := s.editText id (·.setPeriod text)
def setEnabled (s : Session α) (id : Nat) (on : Bool) : Session α := s.onInstrument id (·.setEnabled on)
def setVolume (s : Session α) (id : Nat) (volume : α) : Session α := s.onInstrument id (·.setVolume volume)

def setVoice (s : Session α) (id index : Nat) : Session α :=
  if (voice? index).isSome then s.onInstrument id (·.setVoice index) else s

def setVoiceNamed (s : Session α) (id : Nat) (name : String) : Bool × Session α :=
  match voiceIndex? name with
  | some index => (true, s.setVoice id index)
  | none => (false, s)

def markChanged (s : Session α) : Session α := { s with changed := true }
def markRendered (s : Session α) : Session α := { s with changed := false }

def isPending (s : Session α) : Bool := s.deadline.isSome

def flush (s : Session α) : List PlotUpdate × Session α :=
  let results := s.instruments.map Instrument.recompile
  let updates := results.filterMap Prod.snd
  (updates, { s with
    instruments := results.map Prod.fst
    deadline := none
    changed := s.changed || updates.any fun u => !u.isInvalid })

def isDue (s : Session α) : Bool := s.deadline.any fun deadline => deadline ≤ s.clock.now

def update (s : Session α) : List PlotUpdate × Session α := if s.isDue then s.flush else ([], s)

def addPart (score : Score α) (i : Instrument α) : Score α :=
  match i.program, i.period with
  | some program, some period => score.push ⟨i.id, program, period⟩ i.voice i.level
  | _, _ => score

def score (s : Session α) : Score α :=
  (s.instruments.filter Instrument.isPlayable).foldl addPart (.empty s.duration)

def takeScore (s : Session α) : Option (Score α) × Session α :=
  if s.changed then (some s.score, s.markRendered) else (none, s)

structure Attempt (α δ σ : Type) where
  result : Option (Except (RenderError α) (SampleBuffer σ))
  session : Session α
  device : δ
  progress : Progress α

/-- Renders the score if anything changed. The flag goes down first and comes back if the render fails. -/
def renderWith {δ σ : Type} [NoteDevice δ σ] [Silence σ] (s : Session α) (device : δ)
    (progress : Progress α) (cancelled : Nat → Bool) : Attempt α δ σ :=
  match s.takeScore with
  | (none, s) => ⟨none, s, device, progress⟩
  | (some score, s) =>
    let done : Rendered α δ σ := s.renderer.renderWith score device progress cancelled
    let failed := match done.result with
      | .ok _ => false
      | .error _ => true
    ⟨some done.result, { s with renderer := done.renderer, changed := s.changed || failed },
      done.device, done.progress⟩

def render {δ σ : Type} [NoteDevice δ σ] [Silence σ] (s : Session α) (device : δ)
    (progress : Progress α) : Attempt α δ σ :=
  s.renderWith device progress fun _ => progress.cancelled

def points (s : Session α) (id : Nat) : List (Score.Point α) :=
  match s.instruments[id]? with
  | none => []
  | some i => match i.program, i.period with
    | some program, some period => Score.Part.points ⟨id, program, period⟩ s.duration
    | _, _ => []

def exportInstrument (i : Instrument α) : Settings α :=
  ⟨i.formula, i.periodText, i.volume, i.voice.name, i.enabled⟩

def exportSettings (s : Session α) : List (Settings α) := s.instruments.map exportInstrument

def exportTrack (s : Session α) (name : String) : Track α := ⟨name, s.exportSettings⟩

def voiceOrFirst (name : String) : Nat := (voiceIndex? name).getD 0

def configure (i : Instrument α) (settings : Settings α) : Instrument α :=
  ((((i.setFormula settings.formula).setPeriod settings.period).setVolume settings.volume).setEnabled
    settings.enabled).setVoice (voiceOrFirst settings.voice)

/-- Gives every instrument new settings and recompiles at once. Instruments without settings become blank, and
    settings without an instrument are dropped. -/
def importSettings (s : Session α) (settings : List (Settings α)) : List PlotUpdate × Session α :=
  flush { s with
    instruments := s.instruments.mapIdx fun id i => configure i (settings.getD id .blank)
    changed := true }

def importTrack (s : Session α) (track : Track α) : List PlotUpdate × Session α :=
  s.importSettings track.instruments

end Session
end FormulaSynth
