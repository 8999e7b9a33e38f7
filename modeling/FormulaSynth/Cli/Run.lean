import FormulaSynth.Audio.Playback
import FormulaSynth.Cli.Command
import FormulaSynth.Device.Tone
import FormulaSynth.Document.Config
import FormulaSynth.Document.Track
import FormulaSynth.Number.Machine
import FormulaSynth.Number.Written
import FormulaSynth.Session.Session

set_option autoImplicit false
namespace FormulaSynth.Cli
open Audio Device Document Number Session Sound Text

structure Sampling (α : Type) where
  first : α
  last : α
  step : α

namespace Sampling
variable {α : Type} [Number α]

def isValid (s : Sampling α) : Bool := isFinite s.step && lt 0 s.step

def place (s : Sampling α) (k : Nat) : α := s.first + Number.ofNat k * s.step

def isPast (s : Sampling α) (k : Nat) : Bool := lt (s.last + epsilon) (s.place k)

/-- `found` are the places before the one of number `k`, the latest first. -/
def placesFrom (s : Sampling α) (fuel k : Nat) (found : List α) : List α :=
  match fuel with
  | 0 => found.reverse
  | fuel + 1 => if s.isPast k then found.reverse else s.placesFrom fuel (k + 1) (s.place k :: found)

def placeLimit : Nat := Nat.pow 2 64

def places (s : Sampling α) : List α := s.placesFrom placeLimit 0 []

end Sampling

inductive Failure
  | stated (text : String)
  | formula (fault : Formula.Fault)
  | track (fault : TrackFault)
  | render (label : String)
  | wave (fault : FileFault)
  | pcm (fault : FileFault)
  | unsupportedWave
  | playback

def TrackFault.details (f : TrackFault) : String :=
  match f with
  | .file fault => s!"Io({fault.details})"
  | .malformed _ => f.label
  | .unknownFormat path => s!"UnknownFormat({quoted path})"

def Failure.details : Failure → String
  | stated text => quoted text
  | formula fault => fault.details
  | track fault => TrackFault.details fault
  | render label => label
  | wave fault => s!"IoError({fault.details})"
  | pcm fault => fault.details
  | unsupportedWave => "Unsupported"
  | playback => "NoOutputDevice"

structure Outcome where
  exit : Nat
  lines : List String
  message : String
  files : Files

structure Report where
  lines : List String
  files : Files
  failure : Option Failure

def Report.failed (files : Files) (f : Failure) : Report := ⟨[], files, some f⟩

def Report.outcome (r : Report) : Outcome :=
  match r.failure with
  | some f => ⟨1, r.lines, "Error: " ++ f.details ++ "\n", r.files⟩
  | none => ⟨0, r.lines, "", r.files⟩

def fixed (width places : Nat) (x : Float) : String := (Binary64.ofFloat x).fixed width places

def usesLine (program : Formula.Program) : List String :=
  if program.functions.isEmpty then [] else ["uses: " ++ ", ".intercalate program.functions]

def valueLine (program : Formula.Program) (x : Float) : String :=
  fixed 10 4 x ++ "  " ++ fixed 12 6 (program.eval x)

def runEval (files : Files) (formula : String) (s : Sampling Float) : Report :=
  if !s.isValid then .failed files (.stated s!"step must be positive, got {(Binary64.ofFloat s.step).message}")
  else match Formula.compile formula with
    | .error fault => .failed files (.formula fault)
    | .ok program => ⟨usesLine program ++ s.places.map (valueLine program), files, none⟩

def trackScore (config : Config Float) (files : Files) (path : Option String) : Except TrackFault (Score Float) := do
  let track ← match path with
    | some path => (files.loadTrack path).map (Track.map Binary64.toFloat)
    | none => pure Track.starter
  return ((Session.ofConfig config).importTrack track).2.score

def onsetLine (score : Score Float) (onset : Score.Onset Float) : String :=
  let y := (score.parts[onset.index]?).elim 0 fun part => part.formula.eval onset.time
  let note := (formulaKey? y).elim "rest" keyName
  s!"{fixed 9 4 onset.time}  #{onset.id}  {fixed 10 4 y}  {note}"

def runSchedule (config : Config Float) (files : Files) (path : Option String) : Report :=
  match trackScore config files path with
  | .error fault => .failed files (.track fault)
  | .ok score =>
    ⟨(Score.schedule score.scheduleInput score.duration).map (onsetLine score), files, none⟩

def renderTrack (config : Config Float) (score : Score Float) : Rendered Float (ToneDevice Float) Sample :=
  let device := (ToneDevice.new config.rate config.seed).withMaster config.master
  ((Renderer.new config.rate).withVelocity config.velocity).render score device .new

/-- Writes the wave file and then the bare samples, and stops at the first fault. -/
def writeBuffer (b : SampleBuffer Sample) (files : Files) (wave pcm : Option String) : Report :=
  let waved : Except Failure Files := match wave, b.wave? with
    | none, _ => .ok files
    | some path, some bytes => (files.write path bytes).mapError Failure.wave
    | some _, none => .error .unsupportedWave
  match waved with
  | .error f => .failed files f
  | .ok files =>
    match pcm with
    | none => ⟨[], files, none⟩
    | some path =>
      match files.write path b.pcm with
      | .error fault => .failed files (.pcm fault)
      | .ok files => ⟨[], files, none⟩

def runRender (config : Config Float) (files : Files) (track wave pcm : Option String) (play : Bool) : Report :=
  match trackScore config files track with
  | .error fault => .failed files (.track fault)
  | .ok score =>
    match (renderTrack config score).result with
    | .error e => .failed files (.render e.label)
    | .ok buffer =>
      let report := writeBuffer buffer files wave pcm
      if play then { report with failure := report.failure.or (some .playback) } else report

def voiceLine (v : Voice) (index : Nat) : String :=
  s!"{padLeft 2 (toString index)}  {padRight 18 v.name} {v.kind.label}"

def runVoices (files : Files) : Report := ⟨catalog.zipIdx.map fun (v, index) => voiceLine v index, files, none⟩

/-- The named configuration must be readable. Without one, the one at home counts if it is. -/
def invocationConfig (files : Files) (home : String) (config : Option String) : Except Failure (Config Float) :=
  match config with
  | none => .ok (files.homeConfig home)
  | some path =>
    match files.config? path with
    | some config => .ok config
    | none => .error (.stated s!"cannot read config {path}")

def Command.run (files : Files) (config : Config Float) : Command → Report
  | eval formula first last step => runEval files formula ⟨first.toFloat, last.toFloat, step.toFloat⟩
  | schedule track => runSchedule config files track
  | render track wave pcm play => runRender config files track wave pcm play
  | voices => runVoices files

def Invocation.run (i : Invocation) (files : Files) (home : String) : Report :=
  match invocationConfig files home i.config with
  | .error f => .failed files f
  | .ok config => i.command.run files config

def versionLine : String := s!"{programName} 0.1.0"

def usageLine : String := s!"{mainUsage.call}, see {programName} --help\n"

def Halt.outcome (files : Files) : Halt → Outcome
  | misuse => ⟨2, [], usageLine, files⟩
  | help usage => ⟨0, usage.help, "", files⟩
  | version => ⟨0, [versionLine], "", files⟩

def run (words : List String) (files : Files) (home : String) : Outcome :=
  match Invocation.read words with
  | .error halt => halt.outcome files
  | .ok i => (i.run files home).outcome

end FormulaSynth.Cli
