import FormulaSynth.Cli.Arguments

set_option autoImplicit false
namespace FormulaSynth.Cli

inductive Command
  | eval (formula : String) (first last step : Binary64)
  /-- The onsets of a track, the starter track if none is given. -/
  | schedule (track : Option String)
  | render (track wave pcm : Option String) (play : Bool)
  | voices
deriving DecidableEq, Repr

structure Invocation where
  config : Option String
  command : Command
deriving DecidableEq, Repr

def configOption : OptionSpec :=
  ⟨"config", some 'c', .value .path, "Config file (default: ~/.sinecord/config.yaml)"⟩

def helpOption : OptionSpec := ⟨"help", some 'h', .help, "Print help"⟩

def versionOption : OptionSpec := ⟨"version", some 'V', .version, "Print version"⟩

def programName : String := "sinecord"

def commandUsage (name about : String) (operands : List OperandSpec) (options : List OptionSpec) : Usage :=
  ⟨s!"{programName} {name}", about, [], operands, configOption :: options ++ [helpOption]⟩

def evalUsage : Usage :=
  commandUsage "eval" "Compile a formula and print its values" [⟨"FORMULA", .text, .once, ""⟩]
    [⟨"from", none, .value .number, "First x value [default: 0]"⟩,
      ⟨"to", none, .value .number, "Last x value [default: 6.283185307179586]"⟩,
      ⟨"step", none, .value .number, "Distance between x values [default: 0.5]"⟩]

def trackOperand : OperandSpec :=
  ⟨"TRACK", .path, .optional, "Track file (.yaml, .yml or .json); the starter session if omitted"⟩

def scheduleUsage : Usage :=
  commandUsage "schedule" "Print the merged note onsets of a track" [trackOperand] []

def renderUsage : Usage :=
  commandUsage "render" "Render a track to audio" [trackOperand]
    [⟨"output", some 'o', .value .path, "Write a 16-bit stereo WAV file"⟩,
      ⟨"pcm", none, .value .path, "Write raw interleaved 16-bit little-endian PCM"⟩,
      ⟨"play", none, .switch, "Play the result on the default output device"⟩]

def voicesUsage : Usage := commandUsage "voices" "List the available voices" [] []

def helpUsage : Usage :=
  ⟨s!"{programName} help", "Print this message or the help of the given subcommand(s)", [],
    [⟨"COMMAND", .text, .repeated, "Print help for the subcommand(s)"⟩], []⟩

def number (a : Arguments) (name : String) (default : Binary64) : Binary64 :=
  ((a.option? name).bind fun value => Binary64.readWord? value.toList).getD default

def fullTurn : Binary64 := .ofDecimal 6283185307179586 (-15)
def half : Binary64 := .ofDecimal 5 (-1)

def evalCommand (a : Arguments) : Except Halt Command :=
  match a.operands with
  | [formula] => .ok (.eval formula (number a "from" .zero) (number a "to" fullTurn) (number a "step" half))
  | _ => .error .misuse

def scheduleCommand (a : Arguments) : Except Halt Command := .ok (.schedule a.operands.head?)

def renderCommand (a : Arguments) : Except Halt Command :=
  .ok (.render a.operands.head? (a.option? "output") (a.option? "pcm") (a.isOn "play"))

def voicesCommand (_ : Arguments) : Except Halt Command := .ok .voices

def commands : List (String × Usage × (Arguments → Except Halt Command)) :=
  [("eval", evalUsage, evalCommand), ("schedule", scheduleUsage, scheduleCommand),
    ("render", renderUsage, renderCommand), ("voices", voicesUsage, voicesCommand)]

def mainUsage : Usage :=
  ⟨programName, "Formula-driven music synthesis",
    commands.map (fun (name, usage, _) => (name, usage.about)) ++ [("help", helpUsage.about)], [],
    [configOption, helpOption, versionOption]⟩

def readHelp (words : List String) : Halt :=
  match words with
  | [] => .help mainUsage
  | ["help"] => .help helpUsage
  | [name] => (commands.lookup name).elim .misuse fun (usage, _) => .help usage
  | _ => .misuse

/-- A configuration named behind the command wins over one named before it. -/
def Invocation.read (words : List String) : Except Halt Invocation := do
  let outer ← Arguments.read mainUsage words
  let name :: _ := outer.operands | .error .misuse
  if name == "help" then .error (readHelp outer.rest)
  else
    let some (usage, finish) := commands.lookup name | .error .misuse
    let inner ← Arguments.read usage outer.rest
    return ⟨(inner.option? "config").or (outer.option? "config"), ← finish inner⟩

end FormulaSynth.Cli
