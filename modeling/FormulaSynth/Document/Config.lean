import FormulaSynth.Config
import FormulaSynth.Document.Files
import FormulaSynth.Document.Yaml.Data

set_option autoImplicit false
namespace FormulaSynth.Document

def configFields : List String :=
  ["sample_rate", "duration_secs", "debounce_ms", "instrument_count", "master_volume", "note_velocity", "seed"]

section Reading
variable {ν α : Type} [Datum ν] [Number α]

def number? (v : ν) : Option α := (Datum.float? v).map Number.ofBinary64

/-- What is missing keeps its default. The values may still be out of their ranges. -/
def config? (v : ν) : Option (Config α) := do
  let [rate, duration, debounce, instrumentCount, master, velocity, seed] ← Datum.fields? configFields v | none
  let standard : Config α := .default
  return {
    rate := ← orDefault (countBelow (Nat.pow 2 32)) standard.rate rate
    duration := ← orDefault number? standard.duration duration
    debounce := ← orDefault (countBelow (Nat.pow 2 64)) standard.debounce debounce
    instrumentCount := ← orDefault (countBelow (Nat.pow 2 64)) standard.instrumentCount instrumentCount
    master := ← orDefault number? standard.master master
    velocity := ← orDefault (countBelow (Nat.pow 2 8)) standard.velocity velocity
    seed := (← orDefault (countBelow (Nat.pow 2 64)) standard.seed.toNat seed).toUInt64 }

end Reading

variable {α : Type} [Number α]

def configExpansion : Yaml.Expansion := .record (configFields.map (·, .scalar))

def readConfig? (text : String) : Option (Config α) := do
  return Config.sanitized (← Yaml.Value.read? configExpansion config? text)

def Files.config? (files : Files) (path : String) : Option (Config α) :=
  match files.text path with
  | .ok text => readConfig? text
  | .error _ => none

def configPath (home : String) : String := FileName.joined home ".sinecord/config.yaml"

def trackDirectory (home : String) : String := FileName.joined home ".sinecord/tracks"

def Files.homeConfig (files : Files) (home : String) : Config α :=
  (files.config? (configPath home)).getD .default

end FormulaSynth.Document
