import FormulaSynth.Document.Files
import FormulaSynth.Document.Json.Parse
import FormulaSynth.Document.Json.Write
import FormulaSynth.Document.Yaml.Data
import FormulaSynth.Document.Yaml.Write
import FormulaSynth.Session.Settings

set_option autoImplicit false
namespace FormulaSynth.Document
open Session

def settingsFields : List String := ["function", "period_function", "volume", "instrument_name", "enabled"]

def trackFields : List String := ["name", "instruments"]

section Reading
variable {ν : Type} [Datum ν]

def settings? (v : ν) : Option (Settings Binary64) := do
  let [formula, period, volume, voice, enabled] ← Datum.fields? settingsFields v | none
  return {
    formula := ← orDefault Datum.text? "" formula
    period := ← orDefault Datum.text? "" period
    volume := ← orDefault Datum.float? .one volume
    voice := ← orDefault Datum.text? "" voice
    enabled := ← orDefault Datum.truth? false enabled }

def settingsList? (v : ν) : Option (List (Settings Binary64)) := do (← Datum.items? v).mapM settings?

def track? (v : ν) : Option (Track Binary64) := do
  let [name, instruments] ← Datum.fields? trackFields v | none
  return ⟨← orDefault Datum.text? "" name, ← orDefault settingsList? [] instruments⟩

end Reading

namespace Yaml

def writeSettings (s : Settings Binary64) : String :=
  "- function: " ++ scalarLine 4 s.formula ++
  "  period_function: " ++ scalarLine 4 s.period ++
  "  volume: " ++ s.volume.written .yaml ++ "\n" ++
  "  instrument_name: " ++ scalarLine 4 s.voice ++
  "  enabled: " ++ (if s.enabled then "true" else "false") ++ "\n"

def writeTrack (t : Track Binary64) : String :=
  let instruments :=
    if t.instruments.isEmpty then " []\n" else "\n" ++ String.join (t.instruments.map writeSettings)
  "name: " ++ scalarLine 2 t.name ++ "instruments:" ++ instruments

def trackExpansion : Expansion :=
  .record (trackFields.zip [.scalar, .list (.record (settingsFields.map (·, .scalar)))])

def readTrack? : String → Option (Track Binary64) := Value.read? trackExpansion track?

end Yaml

namespace Json

def writeSettings (s : Settings Binary64) : String :=
  object 4 (settingsFields.zip
    [quoted s.formula, quoted s.period, number s.volume, quoted s.voice, truth s.enabled])

def writeTrack (t : Track Binary64) : String :=
  object 0 (trackFields.zip [quoted t.name, array 2 (t.instruments.map writeSettings)])

def readTrack? (text : String) : Option (Track Binary64) := (Value.parse? text).bind track?

end Json

inductive TrackFormat
  | yaml
  | json
deriving DecidableEq, Repr

inductive TrackFault
  | file (fault : FileFault)
  | malformed (format : TrackFormat)
  | unknownFormat (path : String)
deriving DecidableEq, Repr

namespace TrackFormat

def ofPath (path : String) : Except TrackFault TrackFormat :=
  match (FileName.extension? path).map fun e => String.ofList (e.toList.map Char.toLower) with
  | some "yaml" | some "yml" => .ok .yaml
  | some "json" => .ok .json
  | _ => .error (.unknownFormat path)

def read? : TrackFormat → String → Option (Track Binary64)
  | yaml => Yaml.readTrack?
  | json => Json.readTrack?

def write : TrackFormat → Track Binary64 → String
  | yaml => Yaml.writeTrack
  | json => Json.writeTrack

end TrackFormat

namespace TrackFault

def label : TrackFault → String
  | file _ => "Io"
  | malformed .yaml => "Yaml"
  | malformed .json => "Json"
  | unknownFormat _ => "UnknownFormat"

def message? : TrackFault → Option String
  | file fault => some ("track I/O error: " ++ fault.message)
  | malformed _ => none
  | unknownFormat path => some s!"unknown track format: {path} (expected .yaml, .yml or .json)"

end TrackFault

namespace Files

/-- The format is known before the file is looked for. -/
def loadTrack (files : Files) (path : String) : Except TrackFault (Track Binary64) := do
  let format ← TrackFormat.ofPath path
  let text ← (files.text path).mapError .file
  match format.read? text with
  | some track => return track
  | none => throw (.malformed format)

def saveTrack (files : Files) (path : String) (track : Track Binary64) : Except TrackFault Files := do
  let format ← TrackFormat.ofPath path
  (files.store path (format.write track).toUTF8).mapError .file

end Files
end FormulaSynth.Document
