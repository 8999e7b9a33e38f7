import FormulaSynth.Number.Basic

set_option autoImplicit false
namespace FormulaSynth.Session
open Number

structure Settings (α : Type) where
  formula : String
  period : String
  volume : α
  /-- By name, so that the catalog may be reordered. -/
  voice : String
  enabled : Bool

structure Track (α : Type) where
  name : String
  instruments : List (Settings α)

namespace Settings

def map {α β : Type} (f : α → β) (s : Settings α) : Settings β := { s with volume := f s.volume }

def blank {α : Type} [Number α] : Settings α := ⟨"", "", 1, "", false⟩

end Settings

namespace Track

def map {α β : Type} (f : α → β) (t : Track α) : Track β := ⟨t.name, t.instruments.map (Settings.map f)⟩

def starter {α : Type} [Number α] : Track α :=
  ⟨"session", [⟨"sin(x/2) - 0.2", "pi/9", 1, "Synth Bass 1", true⟩,
    ⟨"pi/4", "pi/3", 1, "Synth Bass 1", true⟩]⟩

end Track
end FormulaSynth.Session
