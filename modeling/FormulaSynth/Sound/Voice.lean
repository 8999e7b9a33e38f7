import FormulaSynth.Sound.Note
import FormulaSynth.Sound.Waveform

set_option autoImplicit false
namespace FormulaSynth.Sound
open Number

/-- The family of a voice. `any` is only asked for. -/
inductive Kind
  | bass
  | drum
  | keyboard
  | brass
  | string
  | other
  | any
deriving DecidableEq, Repr

namespace Kind

def all : List Kind := [bass, drum, keyboard, brass, string, other, any]

def label : Kind → String
  | bass => "Bass"
  | drum => "Drum"
  | keyboard => "Keyboard"
  | brass => "Brass"
  | string => "String"
  | other => "Other"
  | any => "Any"

def ofLabel? (s : String) : Option Kind := all.find? fun k => k.label == s

def isMatch (k wanted : Kind) : Bool := wanted == any || k == wanted

end Kind

inductive Shape
  | circle
  | square
  | triangle
  | hexagon
  | star
  | cross
  | bonus
deriving DecidableEq, Repr

def Shape.label : Shape → String
  | .circle => "Circle"
  | .square => "Square"
  | .triangle => "Triangle"
  | .hexagon => "Hexagon"
  | .star => "Star"
  | .cross => "Cross"
  | .bonus => "Bonus"

def Kind.shape : Kind → Shape
  | .bass => .star
  | .drum => .circle
  | .keyboard => .square
  | .brass => .triangle
  | .string => .hexagon
  | .other => .cross
  | .any => .bonus

/-- How the tone device plays a voice. `gain` comes before the channel's volume. -/
structure Timbre (α : Type) where
  waveform : Waveform
  envelope : Envelope α
  gain : α

def Kind.timbre {α : Type} [Number α] : Kind → Timbre α
  | .bass => ⟨.saw, ⟨0.005, 0.12, 0.6, 0.08⟩, 0.5⟩
  | .drum => ⟨.noise, ⟨0.001, 0.15, 0, 0.05⟩, 0.6⟩
  | .keyboard => ⟨.triangle, ⟨0.004, 0.4, 0.35, 0.25⟩, 0.7⟩
  | .brass => ⟨.square, ⟨0.04, 0.1, 0.7, 0.12⟩, 0.35⟩
  | .string => ⟨.saw, ⟨0.002, 0.6, 0.2, 0.3⟩, 0.45⟩
  | .other | .any => ⟨.sine, ⟨0.08, 0.2, 0.8, 0.5⟩, 0.7⟩

structure Voice where
  kind : Kind
  name : String
  patch : Nat
deriving DecidableEq, Repr

def Voice.timbre {α : Type} [Number α] (v : Voice) : Timbre α := v.kind.timbre

def Voice.first : Voice := ⟨.bass, "Synth Bass 1", 88⟩

def catalog : List Voice := [
  .first,
  ⟨.bass, "Synth Bass 2", 87⟩,
  ⟨.bass, "Slap Bass 1", 90⟩,
  ⟨.bass, "Slap Bass 2", 89⟩,
  ⟨.bass, "Bass & Lead", 49⟩,
  ⟨.bass, "Distortion Guitar", 96⟩,
  ⟨.bass, "5th Saw Wave", 50⟩,
  ⟨.bass, "Saw Wave", 55⟩,
  ⟨.bass, "Square Wave", 56⟩,
  ⟨.keyboard, "Piano 1", 126⟩,
  ⟨.keyboard, "Piano 2", 125⟩,
  ⟨.keyboard, "Piano 3", 124⟩,
  ⟨.keyboard, "Piano 4", 8⟩,
  ⟨.keyboard, "Honky Tonk", 123⟩,
  ⟨.keyboard, "Clavinet", 119⟩,
  ⟨.keyboard, "Harpsichord", 120⟩,
  ⟨.keyboard, "Polysynth", 46⟩,
  ⟨.brass, "Synth Brass 1", 70⟩,
  ⟨.brass, "Synth Brass 2", 69⟩,
  ⟨.brass, "Brass", 71⟩,
  ⟨.brass, "Bassoon", 65⟩,
  ⟨.brass, "French Horns", 68⟩,
  ⟨.brass, "Tuba", 73⟩,
  ⟨.brass, "Bagpipe", 27⟩,
  ⟨.brass, "Mute Trumpet", 72⟩,
  ⟨.string, "Charang", 52⟩,
  ⟨.string, "Banjo", 31⟩,
  ⟨.string, "Koto", 29⟩,
  ⟨.string, "Synth Strings", 79⟩,
  ⟨.string, "Dulcimer", 111⟩,
  ⟨.string, "Guitar Harmonics", 95⟩,
  ⟨.string, "Electronic", 5⟩,
  ⟨.string, "Clean Guitar", 99⟩,
  ⟨.string, "Nylon Guitar", 102⟩,
  ⟨.drum, "Timpani", 80⟩,
  ⟨.drum, "Synth Drum", 18⟩,
  ⟨.drum, "Taiko Drum", 20⟩,
  ⟨.drum, "Steel Drum", 22⟩,
  ⟨.drum, "Tom Drum", 19⟩,
  ⟨.other, "Tinker Bell", 24⟩,
  ⟨.other, "Voice Oohs", 78⟩,
  ⟨.other, "Choir Aahs", 131⟩,
  ⟨.other, "Soundtrack", 39⟩]

def voice? (index : Nat) : Option Voice := catalog[index]?

def voiceIndex? (name : String) : Option Nat := catalog.findIdx? fun v => v.name == name

end FormulaSynth.Sound
