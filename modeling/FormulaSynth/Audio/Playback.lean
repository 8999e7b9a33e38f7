import FormulaSynth.Number.Machine

set_option autoImplicit false
namespace FormulaSynth.Audio

inductive PlaybackCommand
  | samples (data : List Sample)
  | setVolume (volume : Sample)
  | stop

inductive PlaybackError
  | noOutputDevice
  | streamBuild (detail : String)
  | streamPlay (detail : String)
  | bufferFull

def PlaybackError.message : PlaybackError → String
  | noOutputDevice => "no audio output device found"
  | streamBuild detail => s!"stream build error: {detail}"
  | streamPlay detail => s!"stream play error: {detail}"
  | bufferFull => "audio command queue is full"

/-- What compares with neither bound passes. -/
def clampSample (x lo hi : Sample) : Sample := if x < lo then lo else if hi < x then hi else x

/-- `waiting` are the commands not taken yet. The samples before `taken` have been written out. -/
structure Playback where
  capacity : Nat
  waiting : List PlaybackCommand
  store : Array Sample
  taken : Nat
  volume : Sample
  played : Nat

namespace Playback

def compactAt : Nat := 8192

def new (capacity : Nat) : Playback := ⟨capacity, [], #[], 0, 1, 0⟩

def push (p : Playback) (c : PlaybackCommand) : Bool × Playback :=
  if p.waiting.length < p.capacity then (true, { p with waiting := p.waiting ++ [c] }) else (false, p)

def obey (p : Playback) : PlaybackCommand → Playback
  | .samples data => { p with store := data.foldl Array.push p.store }
  | .setVolume volume => { p with volume := clampSample volume 0 1 }
  | .stop => { p with store := #[], taken := 0 }

def compacted (p : Playback) : Playback :=
  if compactAt ≤ p.taken then { p with store := p.store.extract p.taken p.store.size, taken := 0 } else p

def output (volume s : Sample) : Sample := clampSample (s * volume) (-1) 1

def process (p : Playback) (n : Nat) : List Sample × Playback :=
  let p := p.waiting.foldl obey { p with waiting := [] }
  let count := min n (p.store.size - p.taken)
  let heard := (p.store.extract p.taken (p.taken + count)).toList.map (output p.volume)
  (heard ++ List.replicate (n - count) 0,
    { p with taken := p.taken + count, played := p.played + count }.compacted)

end Playback
end FormulaSynth.Audio
