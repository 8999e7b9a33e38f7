import FormulaSynth.Number.Basic

set_option autoImplicit false
namespace FormulaSynth.Sound

def rotateLeft (x n : UInt32) : UInt32 := (x <<< n) ||| (x >>> (32 - n))

def rotateRight (x n : UInt32) : UInt32 := (x >>> n) ||| (x <<< ((32 - n) % 32))

def seedStep (s : UInt64) : UInt64 := s * 6364136223846793005 + 11634580027462260723

def seedWord (s : UInt64) : UInt32 :=
  rotateRight (((s >>> 18) ^^^ s) >>> 27).toUInt32 (s >>> 59).toUInt32

def keyWords : Nat → UInt64 → List UInt32
  | 0, _ => []
  | n + 1, s => let s := seedStep s; seedWord s :: keyWords n s

abbrev Matrix := Vector UInt32 16

def quarterRound (m : Matrix) (a b c d : Fin 16) : Matrix :=
  let m := m.set a (m[a] + m[b])
  let m := m.set d (rotateLeft (m[d] ^^^ m[a]) 16)
  let m := m.set c (m[c] + m[d])
  let m := m.set b (rotateLeft (m[b] ^^^ m[c]) 12)
  let m := m.set a (m[a] + m[b])
  let m := m.set d (rotateLeft (m[d] ^^^ m[a]) 8)
  let m := m.set c (m[c] + m[d])
  m.set b (rotateLeft (m[b] ^^^ m[c]) 7)

def doubleRound (m : Matrix) : Matrix :=
  let m := quarterRound m 0 4 8 12
  let m := quarterRound m 1 5 9 13
  let m := quarterRound m 2 6 10 14
  let m := quarterRound m 3 7 11 15
  let m := quarterRound m 0 5 10 15
  let m := quarterRound m 1 6 11 12
  let m := quarterRound m 2 7 8 13
  quarterRound m 3 4 9 14

def initialMatrix (key : List UInt32) (block : UInt64) : Matrix :=
  Vector.ofFn fun i =>
    if i < 4 then [0x61707865, 0x3320646e, 0x79622d32, 0x6b206574].getD i 0
    else if i < 12 then key.getD (i - 4) 0
    else if i = 12 then block.toUInt32
    else if i = 13 then (block >>> 32).toUInt32
    else 0

def blockWords (key : List UInt32) (block : UInt64) : Matrix :=
  let start := initialMatrix key block
  let mixed := doubleRound (doubleRound (doubleRound (doubleRound start)))
  mixed.zipWith (· + ·) start

def pairWords : List UInt32 → List UInt64
  | low :: high :: rest => (low.toUInt64 ||| (high.toUInt64 <<< 32)) :: pairWords rest
  | _ => []

/-- The words of the blocks before `block` that are not drawn yet are `pending`. -/
structure NoiseSource where
  key : List UInt32
  block : UInt64
  pending : List UInt64
deriving DecidableEq

namespace NoiseSource

def ofSeed (seed : UInt64) : NoiseSource := ⟨keyWords 8 seed, 0, []⟩

def draw (source : NoiseSource) : UInt64 × NoiseSource :=
  match source.pending with
  | word :: rest => (word, { source with pending := rest })
  | [] =>
    let words := pairWords (blockWords source.key source.block).toList
    (words.headD 0, { source with block := source.block + 1, pending := words.tail })

def unitPattern (word : UInt64) : Binary64 := ⟨((1023 : UInt64) <<< 52) ||| (word >>> 12)⟩

open Number in
def sample {α : Type} [Number α] (source : NoiseSource) : α × NoiseSource :=
  let (word, next) := source.draw
  ((Number.ofBinary64 (unitPattern word) - 1) * 2 + (-1), next)

end NoiseSource
open Number
variable {α : Type} [Number α]

inductive Waveform
  | sine
  | saw
  | square
  | triangle
  | noise
deriving DecidableEq, Repr

def Waveform.label : Waveform → String
  | .sine => "Sine"
  | .saw => "Saw"
  | .square => "Square"
  | .triangle => "Triangle"
  | .noise => "Noise"

/-- Only noise draws from the source, and noise does not look at the phase. -/
def Waveform.sample (w : Waveform) (phase : α) (source : NoiseSource) : α × NoiseSource :=
  match w with
  | .sine => (Number.sin (phase * 2 * Number.pi), source)
  | .saw => (2 * phase - 1, source)
  | .square => (if lt phase 0.5 then 1 else -1, source)
  | .triangle =>
    (if lt phase 0.25 then 4 * phase
      else if lt phase 0.75 then 2 - 4 * phase
      else 4 * phase - 4, source)
  | .noise => source.sample

def advancePhase (phase frequency : α) (rate : Nat) : α :=
  fractionalPart (phase + frequency / Number.ofNat rate)

end FormulaSynth.Sound
