import FormulaSynth.Device.Basic
import FormulaSynth.Number.Machine

set_option autoImplicit false
namespace FormulaSynth.Audio

structure SampleBuffer (σ : Type) where
  left : Array σ
  right : Array σ
  rate : Nat

def overlay {σ : Type} (channel : Array σ) (start : Nat) (samples : Array σ) : Array σ :=
  samples.size.fold (fun i h channel => channel.setIfInBounds (start + i) samples[i]) channel

namespace SampleBuffer
variable {σ : Type}

def silent [Silence σ] (frames rate : Nat) : SampleBuffer σ :=
  ⟨Array.replicate frames Silence.silence, Array.replicate frames Silence.silence, rate⟩

def frames (b : SampleBuffer σ) : Nat := b.left.size

def duration {α : Type} [Number α] (b : SampleBuffer σ) : α := Number.ofNat b.frames / Number.ofNat b.rate

def renderSpan {δ : Type} [NoteDevice δ σ] (b : SampleBuffer σ) (device : δ) (start stop : Nat) :
    SampleBuffer σ × δ :=
  if start < stop then
    let (device, left, right) := NoteDevice.render device (stop - start) (stop - start)
    ({ b with left := overlay b.left start left, right := overlay b.right start right }, device)
  else (b, device)

def interleaved (b : SampleBuffer σ) : List σ :=
  (b.left.toList.zip b.right.toList).flatMap fun (l, r) => [l, r]

end SampleBuffer

/-- The value of a sample, times 32768, toward zero and held within 16 bits. What is not a number gives zero.
    The scale is a power of two, so the magnitude is the significand shifted by the exponent. -/
def quantize (s : Sample) : Int :=
  let word := s.toBits
  let field := ((word >>> 23) &&& 0xff).toNat
  let fraction := (word &&& 0x7fffff).toNat
  let negative := word >>> 31 == 1
  let bound := if negative then 32768 else 32767
  let magnitude :=
    if field = 255 then (if fraction = 0 then bound else 0)
    else
      let significand := if field = 0 then fraction else fraction + Nat.pow 2 23
      let place := max field 1
      min bound (if 135 ≤ place then significand * Nat.pow 2 (place - 135) else significand / Nat.pow 2 (135 - place))
  if negative then -(magnitude : Int) else magnitude

def littleEndian : Nat → Nat → List UInt8
  | 0, _ => []
  | n + 1, value => value.toUInt8 :: littleEndian n (value / 256)

def sampleBytes (s : Sample) : List UInt8 := littleEndian 2 ((quantize s % 65536).toNat)

namespace SampleBuffer

/-- The greatest magnitude on either side, leaving out what is not a number. -/
def peak (b : SampleBuffer Sample) : Sample :=
  let louder (m s : Sample) : Sample := if s.abs > m then s.abs else m
  b.right.foldl louder (b.left.foldl louder 0)

def pcm (b : SampleBuffer Sample) : ByteArray :=
  (min b.left.size b.right.size).fold (fun i h bytes =>
    let bytes := (sampleBytes b.left[i]).foldl ByteArray.push bytes
    (sampleBytes b.right[i]).foldl ByteArray.push bytes) ByteArray.empty

def text4 (s : String) : List UInt8 := s.toList.map fun c => c.toNat.toUInt8

def waveHeader (rate dataLength : Nat) : List UInt8 :=
  text4 "RIFF" ++ littleEndian 4 (36 + dataLength) ++ text4 "WAVE" ++
    text4 "fmt " ++ littleEndian 4 16 ++ littleEndian 2 1 ++ littleEndian 2 2 ++
      littleEndian 4 rate ++ littleEndian 4 (4 * rate) ++ littleEndian 2 4 ++ littleEndian 2 16 ++
    text4 "data" ++ littleEndian 4 dataLength

end SampleBuffer

/-- A WAVE file that is being written. How long it is goes into its header when it is finished. -/
structure WaveWriter where
  rate : Nat
  bytes : ByteArray
  dataLength : Nat

namespace WaveWriter

def create (rate : Nat) : WaveWriter := ⟨rate, ByteArray.empty, 0⟩

def write (w : WaveWriter) (s : Sample) : WaveWriter :=
  { w with bytes := (sampleBytes s).foldl ByteArray.push w.bytes, dataLength := w.dataLength + 2 }

def writeFrame (w : WaveWriter) (frame : Sample × Sample) : WaveWriter := (w.write frame.1).write frame.2

def finish (w : WaveWriter) : ByteArray :=
  (SampleBuffer.waveHeader w.rate w.dataLength).foldl ByteArray.push ByteArray.empty ++ w.bytes

end WaveWriter

namespace SampleBuffer

/-- A buffer without a sample rate has no file. -/
def wave? (b : SampleBuffer Sample) : Option ByteArray :=
  if b.rate = 0 then none
  else
    let writer := (b.left.toList.zip b.right.toList).foldl WaveWriter.writeFrame (.create b.rate)
    some writer.finish

end SampleBuffer
end FormulaSynth.Audio
