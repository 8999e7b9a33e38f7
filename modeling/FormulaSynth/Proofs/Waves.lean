import FormulaSynth.Proofs.Levels
import Mathlib

/-!
# WAVE files of a buffer

A reader that takes a RIFF file apart into its chunks finds in the file of a buffer what went into it: the rate,
the lengths, and the levels of the samples in the order in which both sides are interleaved. The bytes after the
header are the bytes of the PCM export.
-/

set_option autoImplicit false
namespace FormulaSynth.Audio

def number (bytes : List UInt8) : ℕ := bytes.foldr (fun b n => b.toNat + 256 * n) 0

/-- The two bytes of a level in two's complement, the low one first. -/
def levelBytes (n : ℤ) : List UInt8 := [(n % 256).toNat.toUInt8, (n / 256 % 256).toNat.toUInt8]

structure Chunk where
  name : List UInt8
  length : ℕ
  body : List UInt8
deriving DecidableEq

/-- A chunk of odd length is padded. Without its whole body a chunk cannot be read. -/
def chunks : List UInt8 → Option (List Chunk)
  | [] => some []
  | n₀ :: n₁ :: n₂ :: n₃ :: l₀ :: l₁ :: l₂ :: l₃ :: rest =>
    let length := number [l₀, l₁, l₂, l₃]
    if rest.length < length + length % 2 then none
    else (chunks (rest.drop (length + length % 2))).map (⟨[n₀, n₁, n₂, n₃], length, rest.take length⟩ :: ·)
  | _ => none
termination_by bytes => bytes.length
decreasing_by
  rw [List.length_drop]
  simp only [List.length_cons]
  omega

def named? (name : String) (chunks : List Chunk) : Option Chunk :=
  chunks.find? fun c => c.name = SampleBuffer.text4 name

def numbers : List ℕ → List UInt8 → Option (List ℕ)
  | [], _ => some []
  | width :: widths, bytes =>
    if bytes.length < width then none
    else (numbers widths (bytes.drop width)).map (number (bytes.take width) :: ·)

def levels : List UInt8 → List ℤ
  | low :: high :: rest => Int.bmod (number [low, high]) 65536 :: levels rest
  | _ => []

structure Wave where
  riffLength : ℕ
  channels : ℕ
  rate : ℕ
  byteRate : ℕ
  frameSize : ℕ
  bits : ℕ
  dataLength : ℕ
  samples : List ℤ
deriving DecidableEq, Repr

/-- Reads a file of plain PCM with 16 bits. -/
def readWave (file : List UInt8) : Option Wave := do
  let riff ← named? "RIFF" (← chunks file)
  guard (riff.body.take 4 = SampleBuffer.text4 "WAVE")
  let parts ← chunks (riff.body.drop 4)
  let format ← named? "fmt " parts
  let data ← named? "data" parts
  match ← numbers [2, 2, 4, 4, 2, 2] format.body with
  | [1, channels, rate, byteRate, frameSize, 16] =>
    some ⟨riff.length, channels, rate, byteRate, frameSize, 16, data.length, levels data.body⟩
  | _ => none

theorem length_littleEndian (n value : ℕ) : (littleEndian n value).length = n := by
  induction n generalizing value with
  | zero => rfl
  | succ n ih => rw [littleEndian, List.length_cons, ih]

theorem number_littleEndian (n value : ℕ) : number (littleEndian n value) = value % 256 ^ n := by
  induction n generalizing value with
  | zero => rw [Nat.pow_zero, Nat.mod_one]; rfl
  | succ n ih =>
    have low : value.toUInt8.toNat = value % 256 := UInt8.toNat_ofNat'
    change value.toUInt8.toNat + 256 * number (littleEndian n (value / 256)) = _
    rw [ih, low, Nat.pow_succ', Nat.mod_mul]

theorem number_of_lt {n value : ℕ} (small : value < 256 ^ n) : number (littleEndian n value) = value := by
  rw [number_littleEndian, Nat.mod_eq_of_lt small]

theorem numbers_cons {width value : ℕ} (widths : List ℕ) (rest : List UInt8) (small : value < 256 ^ width) :
    numbers (width :: widths) (littleEndian width value ++ rest) = (numbers widths rest).map (value :: ·) := by
  have long : ¬(littleEndian width value ++ rest).length < width := by
    rw [List.length_append, length_littleEndian]
    omega
  have length := length_littleEndian width value
  rw [numbers, if_neg long, List.drop_left' length, List.take_left' length, number_of_lt small]

theorem chunks_cons (name : String) (body rest : List UInt8) (four : (SampleBuffer.text4 name).length = 4)
    (small : body.length < 256 ^ 4) (even : body.length % 2 = 0) :
    chunks (SampleBuffer.text4 name ++ littleEndian 4 body.length ++ body ++ rest) =
      (chunks rest).map (⟨SampleBuffer.text4 name, body.length, body⟩ :: ·) := by
  obtain ⟨n₀, n₁, n₂, n₃, letters⟩ : ∃ n₀ n₁ n₂ n₃, SampleBuffer.text4 name = [n₀, n₁, n₂, n₃] :=
    List.length_eq_four.mp four
  obtain ⟨l₀, l₁, l₂, l₃, bytes⟩ : ∃ l₀ l₁ l₂ l₃, littleEndian 4 body.length = [l₀, l₁, l₂, l₃] := ⟨_, _, _, _, rfl⟩
  have length := number_of_lt small
  rw [bytes] at length
  have whole : ¬(body ++ rest).length < body.length := by
    rw [List.length_append]
    omega
  rw [letters, bytes, List.append_assoc]
  change chunks (n₀ :: n₁ :: n₂ :: n₃ :: l₀ :: l₁ :: l₂ :: l₃ :: (body ++ rest)) = _
  rw [chunks, length, even, Nat.add_zero, if_neg whole, List.drop_left, List.take_left]

theorem held_range (n : ℤ) : -32768 ≤ held n ∧ held n ≤ 32767 := by
  unfold held
  omega

theorem level_range (u : Float.Model.UnpackedFloat) : -32768 ≤ level u ∧ level u ≤ 32767 := by
  cases u with
  | notANumber => decide
  | infinity sign => cases sign <;> decide
  | zero sign =>
    rw [level_zero]
    decide
  | finite sign significand exponent pos => exact held_range _

theorem sampleBytes_eq (s : Sample) : sampleBytes s = levelBytes (Sample.level s) := by
  rw [sampleBytes, quantize_eq_level]
  generalize Sample.level s = n
  have low : (n % 65536).toNat.toUInt8 = (n % 256).toNat.toUInt8 := by
    rw [← UInt8.toNat_inj, UInt8.toNat_ofNat', UInt8.toNat_ofNat']
    omega
  have high : ((n % 65536).toNat / 256).toUInt8 = (n / 256 % 256).toNat.toUInt8 := by
    rw [← UInt8.toNat_inj, UInt8.toNat_ofNat', UInt8.toNat_ofNat']
    omega
  rw [levelBytes, ← low, ← high]
  rfl

theorem bmod_levelBytes {n : ℤ} (low : -32768 ≤ n) (high : n ≤ 32767) : Int.bmod (number (levelBytes n)) 65536 = n := by
  have bytes : (number (levelBytes n) : ℤ) = n % 65536 := by
    change (((n % 256).toNat.toUInt8.toNat + 256 * ((n / 256 % 256).toNat.toUInt8.toNat + 256 * 0) : ℕ) : ℤ) = _
    rw [UInt8.toNat_ofNat', UInt8.toNat_ofNat']
    omega
  rw [bytes, Int.bmod_def]
  split <;> omega

theorem levels_cons {n : ℤ} (low : -32768 ≤ n) (high : n ≤ 32767) (rest : List UInt8) :
    levels (levelBytes n ++ rest) = n :: levels rest := by
  have value := bmod_levelBytes low high
  rw [levelBytes] at value ⊢
  rw [List.cons_append, List.cons_append, List.nil_append, levels, value]

theorem levels_samples (samples : List Sample) :
    levels (samples.flatMap fun s => levelBytes (Sample.level s)) = samples.map Sample.level := by
  induction samples with
  | nil => rfl
  | cons s rest ih =>
    have range := level_range s.toModel.unpack
    rw [List.flatMap_cons, List.map_cons, ← ih]
    exact levels_cons range.1 range.2 _

namespace SampleBuffer
variable (b : SampleBuffer Sample)

theorem toList_foldl_push (bytes : List UInt8) (array : ByteArray) :
    (bytes.foldl ByteArray.push array).data.toList = array.data.toList ++ bytes := by
  induction bytes generalizing array with
  | nil => exact (List.append_nil _).symm
  | cons byte bytes ih =>
    rw [List.foldl_cons, ih]
    change (array.data.push byte).toList ++ bytes = _
    rw [Array.toList_push, List.append_assoc]
    rfl

theorem toList_fold (left right : Array Sample) (n : ℕ) (fits : n ≤ min left.size right.size) :
    (n.fold (fun i h bytes => (sampleBytes right[i]).foldl ByteArray.push
      ((sampleBytes left[i]).foldl ByteArray.push bytes)) ByteArray.empty).data.toList =
      (((left.toList.zip right.toList).take n).flatMap fun f => [f.1, f.2]).flatMap sampleBytes := by
  induction n with
  | zero => rfl
  | succ n ih =>
    have inside : n < (left.toList.zip right.toList).length := by
      rw [List.length_zip, Array.length_toList, Array.length_toList]
      omega
    rw [Nat.fold_succ, toList_foldl_push, toList_foldl_push, ih (by omega), List.take_succ_eq_append_getElem inside]
    simp

theorem toList_pcm : b.pcm.data.toList = b.interleaved.flatMap fun s => levelBytes (Sample.level s) := by
  have bytes : sampleBytes = fun s => levelBytes (Sample.level s) := funext sampleBytes_eq
  have all : b.pcm.data.toList = _ := toList_fold b.left b.right _ le_rfl
  have frames : (b.left.toList.zip b.right.toList).length ≤ min b.left.size b.right.size := by
    rw [List.length_zip, Array.length_toList, Array.length_toList]
  rw [all, List.take_of_length_le frames, bytes]
  rfl

theorem length_interleaved : b.interleaved.length = 2 * min b.left.size b.right.size := by
  have pair : (fun f : Sample × Sample => [f.1, f.2].length) = fun _ => 2 := rfl
  change ((b.left.toList.zip b.right.toList).flatMap fun f => [f.1, f.2]).length = _
  rw [List.length_flatMap, pair, List.map_const', List.sum_replicate, List.length_zip, Array.length_toList,
    Array.length_toList, smul_eq_mul, Nat.mul_comm]

theorem getElem?_turns (frames : List (Sample × Sample)) (i : ℕ) :
    (frames.flatMap fun f => [f.1, f.2])[2 * i]? = frames[i]?.map Prod.fst ∧
      (frames.flatMap fun f => [f.1, f.2])[2 * i + 1]? = frames[i]?.map Prod.snd := by
  induction frames generalizing i with
  | nil => exact ⟨rfl, rfl⟩
  | cons f frames ih =>
    cases i with
    | zero => exact ⟨rfl, rfl⟩
    | succ i => exact ih i

theorem interleaved_frame {i : ℕ} (inside : i < min b.left.size b.right.size) :
    b.interleaved[2 * i]? = b.left[i]? ∧ b.interleaved[2 * i + 1]? = b.right[i]? := by
  have left : i < b.left.size := by omega
  have right : i < b.right.size := by omega
  have frame : (b.left.toList.zip b.right.toList)[i]? = some (b.left[i], b.right[i]) :=
    List.getElem?_zip_eq_some.mpr ⟨by simp [left], by simp [right]⟩
  have turns := getElem?_turns (b.left.toList.zip b.right.toList) i
  rw [frame] at turns
  rw [Array.getElem?_eq_getElem left, Array.getElem?_eq_getElem right]
  exact turns

theorem length_pcm : b.pcm.data.toList.length = 4 * min b.left.size b.right.size := by
  have pair : (fun s => (levelBytes (Sample.level s)).length) = fun _ => 2 := rfl
  rw [toList_pcm, List.length_flatMap, pair, List.map_const', List.sum_replicate, length_interleaved, smul_eq_mul]
  omega

theorem toList_bytes_foldl_write (samples : List Sample) (w : WaveWriter) :
    (samples.foldl WaveWriter.write w).bytes.data.toList = w.bytes.data.toList ++ samples.flatMap sampleBytes := by
  induction samples generalizing w with
  | nil => exact (List.append_nil _).symm
  | cons s samples ih =>
    have once : (w.write s).bytes.data.toList = w.bytes.data.toList ++ sampleBytes s := toList_foldl_push ..
    rw [List.foldl_cons, ih, once, List.flatMap_cons, List.append_assoc]

theorem dataLength_foldl_write (samples : List Sample) (w : WaveWriter) :
    (samples.foldl WaveWriter.write w).dataLength = w.dataLength + 2 * samples.length := by
  induction samples generalizing w with
  | nil => rfl
  | cons s samples ih =>
    have once : (w.write s).dataLength = w.dataLength + 2 := rfl
    rw [List.foldl_cons, ih, once, List.length_cons]
    omega

theorem rate_foldl_write (samples : List Sample) (w : WaveWriter) :
    (samples.foldl WaveWriter.write w).rate = w.rate := by
  induction samples generalizing w with
  | nil => rfl
  | cons s samples ih => exact ih (w.write s)

/-- What the loop over the frames writes after the header is the PCM export, and its length is what the header
says. -/
theorem wave?_eq (rated : 1 ≤ b.rate) :
    b.wave? = some ((waveHeader b.rate b.pcm.size).foldl ByteArray.push ByteArray.empty ++ b.pcm) := by
  have turns : (b.left.toList.zip b.right.toList).foldl WaveWriter.writeFrame (.create b.rate) =
      b.interleaved.foldl WaveWriter.write (.create b.rate) := by
    rw [interleaved, List.foldl_flatMap]
    rfl
  have rate := rate_foldl_write b.interleaved (.create b.rate)
  have bytes : (b.interleaved.foldl WaveWriter.write (.create b.rate)).bytes = b.pcm := by
    have written := toList_bytes_foldl_write b.interleaved (.create b.rate)
    rw [funext sampleBytes_eq] at written
    exact ByteArray.ext (Array.toList_inj.mp (written.trans (toList_pcm b).symm))
  have length : (b.interleaved.foldl WaveWriter.write (.create b.rate)).dataLength = b.pcm.size := by
    have size : b.pcm.size = b.pcm.data.toList.length := rfl
    have written : _ = 0 + 2 * b.interleaved.length := dataLength_foldl_write b.interleaved (.create b.rate)
    rw [written, length_interleaved, size, length_pcm]
    omega
  rw [wave?, if_neg (by omega)]
  dsimp only
  rw [turns, WaveWriter.finish, rate, bytes, length]
  rfl

def formatBody (rate : ℕ) : List UInt8 :=
  littleEndian 2 1 ++ littleEndian 2 2 ++ littleEndian 4 rate ++ littleEndian 4 (4 * rate) ++ littleEndian 2 4 ++
    littleEndian 2 16

theorem numbers_formatBody {rate : ℕ} (fast : 4 * rate < 2 ^ 32) :
    numbers [2, 2, 4, 4, 2, 2] (formatBody rate) = some [1, 2, rate, 4 * rate, 4, 16] := by
  have last := numbers_cons [] [] (by decide : 16 < 256 ^ 2)
  rw [List.append_nil] at last
  simp only [formatBody, List.append_assoc]
  rw [numbers_cons _ _ (by decide), numbers_cons _ _ (by decide), numbers_cons _ _ (by omega),
    numbers_cons _ _ (by omega), numbers_cons _ _ (by decide), last]
  rfl

theorem length_formatBody (rate : ℕ) : (formatBody rate).length = 16 := by
  simp only [formatBody, List.length_append, length_littleEndian]

def inner (rate : ℕ) (data : List UInt8) : List UInt8 :=
  text4 "fmt " ++ littleEndian 4 16 ++ formatBody rate ++ (text4 "data" ++ littleEndian 4 data.length ++ data)

theorem length_inner (rate : ℕ) (data : List UInt8) : (inner rate data).length = 32 + data.length := by
  simp only [inner, List.length_append, length_littleEndian, length_formatBody]
  change 4 + 4 + 16 + (4 + 4 + _) = _
  omega

theorem header_append (rate : ℕ) (data : List UInt8) :
    waveHeader rate data.length ++ data =
      text4 "RIFF" ++ littleEndian 4 (36 + data.length) ++ (text4 "WAVE" ++ inner rate data) := by
  simp only [waveHeader, inner, formatBody, List.append_assoc]

theorem length_waveHeader (rate length : ℕ) : (waveHeader rate length).length = 44 := by
  simp only [waveHeader, List.length_append, length_littleEndian]
  rfl

section Reading
variable {rate : ℕ} (data : List UInt8)

theorem chunks_inner (long : data.length + 36 < 2 ^ 32) (even : data.length % 2 = 0) :
    chunks (inner rate data) =
      some [⟨text4 "fmt ", 16, formatBody rate⟩, ⟨text4 "data", data.length, data⟩] := by
  have format := length_formatBody rate
  have last := chunks_cons "data" data [] rfl (by omega) even
  have first := chunks_cons "fmt " (formatBody rate) (text4 "data" ++ littleEndian 4 data.length ++ data) rfl
    (by rw [format]; decide) (by rw [format])
  rw [List.append_nil, chunks] at last
  rw [format, last] at first
  exact first

theorem chunks_file (long : data.length + 36 < 2 ^ 32) (even : data.length % 2 = 0) :
    chunks (waveHeader rate data.length ++ data) =
      some [⟨text4 "RIFF", 36 + data.length, text4 "WAVE" ++ inner rate data⟩] := by
  have size : (text4 "WAVE" ++ inner rate data).length = 36 + data.length := by
    rw [List.length_append, length_inner]
    change 4 + _ = _
    omega
  have only := chunks_cons "RIFF" (text4 "WAVE" ++ inner rate data) [] rfl (by omega) (by omega)
  rw [List.append_nil, chunks, size] at only
  rw [header_append]
  exact only

theorem named?_self (name : String) (length : ℕ) (body : List UInt8) (rest : List Chunk) :
    named? name (⟨text4 name, length, body⟩ :: rest) = some ⟨text4 name, length, body⟩ :=
  List.find?_cons_of_pos (decide_eq_true rfl)

theorem named?_other {name other : String} (differs : text4 other ≠ text4 name) (length : ℕ) (body : List UInt8)
    (rest : List Chunk) : named? name (⟨text4 other, length, body⟩ :: rest) = named? name rest :=
  List.find?_cons_of_neg (decide_eq_true_iff.not.mpr differs)

theorem readWave_header_append (fast : 4 * rate < 2 ^ 32) (long : data.length + 36 < 2 ^ 32)
    (even : data.length % 2 = 0) :
    readWave (waveHeader rate data.length ++ data) = some
      { riffLength := 36 + data.length, channels := 2, rate := rate, byteRate := 4 * rate, frameSize := 4, bits := 16,
        dataLength := data.length, samples := levels data } := by
  have form : (text4 "WAVE" ++ inner rate data).take 4 = text4 "WAVE" := List.take_left' rfl
  have parts : chunks ((text4 "WAVE" ++ inner rate data).drop 4) = _ := chunks_inner data long even
  have data_found : named? "data" [⟨text4 "fmt ", 16, formatBody rate⟩, ⟨text4 "data", data.length, data⟩] =
      some ⟨text4 "data", data.length, data⟩ := by
    rw [named?_other (by decide), named?_self]
  simp only [readWave, chunks_file data long even, named?_self, form, parts, data_found, numbers_formatBody fast,
    Option.bind_eq_bind, Option.bind_some, guard_true]
  rfl

end Reading

/-- The export of floats goes from left to right, frame by frame. The bytes of the PCM export are the levels of the
same samples, and so is what follows the header of the file, which is read back whole. -/
theorem exports_read_back (rated : 1 ≤ b.rate) (fast : 4 * b.rate < 2 ^ 32)
    (long : 4 * min b.left.size b.right.size + 36 < 2 ^ 32) :
    (b.interleaved.length = 2 * min b.left.size b.right.size ∧
      ∀ i < min b.left.size b.right.size,
        b.interleaved[2 * i]? = b.left[i]? ∧ b.interleaved[2 * i + 1]? = b.right[i]?) ∧
    b.pcm.data.toList = (b.interleaved.flatMap fun s => levelBytes (Sample.level s)) ∧
    ∃ file header, b.wave? = some file ∧ header.length = 44 ∧ file.data.toList = header ++ b.pcm.data.toList ∧
      readWave file.data.toList = some
        { riffLength := 36 + 4 * min b.left.size b.right.size
          channels := 2
          rate := b.rate
          byteRate := 4 * b.rate
          frameSize := 4
          bits := 16
          dataLength := 4 * min b.left.size b.right.size
          samples := b.interleaved.map Sample.level } := by
  have size : b.pcm.size = b.pcm.data.toList.length := rfl
  have file := wave?_eq b rated
  have bytes : ((waveHeader b.rate b.pcm.size).foldl ByteArray.push ByteArray.empty ++ b.pcm).data.toList =
      waveHeader b.rate b.pcm.size ++ b.pcm.data.toList := by
    rw [ByteArray.data_append, Array.toList_append, toList_foldl_push]
    rfl
  have read := readWave_header_append b.pcm.data.toList fast (by rw [length_pcm]; exact long)
    (by rw [length_pcm]; omega)
  refine ⟨⟨length_interleaved b, fun i => interleaved_frame b⟩, toList_pcm b,
    _, _, file, length_waveHeader .., bytes, ?_⟩
  rw [bytes, size, read, length_pcm, toList_pcm, levels_samples]

/-- A side that is longer by a frame, which is not a number. -/
def uneven : SampleBuffer Sample :=
  ⟨#[.ofBits 0x3f000000, .ofBits 0xbe800000, .ofBits 0x7fc00000], #[.ofBits 0, .ofBits 0xbf800000], 44100⟩

theorem uneven_read_back :
    (1 ≤ uneven.rate ∧ 4 * uneven.rate < 2 ^ 32 ∧ 4 * min uneven.left.size uneven.right.size + 36 < 2 ^ 32) ∧
    ∃ file, uneven.wave? = some file ∧
      readWave file.data.toList = some
        { riffLength := 44, channels := 2, rate := 44100, byteRate := 176400, frameSize := 4, bits := 16,
          dataLength := 8, samples := [16384, 0, -8192, -32768] } := by
  have hypotheses : 1 ≤ uneven.rate ∧ 4 * uneven.rate < 2 ^ 32 ∧
      4 * min uneven.left.size uneven.right.size + 36 < 2 ^ 32 := by decide
  obtain ⟨-, -, file, -, found, -, -, read⟩ := exports_read_back uneven hypotheses.1 hypotheses.2.1 hypotheses.2.2
  have samples : uneven.interleaved.map Sample.level = [16384, 0, -8192, -32768] := by
    rw [← funext quantize_eq_level]
    decide +kernel
  rw [samples] at read
  exact ⟨hypotheses, file, found, read⟩

end SampleBuffer
end FormulaSynth.Audio
