import FormulaSynth.Number.Machine
import FormulaSynth.Proofs.Exact
import FormulaSynth.Proofs.Patterns
import FormulaSynth.Proofs.Retries

/-!
# Renders in several calls

A note whose release is over is dropped at the end of a call. Until then it adds nothing to the samples, but as long
as it is there a noise note draws from the source that all notes share. So a cut between two calls is heard only
where it has dropped a noise note while others play on, and what is left at the end differs in nothing but the
source.
-/

set_option autoImplicit false
namespace FormulaSynth
open Number

namespace Sound
variable {α : Type} [Number α]

def NoiseSource.skip (source : NoiseSource) (count : ℕ) : NoiseSource := (fun s => s.draw.2)^[count] source

theorem NoiseSource.skip_add (source : NoiseSource) (m n : ℕ) : source.skip (m + n) = (source.skip m).skip n := by
  rw [Nat.add_comm]
  exact Function.iterate_add_apply _ _ _ _

theorem Waveform.source_of_sample (w : Waveform) (phase : α) (source : NoiseSource) :
    (w.sample phase source).2 = source.skip (if w = .noise then 1 else 0) := by
  cases w <;> rfl

theorem Waveform.sample_of_pitched {w : Waveform} (pitched : w ≠ .noise) (phase : α) (s t : NoiseSource) :
    (w.sample phase s).1 = (w.sample phase t).1 := by
  cases w with
  | noise => exact absurd rfl pitched
  | _ => rfl

end Sound

namespace Device
open Sound
variable {α : Type} [Number α]

section Notes

def Sounding.isNoise (n : Sounding α) : Bool := n.timbre.waveform = .noise

def noiseNotes (ns : List (Sounding α)) : ℕ := ns.countP Sounding.isNoise

omit [Number α] in
theorem noiseNotes_cons (n : Sounding α) (ns : List (Sounding α)) :
    noiseNotes (n :: ns) = (if n.timbre.waveform = .noise then 1 else 0) + noiseNotes ns := by
  rw [noiseNotes, List.countP_cons, Nat.add_comm]
  simp [Sounding.isNoise, noiseNotes]

def Sounding.aged (n : Sounding α) (rate frames : ℕ) : Sounding α := (fun n => n.advanced rate)^[frames] n

theorem Sounding.aged_succ (n : Sounding α) (rate frames : ℕ) :
    n.aged rate (frames + 1) = (n.advanced rate).aged rate frames :=
  Function.iterate_succ_apply _ _ _

theorem Sounding.aged_add (n : Sounding α) (rate a b : ℕ) : n.aged rate (a + b) = (n.aged rate a).aged rate b := by
  rw [Nat.add_comm]
  exact Function.iterate_add_apply _ _ _ _

theorem Sounding.aged_kept (n : Sounding α) (rate frames : ℕ) :
    (n.aged rate frames).timbre = n.timbre ∧ (n.aged rate frames).gateOff = n.gateOff ∧
      (n.aged rate frames).age = n.age + frames := by
  induction frames generalizing n with
  | zero => exact ⟨rfl, rfl, rfl⟩
  | succ frames ih =>
    obtain ⟨timbre, gateOff, age⟩ := ih (n.advanced rate)
    rw [n.aged_succ, timbre, gateOff, age]
    refine ⟨rfl, rfl, ?_⟩
    change n.age + 1 + frames = _
    omega

@[simp] theorem Sounding.isNoise_aged (n : Sounding α) (rate frames : ℕ) :
    (n.aged rate frames).isNoise = n.isNoise := by
  rw [isNoise, (n.aged_kept rate frames).1]
  rfl

theorem noiseNotes_aged (ns : List (Sounding α)) (rate frames : ℕ) :
    noiseNotes (ns.map fun n => n.aged rate frames) = noiseNotes ns := by
  rw [noiseNotes, List.countP_map]
  exact congrArg (List.countP · ns) (funext fun n => n.isNoise_aged rate frames)

/-- Of the notes that sound, those whose release is not over. -/
def unfinished (rate : ℕ) (ns : List (Sounding α)) : List (Sounding α) :=
  ns.filter fun n => !n.isFinished (Number.ofNat rate)

section Unfinished
variable {rate : ℕ} {n : Sounding α} {ns : List (Sounding α)}

theorem unfinished_cons_of_finished (h : n.isFinished (Number.ofNat rate) = true) :
    unfinished rate (n :: ns) = unfinished rate ns :=
  List.filter_cons_of_neg (by simp [h])

theorem unfinished_cons_of_lasting (h : n.isFinished (Number.ofNat rate) = false) :
    unfinished rate (n :: ns) = n :: unfinished rate ns :=
  List.filter_cons_of_pos (by simp [h])

theorem mem_unfinished_iff :
    n ∈ unfinished rate ns ↔ n ∈ ns ∧ n.isFinished (Number.ofNat rate) = false := by
  simp [unfinished]

end Unfinished

/-- What the notes add to `mix` in one frame, one after the other. -/
def blend (seconds : α) (source : NoiseSource) (mix : α) : List (Sounding α) → α
  | [] => mix
  | n :: rest =>
    let drawn := n.timbre.waveform.sample n.phase source
    blend seconds drawn.2 (mix + drawn.1 * n.level seconds * n.gain) rest

end Notes

namespace ToneDevice

theorem mixNotes_eq (rate : ℕ) (seconds : α) (source : NoiseSource) (mix : α) (done ns : List (Sounding α)) :
    mixNotes rate seconds source mix done ns =
      (blend seconds source mix ns, source.skip (noiseNotes ns),
        done.reverse ++ ns.map fun n => n.advanced rate) := by
  induction ns generalizing source mix done with
  | nil =>
    rw [mixNotes, blend, List.map_nil, List.append_nil]
    rfl
  | cons n ns ih =>
    let drawn := n.timbre.waveform.sample n.phase source
    have source_eq : drawn.2.skip (noiseNotes ns) = source.skip (noiseNotes (n :: ns)) := by
      rw [n.timbre.waveform.source_of_sample, ← NoiseSource.skip_add, noiseNotes_cons]
    change mixNotes rate seconds drawn.2 (mix + drawn.1 * n.level seconds * n.gain) (n.advanced rate :: done) ns = _
    rw [ih, source_eq, List.reverse_cons, List.append_assoc]
    rfl

/-- The device after so many frames of one call that does not end there. -/
def ahead (d : ToneDevice α) (frames : ℕ) : ToneDevice α :=
  { d with noise := d.noise.skip (noiseNotes d.sounding * frames)
           sounding := d.sounding.map fun n => n.aged d.rate frames }

theorem ahead_zero (d : ToneDevice α) : d.ahead 0 = d := by
  unfold ahead Sounding.aged
  rw [Nat.mul_zero, Function.iterate_zero, List.map_id]
  rfl

theorem ahead_add (d : ToneDevice α) (a b : ℕ) : d.ahead (a + b) = (d.ahead a).ahead b := by
  unfold ahead
  rw [noiseNotes_aged, Nat.mul_add, NoiseSource.skip_add, List.map_map]
  have notes : (fun n : Sounding α => n.aged d.rate (a + b)) =
      (fun n => n.aged d.rate b) ∘ fun n => n.aged d.rate a := funext fun n => n.aged_add d.rate a b
  rw [notes]

def frameMix (d : ToneDevice α) : α := blend (Number.ofNat d.rate) d.noise 0 d.sounding

theorem mixFrame_eq (d : ToneDevice α) : d.mixFrame = (d.frameMix, d.ahead 1) := by
  rw [mixFrame, mixNotes_eq, ahead, Nat.mul_one]
  rfl

section Frames
variable {σ : Type} [Narrow α σ]

def frameSample (d : ToneDevice α) : σ := Narrow.narrow (d.frameMix * d.master)

def heard (d : ToneDevice α) (frames : ℕ) : List σ := (List.range frames).map fun k => (d.ahead k).frameSample

theorem length_heard (d : ToneDevice α) (frames : ℕ) : (d.heard frames : List σ).length = frames := by
  rw [heard, List.length_map, List.length_range]

theorem heard_add (d : ToneDevice α) (a b : ℕ) : (d.heard (a + b) : List σ) = d.heard a ++ (d.ahead a).heard b := by
  simp only [heard, List.range_add, List.map_append, List.map_map, Function.comp_def, ahead_add]

theorem renderFrames_eq (d : ToneDevice α) (samples : Array σ) (frames : ℕ) :
    d.renderFrames samples frames = (d.ahead frames, samples ++ (d.heard frames).toArray) := by
  induction frames generalizing d samples with
  | zero =>
    rw [renderFrames, ahead_zero]
    exact congrArg (Prod.mk d) samples.append_empty.symm
  | succ frames ih =>
    have later : (d.ahead 1).ahead frames = d.ahead (frames + 1) := by rw [Nat.add_comm, ahead_add]
    have split : (d.heard (frames + 1) : List σ) = d.frameSample :: (d.ahead 1).heard frames := by
      rw [Nat.add_comm, heard_add]
      exact congrArg (fun e : ToneDevice α => e.frameSample :: (d.ahead 1).heard frames) d.ahead_zero
    rw [renderFrames, mixFrame_eq]
    change (d.ahead 1).renderFrames (samples.push d.frameSample) frames = _
    rw [ih, later, split, List.toArray_cons, ← Array.append_assoc, Array.push_eq_append]

theorem render_spans (d : ToneDevice α) (left right : ℕ) :
    NoteDevice.render (σ := σ) d left right = ((d.ahead (min left right)).settled,
      (d.heard (min left right)).toArray, (d.heard (min left right)).toArray) := by
  have done (frames : ℕ) : d.render (σ := σ) frames = ((d.ahead frames).settled, (d.heard frames).toArray) := by
    rw [render, renderFrames_eq]
    exact congrArg (Prod.mk _) Array.empty_append
  change ((d.render (σ := σ) (min left right)).1, (d.render (σ := σ) (min left right)).2,
    (d.render (σ := σ) (min left right)).2) = _
  rw [done]

theorem render_eq (d : ToneDevice α) (frames : ℕ) :
    NoteDevice.render (σ := σ) d frames frames =
      ((d.ahead frames).settled, (d.heard frames).toArray, (d.heard frames).toArray) := by
  rw [render_spans, min_self]

end Frames

end ToneDevice
end Device

namespace Exact
variable {α : Type} [Number α] [Exact α] {a b : α}

theorem finite_add (ha : isFinite a = true) (hb : isFinite b = true) : isFinite (a + b) = true :=
  (Exact.add (stands ha) (stands hb)).finite

theorem finite_sub (ha : isFinite a = true) (hb : isFinite b = true) : isFinite (a - b) = true :=
  (Exact.sub (stands ha) (stands hb)).finite

theorem finite_mul (ha : isFinite a = true) (hb : isFinite b = true) : isFinite (a * b) = true :=
  (Exact.mul (stands ha) (stands hb)).finite

theorem finite_ofNat (n : ℕ) : isFinite (Number.ofNat n : α) = true := (Exact.ofNat n).finite

theorem finite_div_ofNat (ha : isFinite a = true) {n : ℕ} (positive : 0 < n) :
    isFinite (a / Number.ofNat n) = true :=
  (Exact.div (stands ha) (Exact.ofNat n) (Nat.cast_ne_zero.mpr positive.ne')).finite

end Exact

namespace Ideal

theorem exists_real {a : Ideal} (h : isFinite a = true) : ∃ x, a = real x := by
  cases a with
  | real x => exact ⟨x, rfl⟩
  | nan => cases h

theorem zero_eq : (0 : Ideal) = real 0 := congrArg real Nat.cast_zero

theorem add_real_zero (a : Ideal) : a + real 0 = a := by
  cases a with
  | real x => exact congrArg real (add_zero x)
  | nan => rfl

theorem finite_fractionalPart {a : Ideal} (h : isFinite a = true) : isFinite (fractionalPart a) = true := by
  refine Exact.finite_sub h ?_
  obtain ⟨x, rfl⟩ := exists_real h
  unfold trunc
  split <;> rfl

theorem pow_two_real (y : ℝ) : (Number.pow 2 (real y) : Ideal) = real (2 ^ y) := by
  have defined : ¬(((2 : ℕ) : ℝ) < 0 ∧ (⌊y⌋ : ℝ) ≠ y ∨ ((2 : ℕ) : ℝ) = 0 ∧ y < 0) := by norm_num
  have eq : (Number.pow 2 (real y) : Ideal) = real (((2 : ℕ) : ℝ) ^ y) := if_neg defined
  rw [eq, Nat.cast_ofNat]

end Ideal

namespace Sound

theorem unitPattern_bits (word : UInt64) :
    (NoiseSource.unitPattern word).bits.toNat = 1023 * 2 ^ 52 + word.toNat / 2 ^ 12 := by
  have size := word.toNat_lt
  rw [NoiseSource.unitPattern, UInt64.toNat_or, UInt64.toNat_shiftRight]
  change 1023 <<< 52 ||| word.toNat >>> 12 = _
  rw [Nat.shiftRight_eq_div_pow, ← Nat.shiftLeft_add_eq_or_of_lt (by omega), Nat.shiftLeft_eq]

theorem unitPattern_field (word : UInt64) : (NoiseSource.unitPattern word).exponentField = 1023 := by
  have size := word.toNat_lt
  rw [Binary64.exponentField_eq, unitPattern_bits]
  omega

theorem unitPattern_finite (word : UInt64) : (NoiseSource.unitPattern word).isFinite = true := by
  rw [Binary64.isFinite, unitPattern_field]
  rfl

theorem Waveform.finite_sample (w : Waveform) {phase : Ideal} (h : isFinite phase = true) (source : NoiseSource) :
    isFinite (w.sample phase source).1 = true := by
  obtain ⟨x, rfl⟩ := Ideal.exists_real h
  cases w with
  | sine => rfl
  | saw => rfl
  | square =>
    change isFinite (if _ then (1 : Ideal) else -1) = true
    split <;> rfl
  | triangle =>
    change isFinite (if _ then 4 * Ideal.real x else if _ then 2 - 4 * Ideal.real x else 4 * Ideal.real x - 4) = true
    split_ifs <;> rfl
  | noise =>
    have drawn := (Exact.ofBinary64 (α := Ideal) (unitPattern_finite source.draw.1)).finite
    have one := Exact.finite_ofNat (α := Ideal) 1
    have two := Exact.finite_ofNat (α := Ideal) 2
    exact Exact.finite_add (Exact.finite_mul (Exact.finite_sub drawn one) two) (Exact.neg (Exact.stands one)).finite

end Sound

namespace Device
open Sound

section Notes

structure Sounding.Regular (n : Sounding Ideal) : Prop where
  phase : isFinite n.phase = true
  frequency : isFinite n.frequency = true
  gain : isFinite n.gain = true
  release : ∃ r : ℝ, 0 < r ∧ n.timbre.envelope.release = .real r

variable {n : Sounding Ideal} {rate : ℕ}

theorem seconds_eq (positive : 0 < rate) (frames : ℕ) :
    (Sounding.seconds (Number.ofNat rate) frames : Ideal) = .real (frames / rate) :=
  if_neg (Nat.cast_ne_zero.mpr positive.ne')

theorem isFinished_iff (positive : 0 < rate) {r : ℝ} (release : n.timbre.envelope.release = .real r) :
    n.isFinished (Number.ofNat rate) = true ↔ ∃ off, n.gateOff = some off ∧ r ≤ n.age / rate - off / rate := by
  unfold Sounding.isFinished Envelope.isFinished
  cases gate : n.gateOff with
  | none => simp
  | some off =>
    have age := Ideal.stands_real (n.age / rate - off / rate)
    rw [Option.map_some, release, seconds_eq positive, seconds_eq positive]
    change le (.real r) (.real _ : Ideal) = true ↔ _
    rw [Exact.le_iff (Ideal.stands_real r) age]
    simp

theorem Sounding.Regular.finished_aged (h : n.Regular) (positive : 0 < rate) (frames : ℕ)
    (finished : n.isFinished (Number.ofNat rate) = true) :
    (n.aged rate frames).isFinished (Number.ofNat rate) = true := by
  obtain ⟨r, -, release⟩ := h.release
  obtain ⟨off, gate, past⟩ := (isFinished_iff positive release).mp finished
  obtain ⟨timbre, gateOff, age⟩ := n.aged_kept rate frames
  refine (isFinished_iff (r := r) positive (by rw [timbre, release])).mpr ⟨off, by rw [gateOff, gate], past.trans ?_⟩
  rw [age]
  gcongr
  omega

theorem Sounding.Regular.silent (h : n.Regular) (positive : 0 < rate)
    (finished : n.isFinished (Number.ofNat rate) = true) (source : NoiseSource) :
    (n.timbre.waveform.sample n.phase source).1 * n.level (Number.ofNat rate) * n.gain = .real 0 := by
  obtain ⟨r, length, release⟩ := h.release
  obtain ⟨off, gate, past⟩ := (isFinished_iff positive release).mp finished
  obtain ⟨wave, sample⟩ := Ideal.exists_real (n.timbre.waveform.finite_sample h.phase source)
  obtain ⟨gain, eq⟩ := Ideal.exists_real h.gain
  have passed : (off : ℝ) / rate ≤ n.age / rate := by linarith
  have begun : le (.real (off / rate)) (.real (n.age / rate) : Ideal) = true :=
    (Exact.le_iff (Ideal.stands_real _) (Ideal.stands_real _)).mpr passed
  have ended : le (.real r) (.real (n.age / rate - off / rate) : Ideal) = true :=
    (Exact.le_iff (Ideal.stands_real _) (Ideal.stands_real _)).mpr past
  have level : n.level (Number.ofNat rate) = .real 0 := by
    rw [Sounding.level, gate, Option.map_some, seconds_eq positive, seconds_eq positive, Envelope.amplitude,
      if_pos begun, Envelope.released, release]
    exact (if_pos ended).trans Ideal.zero_eq
  rw [sample, level, eq]
  change Ideal.real (wave * 0 * gain) = _
  rw [mul_zero, zero_mul]

theorem Sounding.Regular.advanced (h : n.Regular) (positive : 0 < rate) : (n.advanced rate).Regular where
  phase := Ideal.finite_fractionalPart (Exact.finite_add h.phase (Exact.finite_div_ofNat h.frequency positive))
  frequency := h.frequency
  gain := h.gain
  release := h.release

theorem Sounding.Regular.aged (h : n.Regular) (positive : 0 < rate) (frames : ℕ) : (n.aged rate frames).Regular := by
  induction frames generalizing n with
  | zero => exact h
  | succ frames ih =>
    rw [n.aged_succ]
    exact ih (h.advanced positive)

/-- What is true of every note between two calls: its numbers are, and its release is not over. -/
structure Sounding.Live (rate : ℕ) (n : Sounding Ideal) : Prop where
  regular : n.Regular
  lasting : n.isFinished (Number.ofNat rate) = false

theorem Sounding.Live.released (h : n.Live rate) (positive : 0 < rate) : n.released.Live rate := by
  obtain ⟨phase, frequency, gain, r, length, release⟩ := h.regular
  unfold Sounding.released
  split
  · refine ⟨⟨phase, frequency, gain, r, length, release⟩, Bool.eq_false_iff.mpr fun finished => ?_⟩
    obtain ⟨off, gate, past⟩ := (isFinished_iff positive (by exact release)).mp finished
    cases gate
    rw [sub_self] at past
    exact absurd past (not_le_of_gt length)
  · exact h

theorem positive_decimal {digits : ℕ} {negative : Bool} {places : ℕ} {b : Binary64}
    (eq : Binary64.ofDecimal digits (if negative then -(places : Int) else places) = b) (finite : b.isFinite = true)
    (positive : b.isNegative = false) (nonzero : b.significand ≠ 0) {num den : ℕ} (pos : 0 < den)
    (least : b.exponent ≤ 0) (below : den * b.significand ≤ num * 2 ^ (-b.exponent).toNat) :
    ∃ r : ℝ, 0 < r ∧ r ≤ num / den ∧ (OfScientific.ofScientific digits negative places : Ideal) = .real r :=
  ⟨b.toReal, Binary64.toReal_pos positive nonzero, Binary64.toReal_le pos least below,
    Ideal.eq_real_of_stands (Exact.stands_decimal eq finite)⟩

theorem Kind.release_bounds (k : Kind) :
    ∃ r : ℝ, 0 < r ∧ r ≤ 1 / 2 ∧ (k.timbre : Timbre Ideal).envelope.release = .real r := by
  have half : (1 / 2 : ℝ) = (1 : ℕ) / (2 : ℕ) := by norm_num
  rw [half]
  cases k <;>
    exact positive_decimal rfl (by decide +kernel) (by decide +kernel) (by decide +kernel) two_pos (by decide +kernel)
      (by decide +kernel)

theorem Kind.finite_gain (k : Kind) : isFinite (k.timbre : Timbre Ideal).gain = true := by
  cases k <;>
    exact (Exact.stands_decimal rfl (by decide +kernel)).finite

theorem keyFrequency_positive (key : ℕ) : ∃ f : ℝ, 0 < f ∧ (keyFrequency key : Ideal) = .real f := by
  have octaves : ((Number.ofNat key - 69) / 12 : Ideal) = .real ((key - (69 : ℕ)) / (12 : ℕ)) :=
    if_neg (Nat.cast_ne_zero.mpr (by decide))
  refine ⟨(440 : ℕ) * 2 ^ ((key - (69 : ℕ)) / (12 : ℕ) : ℝ), by positivity, ?_⟩
  rw [keyFrequency, octaves, Ideal.pow_two_real]
  rfl

theorem finite_keyFrequency (key : ℕ) : isFinite (keyFrequency key : Ideal) = true := by
  obtain ⟨f, -, eq⟩ := keyFrequency_positive key
  rw [eq]
  rfl

theorem finite_noteGain (v : Voice) (velocity volume : ℕ) :
    isFinite (ToneDevice.noteGain v.timbre velocity volume : Ideal) = true := by
  have loud := Exact.finite_mul (Kind.finite_gain v.kind) (Exact.finite_ofNat (Nat.min velocity 127))
  have struck := Exact.finite_mul (Exact.finite_div_ofNat loud (Nat.succ_pos 126)) (Exact.finite_ofNat volume)
  exact Exact.finite_div_ofNat struck (Nat.succ_pos 126)

end Notes

section Blending
variable {rate : ℕ} {ns : List (Sounding Ideal)}

/-- As long as no finished note draws from the source it is all the same whether they are there. -/
theorem blend_unfinished (positive : 0 < rate) (regular : ∀ n ∈ ns, n.Regular)
    (pitched : ∀ n ∈ ns, n.isFinished (Number.ofNat rate) = true → n.isNoise = false)
    (frames : ℕ) (source : NoiseSource) (mix : Ideal) :
    blend (Number.ofNat rate) source mix ((unfinished rate ns).map fun n => n.aged rate frames) =
      blend (Number.ofNat rate) source mix (ns.map fun n => n.aged rate frames) := by
  induction ns generalizing source mix with
  | nil => rfl
  | cons n ns ih =>
    obtain ⟨first, rest⟩ := List.forall_mem_cons.mp regular
    obtain ⟨undrawn, others⟩ := List.forall_mem_cons.mp pitched
    cases finished : n.isFinished (Number.ofNat rate) with
    | false =>
      rw [unfinished_cons_of_lasting finished, List.map_cons, List.map_cons, blend, blend]
      exact ih rest others _ _
    | true =>
      -- the note that is left out adds zero to the mix and leaves the source to the notes after it
      have silent := (first.aged positive frames).silent positive (first.finished_aged positive frames finished) source
      have kept : ((n.aged rate frames).timbre.waveform.sample (n.aged rate frames).phase source).2 = source := by
        rw [Waveform.source_of_sample, (n.aged_kept rate frames).1, if_neg (of_decide_eq_false (undrawn finished))]
        rfl
      rw [unfinished_cons_of_finished finished, ih rest others, List.map_cons, blend, silent, kept, Ideal.add_real_zero]

theorem blend_unfinished_pitched (positive : 0 < rate) (regular : ∀ n ∈ ns, n.Regular)
    (pitched : ∀ n ∈ unfinished rate ns, n.isNoise = false) (frames : ℕ) (s t : NoiseSource) (mix : Ideal) :
    blend (Number.ofNat rate) s mix ((unfinished rate ns).map fun n => n.aged rate frames) =
      blend (Number.ofNat rate) t mix (ns.map fun n => n.aged rate frames) := by
  -- a finished noise note moves only the source of the right side, so the two sources are apart in the induction
  induction ns generalizing s t mix with
  | nil => rfl
  | cons n ns ih =>
    obtain ⟨first, rest⟩ := List.forall_mem_cons.mp regular
    cases finished : n.isFinished (Number.ofNat rate) with
    | false =>
      rw [unfinished_cons_of_lasting finished] at pitched ⊢
      obtain ⟨undrawn, others⟩ := List.forall_mem_cons.mp pitched
      have same : (n.aged rate frames).timbre.waveform ≠ .noise := by
        rw [(n.aged_kept rate frames).1]
        exact of_decide_eq_false undrawn
      rw [List.map_cons, List.map_cons, blend, blend, Waveform.sample_of_pitched same _ s t]
      exact ih rest others _ _ _
    | true =>
      have silent := (first.aged positive frames).silent positive (first.finished_aged positive frames finished) t
      rw [unfinished_cons_of_finished finished] at pitched ⊢
      rw [List.map_cons, blend, silent, Ideal.add_real_zero]
      exact ih rest pitched _ _ _

theorem unfinished_aged_unfinished (positive : 0 < rate) (regular : ∀ n ∈ ns, n.Regular) (frames : ℕ) :
    unfinished rate ((unfinished rate ns).map fun n => n.aged rate frames) =
      unfinished rate (ns.map fun n => n.aged rate frames) := by
  induction ns with
  | nil => rfl
  | cons n ns ih =>
    obtain ⟨first, rest⟩ := List.forall_mem_cons.mp regular
    cases finished : n.isFinished (Number.ofNat rate) with
    | false =>
      rw [unfinished_cons_of_lasting finished, List.map_cons, List.map_cons]
      cases ends : (n.aged rate frames).isFinished (Number.ofNat rate) with
      | false => rw [unfinished_cons_of_lasting ends, unfinished_cons_of_lasting ends, ih rest]
      | true => rw [unfinished_cons_of_finished ends, unfinished_cons_of_finished ends, ih rest]
    | true =>
      rw [unfinished_cons_of_finished finished, List.map_cons,
        unfinished_cons_of_finished (first.finished_aged positive frames finished), ih rest]

theorem noiseNotes_unfinished_iff : noiseNotes (unfinished rate ns) = noiseNotes ns ↔
    ∀ n ∈ ns, n.isNoise = true → n.isFinished (Number.ofNat rate) = false := by
  simp only [noiseNotes, List.countP_eq_length_filter]
  constructor
  · intro same n mem noise
    have sub : ((unfinished rate ns).filter Sounding.isNoise).Sublist (ns.filter Sounding.isNoise) :=
      List.filter_sublist.filter _
    have kept : n ∈ (unfinished rate ns).filter Sounding.isNoise := by
      rw [sub.eq_of_length same]
      exact List.mem_filter.mpr ⟨mem, noise⟩
    exact (mem_unfinished_iff.mp (List.mem_of_mem_filter kept)).2
  · intro lasting
    rw [unfinished, List.filter_filter]
    refine congrArg List.length (List.filter_congr fun n mem => ?_)
    cases noise : n.isNoise with
    | false => rfl
    | true =>
      rw [lasting n mem noise]
      rfl

theorem pitched_of_noiseNotes_eq (same : noiseNotes (unfinished rate ns) = noiseNotes ns) :
    ∀ n ∈ ns, n.isFinished (Number.ofNat rate) = true → n.isNoise = false := by
  intro n mem finished
  refine Bool.eq_false_iff.mpr fun noise => ?_
  rw [noiseNotes_unfinished_iff.mp same n mem noise] at finished
  cases finished

theorem unfinished_of_lasting (lasting : ∀ n ∈ ns, n.isFinished (Number.ofNat rate) = false) :
    unfinished rate ns = ns := by
  refine List.filter_eq_self.mpr fun n mem => ?_
  rw [lasting n mem]
  rfl

theorem pitched_of_noiseNotes_zero (none : noiseNotes ns = 0) : ∀ n ∈ ns, n.isNoise = false := by
  intro n mem
  exact Bool.eq_false_iff.mpr (List.countP_eq_zero.mp none n mem)

end Blending

namespace ToneDevice

section Starting
variable {rate : ℕ} {d : ToneDevice Ideal}

structure Ready (rate : ℕ) (d : ToneDevice Ideal) : Prop where
  rate_eq : d.rate = rate
  notes : ∀ n ∈ d.sounding, n.Live rate

theorem Ready.release (h : d.Ready rate) (positive : 0 < rate) (channel : ℕ) : (d.release channel).Ready rate := by
  refine ⟨h.rate_eq, fun n mem => ?_⟩
  obtain ⟨m, there, rfl⟩ := List.mem_map.mp mem
  split
  · exact (h.notes m there).released positive
  · exact h.notes m there

theorem Ready.makeRoom (h : d.Ready rate) : d.makeRoom.Ready rate := by
  unfold ToneDevice.makeRoom
  split
  · exact h
  · exact ⟨h.rate_eq, fun n mem => h.notes n (List.mem_of_mem_eraseIdx mem)⟩

theorem Ready.start (h : d.Ready rate) (channel : ℕ) (c : Channel) (key velocity : ℕ) :
    (d.start channel c key velocity).Ready rate := by
  refine ⟨h.rate_eq, fun n mem => ?_⟩
  rcases List.mem_append.mp mem with old | new
  · exact h.notes n old
  · obtain ⟨r, length, -, release⟩ := Kind.release_bounds c.voice.kind
    rw [List.mem_singleton.mp new]
    exact ⟨⟨Exact.finite_ofNat 0, finite_keyFrequency key, finite_noteGain c.voice velocity c.volume,
      r, length, release⟩, rfl⟩

theorem Ready.command (h : d.Ready rate) (positive : 0 < rate) (c : Command) : (d.command c).Ready rate := by
  cases c with
  | reset => exact ⟨h.rate_eq, fun n mem => absurd mem List.not_mem_nil⟩
  | voice channel voice => exact ⟨h.rate_eq, h.notes⟩
  | volume channel level => exact ⟨h.rate_eq, h.notes⟩
  | noteOn channel key velocity =>
    change (d.noteOn channel key velocity).Ready rate
    unfold noteOn
    split
    · exact ((h.release positive channel).makeRoom).start channel _ key velocity
    · exact h
  | noteOff channel => exact h.release positive channel

theorem regular_ahead (positive : 0 < d.rate) (regular : ∀ n ∈ d.sounding, n.Regular) (frames : ℕ) :
    ∀ n ∈ (d.ahead frames).sounding, n.Regular := by
  intro n mem
  obtain ⟨m, there, rfl⟩ := List.mem_map.mp mem
  exact (regular m there).aged positive frames

theorem ready_settled (regular : ∀ n ∈ d.sounding, n.Regular) : d.settled.Ready d.rate := by
  refine ⟨rfl, fun n mem => ?_⟩
  obtain ⟨there, lasting⟩ := mem_unfinished_iff.mp mem
  exact ⟨regular n there, lasting⟩

variable {σ : Type} [Narrow Ideal σ]

theorem Ready.render (h : d.Ready rate) (positive : 0 < rate) (left right : ℕ) :
    (NoteDevice.render (σ := σ) d left right).1.Ready rate := by
  obtain ⟨rfl, notes⟩ := h
  rw [render_spans]
  exact ready_settled (regular_ahead positive (fun n mem => (notes n mem).regular) _)

theorem Reached.ready [Silence σ] {start : ToneDevice Ideal} (h : start.Ready rate) (positive : 0 < rate)
    (reached : Reached σ start d) : d.Ready rate :=
  reached.keeps (fun _ c kept => kept.command positive c) (fun _ left right kept => kept.render positive left right) h

end Starting

section Cutting
variable {d : ToneDevice Ideal} {σ : Type} [Narrow Ideal σ]

variable (positive : 0 < d.rate) (regular : ∀ n ∈ d.sounding, n.Regular)
include positive regular

theorem settled_cut (frames : ℕ) :
    (d.settled.ahead frames).settled =
      { (d.ahead frames).settled with noise := d.noise.skip (noiseNotes d.settled.sounding * frames) } := by
  have sounding := unfinished_aged_unfinished positive regular frames
  change ({ d with
    noise := d.noise.skip (noiseNotes d.settled.sounding * frames)
    sounding := unfinished d.rate ((unfinished d.rate d.sounding).map fun n => n.aged d.rate frames) } :
      ToneDevice Ideal) = _
  rw [sounding]
  rfl

theorem heard_of_noise_left (same : noiseNotes d.settled.sounding = noiseNotes d.sounding) (count : ℕ) :
    (d.settled.heard count : List σ) = d.heard count := by
  refine List.map_congr_left fun frames _ => ?_
  have mix : (d.settled.ahead frames).frameMix = (d.ahead frames).frameMix := by
    have sources := congrArg (fun count => d.noise.skip (count * frames)) same
    have notes := blend_unfinished positive regular (pitched_of_noiseNotes_eq same) frames
      (d.noise.skip (noiseNotes d.sounding * frames)) 0
    rw [← sources] at notes
    exact notes.trans (congrArg (fun s => blend _ s 0 _) sources)
  exact congrArg (fun m => Narrow.narrow (m * d.master)) mix

theorem heard_of_noise_over (none : noiseNotes d.settled.sounding = 0) (count : ℕ) :
    (d.settled.heard count : List σ) = d.heard count := by
  refine List.map_congr_left fun frames _ => ?_
  have mix : (d.settled.ahead frames).frameMix = (d.ahead frames).frameMix :=
    blend_unfinished_pitched positive regular (pitched_of_noiseNotes_zero none) frames _ _ _
  exact congrArg (fun m => Narrow.narrow (m * d.master)) mix

end Cutting

/-- A device of any rate, seed and master volume that is used in any way, and what it plays and becomes in one call
    and in two. The frames before the cut are the same, and so is everything at the end but the source: at the cut the
    noise notes that are over stop drawing from it, and in one call they go on. Where there are none of them, or none of
    the others, the cut is not heard. -/
theorem render_in_two_calls {σ : Type} [Narrow Ideal σ] [Silence σ] {rate : ℕ} (positive : 0 < rate) {seed : UInt64}
    {master : Ideal} {d : ToneDevice Ideal} (reached : Reached σ { new rate seed with master := master } d) (a b : ℕ) :
    let whole := NoteDevice.render (σ := σ) d (a + b) (a + b)
    let first := NoteDevice.render (σ := σ) d a a
    let rest := NoteDevice.render (σ := σ) first.1 b b
    let before := noiseNotes d.sounding
    let left := noiseNotes first.1.sounding
    whole.1 = { rest.1 with noise := d.noise.skip (before * (a + b)) } ∧
    rest.1.noise = d.noise.skip (before * a + left * b) ∧
    (whole.2.1.size = a + b ∧ first.2.1.size = a ∧ rest.2.1.size = b) ∧
    (whole.2.2 = whole.2.1 ∧ first.2.2 = first.2.1 ∧ rest.2.2 = rest.2.1) ∧
    first.2.1.toList <+: whole.2.1.toList ∧
    (left = before ∨ left = 0 ∨ b = 0 → whole.2.1 = first.2.1 ++ rest.2.1) ∧
    (left = before ∨ b = 0 → whole.1 = rest.1) ∧
    (left = before ↔ ∀ n ∈ d.sounding, n.isNoise = true → (n.aged rate a).isFinished (Number.ofNat rate) = false) ∧
    (a = 0 → left = before) := by
  intro whole first rest before left
  obtain ⟨rfl, notes⟩ := reached.ready ⟨rfl, fun n mem => absurd mem List.not_mem_nil⟩ positive
  let e := d.ahead a
  have regular := regular_ahead positive (fun n mem => (notes n mem).regular) a
  have whole_eq : whole =
      ((e.ahead b).settled, (d.heard a ++ e.heard b).toArray, (d.heard a ++ e.heard b).toArray) := by
    rw [← ahead_add, ← heard_add]
    exact render_eq d (a + b)
  have first_eq : first = (e.settled, (d.heard a).toArray, (d.heard a).toArray) := render_eq d a
  have cut : first.1 = e.settled := congrArg Prod.fst first_eq
  have rest_eq : rest = ((e.settled.ahead b).settled, (e.settled.heard b).toArray, (e.settled.heard b).toArray) := by
    rw [← cut]
    exact render_eq first.1 b
  have left_eq : left = noiseNotes e.settled.sounding := congrArg (fun f => noiseNotes f.sounding) cut
  have before_eq : before = noiseNotes e.sounding := (noiseNotes_aged d.sounding d.rate a).symm
  have device : (e.settled.ahead b).settled = { (e.ahead b).settled with noise := e.noise.skip (left * b) } := by
    rw [left_eq]
    exact settled_cut (d := e) positive regular b
  have source : e.noise.skip (left * b) = d.noise.skip (before * a + left * b) := (d.noise.skip_add _ _).symm
  have all : (e.ahead b).settled.noise = d.noise.skip (before * (a + b)) := by
    change e.noise.skip (noiseNotes e.sounding * b) = _
    rw [← before_eq, Nat.mul_add]
    exact (d.noise.skip_add _ _).symm
  have played (same : (e.settled.heard b : List σ) = e.heard b) : whole.2.1 = first.2.1 ++ rest.2.1 := by
    rw [whole_eq, first_eq, rest_eq, same]
    exact (List.append_toArray (d.heard a) (e.heard b)).symm
  refine ⟨?_, ?_, ⟨?_, ?_, ?_⟩, ⟨?_, ?_, ?_⟩, ?_, ?_, ?_, ?_, ?_⟩
  · rw [whole_eq, rest_eq, device, ← all]
  · rw [rest_eq, device, source]
  · simp [whole_eq, length_heard]
  · simp [first_eq, length_heard]
  · simp [rest_eq, length_heard]
  · rw [whole_eq]
  · rw [first_eq]
  · rw [rest_eq]
  · rw [whole_eq, first_eq]
    exact List.prefix_append _ _
  · intro agreeing
    refine played ?_
    rcases agreeing with same | none | rfl
    · have kept : noiseNotes e.settled.sounding = noiseNotes e.sounding := by rw [← left_eq, same, before_eq]
      exact heard_of_noise_left (d := e) positive regular kept b
    · have ended : noiseNotes e.settled.sounding = 0 := by rw [← left_eq, none]
      exact heard_of_noise_over (d := e) positive regular ended b
    · rfl
  · intro agreeing
    have drawn : before * (a + b) = before * a + left * b := by
      rcases agreeing with same | rfl
      · rw [same, Nat.mul_add]
      · rw [Nat.add_zero, Nat.mul_zero, Nat.add_zero]
    rw [whole_eq, rest_eq, device, source, ← drawn, ← all]
  · rw [left_eq, before_eq]
    refine noiseNotes_unfinished_iff.trans ?_
    change (∀ n ∈ d.sounding.map (fun n => n.aged d.rate a), _) ↔ _
    simp only [List.forall_mem_map, Sounding.isNoise_aged]
    rfl
  · intro now
    have lasting : unfinished d.rate d.sounding = d.sounding := unfinished_of_lasting fun n mem => (notes n mem).lasting
    have here : e = d := by
      change d.ahead a = d
      rw [now, ahead_zero]
    rw [left_eq, here]
    exact congrArg noiseNotes lasting

/-- Two drums at twenty frames per second, one of them released at once. It is over after one frame, so in two calls
    the second sample of the other is the next one of the source, and in one call the one after that. The difference
    is there before the samples are rounded to their precision. -/
theorem cut_shifts_noise :
    let drum : Voice := ⟨.drum, "Timpani", 80⟩
    let commands : List Command :=
      [.voice 0 drum, .voice 1 drum, .noteOn 0 60 100, .noteOff 0, .noteOn 1 60 100]
    let d : ToneDevice Float := commands.foldl ToneDevice.command (new 20 1)
    let cut : ToneDevice Float := (NoteDevice.render (σ := Sample) d 1 1).1
    let _ : Narrow Float Float := ⟨id⟩
    Reached Sample (new 20 1) d ∧
      (NoteDevice.render (σ := Float) d 2 2).2.1.toList ≠
        (NoteDevice.render (σ := Float) d 1 1).2.1.toList ++ (NoteDevice.render (σ := Float) cut 1 1).2.1.toList ∧
      (NoteDevice.render (σ := Sample) d 2 2).1.noise ≠ (NoteDevice.render (σ := Sample) cut 1 1).1.noise := by
  intro drum commands d cut _
  refine ⟨?_, by decide +kernel, by decide +kernel⟩
  exact Reached.start.command (.voice 0 drum) |>.command (.voice 1 drum) |>.command (.noteOn 0 60 100)
    |>.command (.noteOff 0) |>.command (.noteOn 1 60 100)

/-- A drum that is held and a bass note that is released: the cut drops no noise note. -/
theorem render_in_two_calls_under_held_drum :
    let drum : Voice := ⟨.drum, "Timpani", 80⟩
    let commands : List Command := [.voice 0 drum, .noteOn 0 60 100, .noteOn 1 48 90, .noteOff 1]
    let d : ToneDevice Ideal := commands.foldl ToneDevice.command (new 100 7)
    let _ : Narrow Ideal Ideal := ⟨id⟩
    let _ : Silence Ideal := ⟨0⟩
    let whole := NoteDevice.render (σ := Ideal) d (9 + 3) (9 + 3)
    let first := NoteDevice.render (σ := Ideal) d 9 9
    let rest := NoteDevice.render (σ := Ideal) first.1 3 3
    0 < 100 ∧ Reached Ideal (new 100 7) d ∧ noiseNotes d.sounding = 1 ∧ whole.2.1 = first.2.1 ++ rest.2.1 ∧
      whole.1 = rest.1 := by
  intro drum commands d _ _ whole first rest
  have reached : Reached Ideal (new 100 7) d :=
    Reached.start.command (.voice 0 drum) |>.command (.noteOn 0 60 100) |>.command (.noteOn 1 48 90)
      |>.command (.noteOff 1)
  obtain ⟨-, -, -, -, -, samples, device, all, -⟩ :=
    render_in_two_calls (show 0 < 100 by decide)
      (show Reached Ideal { (new 100 7 : ToneDevice Ideal) with master := defaultMaster } d from reached) 9 3
  have held : ∀ n ∈ d.sounding, n.isNoise = true → n.gateOff = none := by
    refine List.forall_mem_cons.mpr ⟨fun _ => rfl, List.forall_mem_cons.mpr ⟨fun noise => ?_, ?_⟩⟩
    · exact absurd noise Bool.false_ne_true
    · exact fun n mem => absurd mem List.not_mem_nil
  have kept := all.mpr fun n mem noise => by
    rw [Sounding.isFinished, (n.aged_kept 100 9).2.1, held n mem noise]
    rfl
  exact ⟨by decide, reached, rfl, samples (.inl kept), device (.inl kept)⟩

end ToneDevice
end Device
end FormulaSynth
