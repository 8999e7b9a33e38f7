import FormulaSynth.Proofs.Envelopes
import FormulaSynth.Proofs.Polyphony

/-!
# Phases and loudness

The phase of a note stays within one cycle, where every waveform lies between minus one and one. So a note is never
louder than its gain, and a frame never louder than the gains of the notes in it together.
-/

set_option autoImplicit false
namespace FormulaSynth
open Number

theorem Binary64.toReal_eq {b : Binary64} {num den : ℕ} (pos : 0 < den) (positive : b.isNegative = false)
    (least : b.exponent ≤ 0) (value : den * b.significand = num * 2 ^ (-b.exponent).toNat) :
    b.toReal = num / den := by
  have unit : (2 : ℝ) ^ (-b.exponent) * 2 ^ b.exponent = 1 := by
    rw [← zpow_add₀ two_ne_zero, neg_add_cancel, zpow_zero]
  have cast : (den : ℝ) * b.significand = num * 2 ^ (-b.exponent) := by
    rw [← Int.toNat_of_nonneg (neg_nonneg.mpr least), zpow_natCast]
    exact_mod_cast value
  have scaled : (den : ℝ) * (b.significand * 2 ^ b.exponent) = num := by
    rw [← mul_assoc, cast, mul_assoc, unit, mul_one]
  rw [Binary64.toReal, positive, if_neg Bool.false_ne_true, one_mul, eq_div_iff (Nat.cast_ne_zero.mpr pos.ne'),
    mul_comm]
  exact scaled

namespace Ideal

theorem fractionalPart_real {x : ℝ} (nonneg : 0 ≤ x) : fractionalPart (real x) = real (Int.fract x) := by
  have above : lt (real x) (0 : Ideal) = false := by
    rw [Bool.eq_false_iff, Ne, zero_eq, Exact.lt_iff (stands_real x) (stands_real 0)]
    exact not_lt.mpr nonneg
  rw [fractionalPart, trunc, above]
  rfl

theorem div_ofNat (x : ℝ) {n : ℕ} (positive : 0 < n) : (real x / Number.ofNat n : Ideal) = real (x / n) :=
  if_neg (Nat.cast_ne_zero.mpr positive.ne')

theorem lt_real_iff (x y : ℝ) : lt (real x) (real y) = true ↔ x < y :=
  Exact.lt_iff (stands_real x) (stands_real y)

theorem eq_decimal {digits : ℕ} {negative : Bool} {places : ℕ} {b : Binary64} {num den : ℕ}
    (eq : Binary64.ofDecimal digits (if negative then -(places : Int) else places) = b) (finite : b.isFinite = true)
    (pos : 0 < den) (positive : b.isNegative = false) (least : b.exponent ≤ 0)
    (value : den * b.significand = num * 2 ^ (-b.exponent).toNat) :
    (OfScientific.ofScientific digits negative places : Ideal) = real (num / den) := by
  rw [eq_real_of_stands (Exact.stands_decimal eq finite), Binary64.toReal_eq pos positive least value]

theorem quarter_eq : (0.25 : Ideal) = real (1 / 4) := by
  have value : (0.25 : Ideal) = real ((1 : ℕ) / (4 : ℕ)) :=
    eq_decimal rfl (by decide +kernel) (by decide) (by decide +kernel) (by decide +kernel) (by decide +kernel)
  rw [value, Nat.cast_one, Nat.cast_ofNat]

theorem three_quarters_eq : (0.75 : Ideal) = real (3 / 4) := by
  have value : (0.75 : Ideal) = real ((3 : ℕ) / (4 : ℕ)) :=
    eq_decimal rfl (by decide +kernel) (by decide) (by decide +kernel) (by decide +kernel) (by decide +kernel)
  rw [value, Nat.cast_ofNat, Nat.cast_ofNat]

def Within (bound : ℝ) (a : Ideal) : Prop := ∃ x, a = real x ∧ |x| ≤ bound

theorem within_real {bound x : ℝ} (h : |x| ≤ bound) : Within bound (real x) := ⟨x, rfl, h⟩

end Ideal

namespace Sound

theorem unitPattern_bounds (word : UInt64) :
    1 ≤ (NoiseSource.unitPattern word).toReal ∧ (NoiseSource.unitPattern word).toReal < 2 := by
  have size := word.toNat_lt
  have bits := unitPattern_bits word
  have field := unitPattern_field word
  have fraction : (NoiseSource.unitPattern word).fractionField = word.toNat / 2 ^ 12 := by
    rw [Binary64.fractionField_eq, bits]
    omega
  have small : word.toNat / 2 ^ 12 < 2 ^ 52 := by omega
  have positive : (NoiseSource.unitPattern word).isNegative = false := by
    rw [Bool.eq_false_iff, Ne, Binary64.isNegative_iff, bits]
    omega
  have value : (NoiseSource.unitPattern word).toReal = (word.toNat / 2 ^ 12 + 2 ^ 52 : ℕ) / (2 ^ 52 : ℕ) := by
    refine Binary64.toReal_eq (by positivity) positive ?_ ?_
    · rw [Binary64.exponent, field]
      decide
    · rw [Binary64.significand, Binary64.exponent, field, fraction]
      exact Nat.mul_comm _ _
  rw [value]
  constructor
  · rw [le_div_iff₀ (by positivity)]
    exact_mod_cast (by omega : 1 * 2 ^ 52 ≤ word.toNat / 2 ^ 12 + 2 ^ 52)
  · rw [div_lt_iff₀ (by positivity)]
    exact_mod_cast (by omega : word.toNat / 2 ^ 12 + 2 ^ 52 < 2 * 2 ^ 52)

/-- Within one cycle a waveform lies between minus one and one. -/
theorem Waveform.sample_within (w : Waveform) {p : ℝ} (low : 0 ≤ p) (high : p < 1) (source : NoiseSource) :
    (w.sample (.real p : Ideal) source).1.Within 1 := by
  have one : (1 : Ideal).Within 1 := Ideal.within_real (by simp)
  have minus : (-1 : Ideal).Within 1 := Ideal.within_real (by simp)
  cases w with
  | sine =>
    obtain ⟨angle, eq⟩ := Ideal.exists_real (show isFinite (.real p * 2 * Number.pi : Ideal) = true from rfl)
    change (Number.sin (.real p * 2 * Number.pi) : Ideal).Within 1
    rw [eq]
    exact Ideal.within_real (Real.abs_sin_le_one angle)
  | saw =>
    change (Ideal.real ((2 : ℕ) * p - (1 : ℕ))).Within 1
    refine Ideal.within_real (abs_le.mpr ⟨?_, ?_⟩) <;> push_cast <;> linarith
  | square =>
    change (if lt (Ideal.real p) 0.5 then (1 : Ideal) else -1).Within 1
    split
    · exact one
    · exact minus
  | triangle =>
    change (if lt (Ideal.real p) 0.25 then Ideal.real ((4 : ℕ) * p) else if lt (Ideal.real p) 0.75
      then Ideal.real ((2 : ℕ) - (4 : ℕ) * p) else Ideal.real ((4 : ℕ) * p - (4 : ℕ))).Within 1
    rw [Ideal.quarter_eq, Ideal.three_quarters_eq]
    split_ifs with rising falling
    · rw [Ideal.lt_real_iff] at rising
      refine Ideal.within_real (abs_le.mpr ⟨?_, ?_⟩) <;> push_cast <;> linarith
    · rw [Ideal.lt_real_iff] at rising falling
      refine Ideal.within_real (abs_le.mpr ⟨?_, ?_⟩) <;> push_cast <;> linarith
    · rw [Ideal.lt_real_iff] at falling
      refine Ideal.within_real (abs_le.mpr ⟨?_, ?_⟩) <;> push_cast <;> linarith
  | noise =>
    obtain ⟨least, most⟩ := unitPattern_bounds source.draw.1
    have drawn : (Number.ofBinary64 (NoiseSource.unitPattern source.draw.1) : Ideal) =
        .real (NoiseSource.unitPattern source.draw.1).toReal := if_pos (unitPattern_finite _)
    change ((Number.ofBinary64 (NoiseSource.unitPattern source.draw.1) - 1) * 2 + -1 : Ideal).Within 1
    rw [drawn]
    change (Ideal.real (((NoiseSource.unitPattern source.draw.1).toReal - (1 : ℕ)) * (2 : ℕ) + -(1 : ℕ))).Within 1
    refine Ideal.within_real (abs_le.mpr ⟨?_, ?_⟩) <;> push_cast <;> linarith

end Sound

namespace Device
open Sound

section Voices

def IsShare (a : Ideal) : Prop := ∃ r : ℝ, a = .real r ∧ 0 ≤ r ∧ r ≤ 1

theorem isShare_zero : IsShare 0 := ⟨0, Ideal.zero_eq, le_rfl, zero_le_one⟩

theorem isShare_one : IsShare 1 := ⟨1, congrArg Ideal.real Nat.cast_one, zero_le_one, le_rfl⟩

theorem isShare_decimal {digits : ℕ} {negative : Bool} {places : ℕ} {b : Binary64}
    (eq : Binary64.ofDecimal digits (if negative then -(places : Int) else places) = b) (finite : b.isFinite = true)
    (positive : b.isNegative = false) (nonzero : b.significand ≠ 0) (least : b.exponent ≤ 0)
    (below : 1 * b.significand ≤ 1 * 2 ^ (-b.exponent).toNat) :
    IsShare (OfScientific.ofScientific digits negative places) := by
  obtain ⟨r, pos, most, value⟩ := positive_decimal eq finite positive nonzero one_pos least below
  exact ⟨r, value, pos.le, by simpa using most⟩

theorem Kind.envelope_shares (k : Kind) :
    let e := (k.timbre : Timbre Ideal).envelope
    IsShare e.attack ∧ IsShare e.decay ∧ IsShare e.sustain ∧ IsShare e.release := by
  cases k <;> refine ⟨?_, ?_, ?_, ?_⟩ <;>
    first
    | exact isShare_zero
    | exact isShare_decimal rfl (by decide +kernel) (by decide +kernel) (by decide +kernel) (by decide +kernel)
        (by decide +kernel)

theorem Kind.proper_envelope (k : Kind) : (k.timbre : Timbre Ideal).envelope.Proper := by
  obtain ⟨⟨a, attack, noAttack, -⟩, ⟨d, decay, noDecay, -⟩, ⟨s, sustain, low, high⟩, ⟨r, release, noRelease, -⟩⟩ :=
    Kind.envelope_shares k
  generalize (k.timbre : Timbre Ideal).envelope = e at *
  obtain ⟨_, _, _, _⟩ := e
  subst attack decay sustain release
  exact ⟨rfl, rfl, rfl, rfl, noAttack, noDecay, ⟨low, high⟩, noRelease⟩

theorem Kind.gain_bounds (k : Kind) :
    ∃ g : ℝ, 0 < g ∧ g ≤ 7 / 10 ∧ (k.timbre : Timbre Ideal).gain = .real g := by
  have most : (7 / 10 : ℝ) = (7 : ℕ) / (10 : ℕ) := by norm_num
  rw [most]
  cases k <;>
    exact positive_decimal rfl (by decide +kernel) (by decide +kernel) (by decide +kernel) (by decide)
      (by decide +kernel) (by decide +kernel)

end Voices

section Notes
variable {n : Sounding Ideal} {rate : ℕ}

/-- The bounds that a note keeps. -/
structure Sounding.Bounded (n : Sounding Ideal) : Prop where
  phase : ∃ p : ℝ, n.phase = .real p ∧ 0 ≤ p ∧ p < 1
  frequency : ∃ f : ℝ, n.frequency = .real f ∧ 0 < f
  gain : ∃ g : ℝ, n.gain = .real g ∧ 0 ≤ g ∧ g ≤ 7 / 10
  voice : ∃ v : Voice, n.timbre = v.timbre

namespace Sounding.Bounded

theorem released (h : n.Bounded) : n.released.Bounded := by
  rw [n.released_eq]
  exact ⟨h.phase, h.frequency, h.gain, h.voice⟩

theorem advanced (h : n.Bounded) (positive : 0 < rate) : (n.advanced rate).Bounded := by
  refine ⟨?_, h.frequency, h.gain, h.voice⟩
  obtain ⟨p, phase, low, -⟩ := h.phase
  obtain ⟨f, frequency, pos⟩ := h.frequency
  have forward : 0 ≤ p + f / rate := by positivity
  refine ⟨Int.fract (p + f / rate), ?_, Int.fract_nonneg _, Int.fract_lt_one _⟩
  change advancePhase n.phase n.frequency rate = _
  rw [advancePhase, phase, frequency, Ideal.div_ofNat f positive]
  exact Ideal.fractionalPart_real forward

theorem aged (h : n.Bounded) (positive : 0 < rate) (frames : ℕ) : (n.aged rate frames).Bounded := by
  induction frames generalizing n with
  | zero => exact h
  | succ frames ih =>
    rw [n.aged_succ]
    exact ih (h.advanced positive)

theorem regular (h : n.Bounded) : n.Regular := by
  obtain ⟨p, phase, -⟩ := h.phase
  obtain ⟨f, frequency, -⟩ := h.frequency
  obtain ⟨g, gain, -⟩ := h.gain
  obtain ⟨v, timbre⟩ := h.voice
  obtain ⟨r, pos, -, release⟩ := Kind.release_bounds v.kind
  exact ⟨by rw [phase]; rfl, by rw [frequency]; rfl, by rw [gain]; rfl, r, pos, by rw [timbre]; exact release⟩

theorem wave (h : n.Bounded) (source : NoiseSource) : (n.timbre.waveform.sample n.phase source).1.Within 1 := by
  obtain ⟨p, phase, low, high⟩ := h.phase
  rw [phase]
  exact n.timbre.waveform.sample_within low high source

theorem level (h : n.Bounded) (positive : 0 < rate) : IsShare (n.level (Number.ofNat rate)) := by
  obtain ⟨v, timbre⟩ := h.voice
  have proper : n.timbre.envelope.Proper := by
    rw [timbre]
    exact Kind.proper_envelope v.kind
  have finite (frames : ℕ) : isFinite (Sounding.seconds (Number.ofNat rate) frames : Ideal) = true := by
    rw [seconds_eq positive]
    rfl
  obtain ⟨y, stands, low, high⟩ := proper.amplitude_stands (Exact.stands (finite n.age))
    (n.gateOff.map (Sounding.seconds (Number.ofNat rate))) fun off up => by
      obtain ⟨frames, -, rfl⟩ := Option.map_eq_some_iff.mp up
      exact finite frames
  exact ⟨y, Ideal.eq_real_of_stands stands, low, high⟩

theorem contribution (h : n.Bounded) (positive : 0 < rate) (source : NoiseSource) :
    ∃ x : ℝ, (n.timbre.waveform.sample n.phase source).1 * n.level (Number.ofNat rate) * n.gain = .real x ∧
      |x| ≤ if n.isFinished (Number.ofNat rate) then 0 else n.gain.toReal := by
  split
  · rename_i finished
    exact ⟨0, h.regular.silent positive finished source, abs_zero.le⟩
  · obtain ⟨w, wave, small⟩ := h.wave source
    obtain ⟨l, level, low, high⟩ := h.level positive
    obtain ⟨g, gain, nonneg, -⟩ := h.gain
    refine ⟨w * l * g, by rw [wave, level, gain]; rfl, ?_⟩
    rw [gain, abs_mul, abs_mul, abs_of_nonneg low, abs_of_nonneg nonneg]
    change |w| * l * g ≤ g
    exact mul_le_of_le_one_left nonneg (mul_le_one₀ small low high)

end Sounding.Bounded

/-- The gains of the notes together. -/
noncomputable def totalGain (ns : List (Sounding Ideal)) : ℝ := (ns.map fun n => n.gain.toReal).sum

theorem totalGain_cons (n : Sounding Ideal) (ns : List (Sounding Ideal)) :
    totalGain (n :: ns) = n.gain.toReal + totalGain ns := by
  rw [totalGain, List.map_cons, List.sum_cons]
  rfl

theorem gain_nonneg (h : n.Bounded) : 0 ≤ n.gain.toReal := by
  obtain ⟨g, gain, nonneg, -⟩ := h.gain
  rw [gain]
  exact nonneg

theorem totalGain_unfinished_le {ns : List (Sounding Ideal)} (bounded : ∀ n ∈ ns, n.Bounded) :
    0 ≤ totalGain (unfinished rate ns) ∧ totalGain (unfinished rate ns) ≤ totalGain ns := by
  induction ns with
  | nil => exact ⟨le_rfl, le_rfl⟩
  | cons n ns ih =>
    obtain ⟨first, rest⟩ := List.forall_mem_cons.mp bounded
    obtain ⟨nonneg, most⟩ := ih rest
    have gain := gain_nonneg first
    cases finished : n.isFinished (Number.ofNat rate) with
    | true =>
      rw [unfinished_cons_of_finished finished, totalGain_cons]
      exact ⟨nonneg, by linarith⟩
    | false =>
      rw [unfinished_cons_of_lasting finished, totalGain_cons, totalGain_cons]
      constructor <;> linarith

theorem blend_within {ns : List (Sounding Ideal)} (positive : 0 < rate) (bounded : ∀ n ∈ ns, n.Bounded)
    (source : NoiseSource) (mix : ℝ) :
    ∃ y : ℝ, blend (Number.ofNat rate) source (.real mix) ns = .real y ∧
      |y - mix| ≤ totalGain (unfinished rate ns) := by
  induction ns generalizing source mix with
  | nil => exact ⟨mix, rfl, by simp [totalGain, unfinished]⟩
  | cons n ns ih =>
    obtain ⟨first, rest⟩ := List.forall_mem_cons.mp bounded
    obtain ⟨x, added, small⟩ := first.contribution positive source
    obtain ⟨y, mixed, others⟩ := ih rest (n.timbre.waveform.sample n.phase source).2 (mix + x)
    refine ⟨y, ?_, ?_⟩
    · rw [blend, added]
      exact mixed
    · have apart : |y - mix| ≤ |y - (mix + x)| + |x| := by
        have parts : y - mix = y - (mix + x) + x := by ring
        rw [parts]
        exact abs_add_le _ _
      cases finished : n.isFinished (Number.ofNat rate) with
      | true =>
        rw [finished, if_pos rfl] at small
        rw [unfinished_cons_of_finished finished]
        linarith
      | false =>
        rw [finished, if_neg Bool.false_ne_true] at small
        rw [unfinished_cons_of_lasting finished, totalGain_cons]
        linarith

end Notes

namespace ToneDevice
variable {rate : ℕ} {d : ToneDevice Ideal}

/-- A device that has not been used, with the volume that it comes with or another one. -/
inductive Fresh (rate : ℕ) : ToneDevice Ideal → Prop
  | new (seed : UInt64) : Fresh rate (new rate seed)
  | withMaster {d : ToneDevice Ideal} (h : Fresh rate d) (volume : ℝ) : Fresh rate (d.withMaster (.real volume))

structure Bounded (rate : ℕ) (d : ToneDevice Ideal) : Prop where
  rate_eq : d.rate = rate
  notes : ∀ n ∈ d.sounding, n.Bounded
  channels : ∀ c ∈ d.channels, c.volume ≤ 127

theorem bounded_noteGain (v : Voice) (velocity : ℕ) {volume : ℕ} (most : volume ≤ 127) :
    ∃ g : ℝ, (noteGain v.timbre velocity volume : Ideal) = .real g ∧ 0 ≤ g ∧ g ≤ 7 / 10 := by
  obtain ⟨g, pos, small, gain⟩ := Kind.gain_bounds v.kind
  have timbre : (v.timbre : Timbre Ideal).gain = .real g := gain
  have struck : ((Nat.min velocity 127 : ℕ) : ℝ) / (127 : ℕ) ≤ 1 := by
    rw [div_le_one (by norm_num)]
    exact_mod_cast Nat.min_le_right velocity 127
  have faded : (volume : ℝ) / (127 : ℕ) ≤ 1 := by
    rw [div_le_one (by norm_num)]
    exact_mod_cast most
  refine ⟨g * Nat.min velocity 127 / (127 : ℕ) * volume / (127 : ℕ), ?_, by positivity, ?_⟩
  · rw [noteGain, timbre]
    change (Ideal.real (g * Nat.min velocity 127) / Number.ofNat 127 * Number.ofNat volume / Number.ofNat 127 :
      Ideal) = _
    rw [Ideal.div_ofNat _ (by decide)]
    exact Ideal.div_ofNat _ (by decide)
  · have parts : g * Nat.min velocity 127 / (127 : ℕ) * volume / (127 : ℕ) =
        g * (Nat.min velocity 127 / (127 : ℕ)) * (volume / (127 : ℕ)) := by ring
    rw [parts]
    exact (mul_le_of_le_one_right (by positivity) faded).trans ((mul_le_of_le_one_right pos.le struck).trans small)

theorem Fresh.bounded {start : ToneDevice Ideal} (fresh : Fresh rate start) : start.Bounded rate := by
  induction fresh with
  | new seed =>
    refine ⟨rfl, fun n mem => absurd mem List.not_mem_nil, fun c mem => ?_⟩
    rw [List.eq_of_mem_replicate mem]
    decide
  | withMaster _ volume ih => exact ⟨ih.rate_eq, ih.notes, ih.channels⟩

theorem Fresh.master {start : ToneDevice Ideal} (fresh : Fresh rate start) : IsShare start.master := by
  induction fresh with
  | new seed =>
    exact isShare_decimal rfl (by decide +kernel) (by decide +kernel) (by decide +kernel) (by decide +kernel)
      (by decide +kernel)
  | withMaster _ volume ih =>
    change IsShare (clamp (.real volume) 0 1)
    unfold clamp
    split_ifs with below above
    · exact isShare_zero
    · exact isShare_one
    · rw [Ideal.zero_eq, Ideal.lt_real_iff] at below
      rw [show (1 : Ideal) = .real 1 from congrArg Ideal.real Nat.cast_one, Ideal.lt_real_iff] at above
      exact ⟨volume, rfl, not_lt.mp below, not_lt.mp above⟩

namespace Bounded

theorem release (h : d.Bounded rate) (channel : ℕ) : (d.release channel).Bounded rate := by
  refine ⟨h.rate_eq, fun n mem => ?_, h.channels⟩
  obtain ⟨m, there, rfl⟩ := List.mem_map.mp mem
  split
  · exact (h.notes m there).released
  · exact h.notes m there

theorem makeRoom (h : d.Bounded rate) : d.makeRoom.Bounded rate := by
  unfold ToneDevice.makeRoom
  split
  · exact h
  · exact ⟨h.rate_eq, fun n mem => h.notes n (List.mem_of_mem_eraseIdx mem), h.channels⟩

theorem start (h : d.Bounded rate) (channel : ℕ) {c : Channel} (volume : c.volume ≤ 127) (key velocity : ℕ) :
    (d.start channel c key velocity).Bounded rate := by
  refine ⟨h.rate_eq, fun n mem => ?_, h.channels⟩
  rcases List.mem_append.mp mem with old | struck
  · exact h.notes n old
  · obtain ⟨f, pos, frequency⟩ := keyFrequency_positive key
    rw [List.mem_singleton.mp struck]
    exact ⟨⟨0, Ideal.zero_eq, le_rfl, zero_lt_one⟩, ⟨f, frequency, pos⟩, bounded_noteGain c.voice velocity volume,
      c.voice, rfl⟩

theorem onChannel (h : d.Bounded rate) (channel : ℕ) {f : Channel → Channel}
    (volume : ∀ c : Channel, c.volume ≤ 127 → (f c).volume ≤ 127) : (d.onChannel channel f).Bounded rate := by
  refine ⟨h.rate_eq, h.notes, fun c mem => ?_⟩
  obtain ⟨place, found⟩ := List.mem_iff_getElem?.mp mem
  change (d.channels.modify channel f)[place]? = some c at found
  rw [List.getElem?_modify] at found
  obtain ⟨old, there, rfl⟩ := Option.map_eq_some_iff.mp found
  have kept := h.channels old (List.mem_of_getElem? there)
  split
  · exact volume old kept
  · exact kept

theorem command (h : d.Bounded rate) (c : Command) : (d.command c).Bounded rate := by
  cases c with
  | reset =>
    refine ⟨h.rate_eq, fun n mem => absurd mem List.not_mem_nil, fun c mem => ?_⟩
    rw [List.eq_of_mem_replicate mem]
    decide
  | voice channel voice => exact h.onChannel channel fun c most => most
  | volume channel level => exact h.onChannel channel fun c _ => Nat.min_le_right level 127
  | noteOn channel key velocity =>
    change (d.noteOn channel key velocity).Bounded rate
    unfold noteOn
    split
    · rename_i c there
      exact (h.release channel).makeRoom.start channel (h.channels c (List.mem_of_getElem? there)) key velocity
    · exact h
  | noteOff channel => exact h.release channel

theorem ahead (h : d.Bounded rate) (positive : 0 < rate) (frames : ℕ) : (d.ahead frames).Bounded rate := by
  obtain ⟨rfl, notes, channels⟩ := h
  refine ⟨rfl, fun n mem => ?_, channels⟩
  obtain ⟨m, there, rfl⟩ := List.mem_map.mp mem
  exact (notes m there).aged positive frames

variable {σ : Type} [Narrow Ideal σ]

theorem render (h : d.Bounded rate) (positive : 0 < rate) (left right : ℕ) :
    (NoteDevice.render (σ := σ) d left right).1.Bounded rate := by
  have later := h.ahead positive (min left right)
  rw [render_spans]
  exact ⟨later.rate_eq, fun n mem => later.notes n (List.mem_of_mem_filter mem), later.channels⟩

end Bounded

theorem Reached.bounded {σ : Type} [Narrow Ideal σ] [Silence σ] {start : ToneDevice Ideal} (fresh : Fresh rate start)
    (positive : 0 < rate) (reached : Reached σ start d) : d.Bounded rate :=
  reached.keeps (fun _ c kept => kept.command c) (fun _ left right kept => kept.render positive left right)
    fresh.bounded

theorem Reached.master {σ : Type} [Narrow Ideal σ] [Silence σ] {start : ToneDevice Ideal} (fresh : Fresh rate start)
    (reached : Reached σ start d) : IsShare d.master := by
  have kept : d.renewed.master = start.renewed.master := by rw [reached.renewed]
  rw [show d.master = start.master from kept]
  exact fresh.master

theorem Bounded.frame (h : d.Bounded rate) (positive : 0 < rate) {m : ℝ} (master : d.master = .real m) (nonneg : 0 ≤ m) :
    ∃ y : ℝ, d.frameMix * d.master = .real y ∧ |y| ≤ m * totalGain (unfinished rate d.sounding) := by
  obtain ⟨y, mixed, small⟩ := blend_within positive h.notes d.noise 0
  rw [sub_zero] at small
  refine ⟨y * m, ?_, ?_⟩
  · rw [frameMix, h.rate_eq, Ideal.zero_eq, mixed, master]
    rfl
  · rw [abs_mul, abs_of_nonneg nonneg, mul_comm]
    exact mul_le_mul_of_nonneg_left small nonneg

/-- A device of any rate, seed and master volume that is used in any way. Now and in every frame of a call that begins
    now, a note is within its first cycle, where its waveform lies between minus one and one whatever is drawn from the
    source, and its gain is at most seven tenths. A sample is at most the master volume times the gains of the notes
    that sound in its frame, and of these only the ones whose release is not over count. -/
theorem samples_within_gains {σ : Type} [Narrow Ideal σ] [Silence σ] {rate : ℕ} (positive : 0 < rate)
    {start d : ToneDevice Ideal} (fresh : Fresh rate start) (reached : Reached σ start d) :
    (∀ n ∈ d.sounding, n.Bounded) ∧
    (∀ frame, ∀ n ∈ (d.ahead frame).sounding, n.Bounded ∧ ∀ source : NoiseSource,
      ∃ x : ℝ, (n.timbre.waveform.sample n.phase source).1 = .real x ∧ -1 ≤ x ∧ x ≤ 1) ∧
    ∃ m : ℝ, d.master = .real m ∧ 0 ≤ m ∧ m ≤ 1 ∧ ∀ left right,
      let played := (NoteDevice.render (σ := σ) d left right).2
      played.1 = played.2 ∧ played.1.size = min left right ∧ ∀ frame < min left right,
        ∃ y : ℝ, played.1[frame]? = some (Narrow.narrow (.real y : Ideal)) ∧
          |y| ≤ m * totalGain (unfinished rate (d.ahead frame).sounding) ∧
          |y| ≤ m * totalGain (d.ahead frame).sounding := by
  have bounded := reached.bounded fresh positive
  obtain ⟨m, master, nonneg, most⟩ := reached.master fresh
  refine ⟨bounded.notes, fun frame n mem => ?_, m, master, nonneg, most, fun left right => ?_⟩
  · have note := (bounded.ahead positive frame).notes n mem
    refine ⟨note, fun source => ?_⟩
    obtain ⟨x, wave, small⟩ := note.wave source
    exact ⟨x, wave, abs_le.mp small⟩
  · intro played
    have both : played = ((d.heard (min left right)).toArray, (d.heard (min left right)).toArray) :=
      congrArg Prod.snd (render_spans d left right)
    rw [both]
    refine ⟨rfl, d.length_heard _, fun frame inside => ?_⟩
    have later := bounded.ahead positive frame
    obtain ⟨y, mixed, small⟩ := later.frame positive master nonneg
    refine ⟨y, ?_, small, small.trans ?_⟩
    · have sample : (d.heard (min left right) : List σ)[frame]? = some (d.ahead frame).frameSample := by
        rw [heard, List.getElem?_map, List.getElem?_range inside]
        rfl
      rw [List.getElem?_toArray, sample, frameSample, mixed]
    · exact mul_le_mul_of_nonneg_left (totalGain_unfinished_le later.notes).2 nonneg

/-- At eight frames per second every key goes through many cycles in a frame. The drum's channel and the device are
    told volumes beyond their bounds. -/
theorem samples_within_gains_beyond_rate :
    let commands : List Command :=
      [.noteOn 0 60 100, .voice 1 ⟨.drum, "Timpani", 80⟩, .volume 1 200, .noteOn 1 100 90, .noteOff 0]
    let start : ToneDevice Ideal := (new 8 1).withMaster (.real 2)
    let d : ToneDevice Ideal := commands.foldl command start
    let _ : Narrow Ideal Ideal := ⟨id⟩
    let _ : Silence Ideal := ⟨0⟩
    0 < 8 ∧ Fresh 8 start ∧ Reached Ideal start d ∧ d.sounding.length = 2 ∧
      ∃ m y : ℝ, m ≤ 1 ∧ (NoteDevice.render (σ := Ideal) d 3 5).2.1[2]? = some (.real y) ∧
        |y| ≤ m * totalGain (d.ahead 2).sounding := by
  intro commands start d _ _
  have fresh : Fresh 8 start := (Fresh.new 1).withMaster 2
  have reached : Reached Ideal start d := Reached.start.commands commands
  obtain ⟨-, -, m, -, -, most, frames⟩ := samples_within_gains (show 0 < 8 by decide) fresh reached
  obtain ⟨-, -, samples⟩ := frames 3 5
  obtain ⟨y, played, -, small⟩ := samples 2 (by decide)
  exact ⟨by decide, fresh, reached, rfl, m, y, most, played, small⟩

end ToneDevice

end Device
end FormulaSynth
