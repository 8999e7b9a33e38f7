import FormulaSynth.Proofs.Queueing
import Mathlib

/-!
# What clipping lets through

A sample is compared with the lower bound and then with the upper one. A number comes out between them. What is not a
number compares with neither and comes out as it is, and so does the product of an infinite sample and no volume.
-/

set_option autoImplicit false
namespace FormulaSynth.Audio
open Float.Model Float.Model.UnpackedFloat

section Comparing
variable {u v : UnpackedFloat}

theorem compare_isSome : (u.compare v).isSome = (!u.isNaN && !v.isNaN) := by
  cases u with
  | notANumber => rfl
  | infinity s | zero s | finite s m e pos =>
    cases v with
    | notANumber => cases s <;> rfl
    | infinity t | zero t | finite t k f pos' => cases s <;> cases t <;> rfl

theorem compare_swap (u v : UnpackedFloat) : v.compare u = (u.compare v).map Ordering.swap := by
  have magnitudes (m k : ℕ) (e f : ℤ) :
      (compare f e).then (compare k m) = ((compare e f).then (compare m k)).swap := by
    rw [Ordering.swap_then, ← Std.OrientedOrd.eq_swap, ← Std.OrientedOrd.eq_swap]
  cases u with
  | notANumber => cases v <;> rfl
  | infinity s | zero s =>
    cases v with
    | notANumber => cases s <;> rfl
    | infinity t | zero t | finite t k f pos' => cases s <;> cases t <;> rfl
  | finite s m e pos =>
    cases v with
    | notANumber => cases s <;> rfl
    | infinity t | zero t => cases s <;> cases t <;> rfl
    | finite t k f pos' =>
      cases s with
      | positive =>
        cases t with
        | positive => exact congrArg some (magnitudes m k e f)
        | negative => rfl
      | negative =>
        cases t with
        | positive => rfl
        | negative => exact congrArg (some ∘ Ordering.swap) (magnitudes m k e f)

end Comparing

section Numbers
variable {x y lo hi : Sample}

theorem sample_le_iff : x ≤ y ↔ (x.toModel.unpack.compare y.toModel.unpack).any (·.isLE) = true := by
  change decide (x.toModel ≤ y.toModel) = true ↔ _
  rw [decide_eq_true_iff]
  rfl

theorem sample_lt_iff : x < y ↔ x.toModel.unpack.compare y.toModel.unpack = some .lt := by
  change decide (x.toModel < y.toModel) = true ↔ _
  rw [decide_eq_true_iff]
  exact beq_iff_eq

theorem numbers_of_le (h : x ≤ y) : x.isNaN = false ∧ y.isNaN = false := by
  have some : (x.toModel.unpack.compare y.toModel.unpack).isSome = true := by
    obtain ⟨o, compared, -⟩ := (Option.any_eq_true _ _).mp (sample_le_iff.mp h)
    rw [compared]
    rfl
  rw [compare_isSome, Bool.and_eq_true, Bool.not_eq_true', Bool.not_eq_true'] at some
  exact some

theorem le_of_not_lt (hx : x.isNaN = false) (hy : y.isNaN = false) (h : ¬x < y) : y ≤ x := by
  have some : (x.toModel.unpack.compare y.toModel.unpack).isSome = true := by
    rw [compare_isSome, Bool.and_eq_true, Bool.not_eq_true', Bool.not_eq_true']
    exact ⟨hx, hy⟩
  obtain ⟨o, compared⟩ := Option.isSome_iff_exists.mp some
  rw [sample_lt_iff, compared, Option.some_inj] at h
  rw [sample_le_iff, compare_swap, compared]
  cases o with
  | lt => exact absurd rfl h
  | eq | gt => rfl

theorem sample_le_self (hx : x.isNaN = false) : x ≤ x := by
  refine le_of_not_lt hx hx fun below => ?_
  have swapped := compare_swap x.toModel.unpack x.toModel.unpack
  rw [sample_lt_iff.mp below] at swapped
  cases swapped

theorem not_lt_of_nan (nan : x.isNaN = true) : ¬x < y ∧ ¬y < x := by
  have compared {u v : UnpackedFloat} (h : u.isNaN = true ∨ v.isNaN = true) : u.compare v ≠ some .lt := by
    intro lt
    have some := compare_isSome (u := u) (v := v)
    rw [lt] at some
    rcases h with h | h <;> simp [h] at some
  have unpacked : x.toModel.unpack.isNaN = true := nan
  rw [sample_lt_iff, sample_lt_iff]
  exact ⟨compared (Or.inl unpacked), compared (Or.inr unpacked)⟩

theorem clampSample_of_nan (nan : x.isNaN = true) : clampSample x lo hi = x := by
  rw [clampSample, if_neg (not_lt_of_nan nan).1, if_neg (not_lt_of_nan nan).2]

theorem clampSample_within (ordered : lo ≤ hi) (number : x.isNaN = false) :
    lo ≤ clampSample x lo hi ∧ clampSample x lo hi ≤ hi := by
  obtain ⟨low, high⟩ := numbers_of_le ordered
  unfold clampSample
  split
  · exact ⟨sample_le_self low, ordered⟩
  · rename_i above
    split
    · exact ⟨ordered, sample_le_self high⟩
    · rename_i below
      exact ⟨le_of_not_lt number low above, le_of_not_lt high number below⟩

/-- Clipping gives back the one thing that it cannot place. -/
theorem clampSample_within_iff (ordered : lo ≤ hi) :
    (lo ≤ clampSample x lo hi ∧ clampSample x lo hi ≤ hi) ↔ x.isNaN = false := by
  refine ⟨fun within => ?_, clampSample_within ordered⟩
  by_contra nan
  rw [Bool.not_eq_false] at nan
  have number := (numbers_of_le within.1).2
  rw [clampSample_of_nan nan, nan] at number
  cases number

theorem clampSample_isNaN (ordered : lo ≤ hi) : (clampSample x lo hi).isNaN = x.isNaN := by
  cases number : x.isNaN with
  | true => rw [clampSample_of_nan number, number]
  | false => exact (numbers_of_le (clampSample_within ordered number).1).2

end Numbers

section Products
variable {f : Format} {u v : UnpackedFloat}

theorem isNaN_unpack (w : BitVec f.numBits) :
    (UnpackedFloat.unpack f w).isNaN = true ↔ unpackExponent w = -1#_ ∧ unpackMantissa w ≠ 0#_ := by
  unfold UnpackedFloat.unpack
  dsimp only
  split_ifs with full whole lowest nothing
  · exact iff_of_false Bool.false_ne_true fun nan => nan.2 whole
  · exact iff_of_true rfl ⟨full, whole⟩
  · exact iff_of_false Bool.false_ne_true fun nan => full nan.1
  · exact iff_of_false Bool.false_ne_true fun nan => full nan.1
  · exact iff_of_false Bool.false_ne_true fun nan => full nan.1

theorem not_isNaN_packed {e : BitVec f.exponentBits} {m : BitVec f.mantissaBitsWithoutImplicit} (s : Sign)
    (number : e = -1#_ → m = 0#_) : (UnpackedFloat.unpack f (packComponents f s e m)).isNaN = false := by
  rw [Bool.eq_false_iff, Ne, isNaN_unpack, unpackExponent_packComponents, unpackMantissa_packComponents]
  exact fun nan => nan.2 (number nan.1)

theorem unpack_pack_isNaN (u : UnpackedFloat) :
    (UnpackedFloat.unpack Format.binary32 (UnpackedFloat.pack Format.binary32 u)).isNaN = u.isNaN := by
  cases u with
  | notANumber => rfl
  | infinity s => exact not_isNaN_packed s fun _ => rfl
  | zero s => exact not_isNaN_packed s fun _ => rfl
  | finite s m e pos =>
    change _ = false
    unfold UnpackedFloat.pack
    dsimp only
    split_ifs with large normal
    · exact not_isNaN_packed s fun _ => rfl
    · refine not_isNaN_packed s fun full => absurd (congrArg BitVec.toNat full) ?_
      have most : ¬2 ^ 8 ≤ (e + Format.binary32.exponentBias + Format.binary32.mantissaBitsWithoutImplicit).toNat + 1 :=
        large
      rw [BitVec.toNat_ofNat, BitVec.neg_one_eq_allOnes, BitVec.toNat_allOnes]
      change ¬_ % 2 ^ 8 = 2 ^ 8 - 1
      omega
    · exact not_isNaN_packed s fun full => absurd full (by decide)

theorem roundWithAccuracy_isNaN (s : Sign) (m : ℕ) (e : ℤ) (a : Accuracy) :
    (roundWithAccuracy f s m e a).isNaN = false := by
  unfold roundWithAccuracy
  dsimp only
  split <;> rfl

def isZero : UnpackedFloat → Bool
  | .zero _ => true
  | _ => false

theorem mul_isNaN : (UnpackedFloat.mul f u v).isNaN =
    (u.isNaN || v.isNaN || (u.isInf && isZero v) || (isZero u && v.isInf)) := by
  cases u with
  | notANumber => rfl
  | infinity s | zero s => cases v <;> rfl
  | finite s m e pos =>
    cases v with
    | finite t k g pos' => exact roundWithAccuracy_isNaN _ _ _ _
    | _ => rfl

theorem isZero_unpack (x : Sample) : isZero x.toModel.unpack = (x == 0) := by
  have compared (u : UnpackedFloat) : isZero u = u.beq (.zero .positive) := by
    cases u with
    | notANumber => rfl
    | infinity s | zero s | finite s => cases s <;> rfl
  exact compared _

variable {x y : Sample}

theorem product_isNaN :
    (x * y).isNaN = (x.isNaN || y.isNaN || (x.isInf && y == 0) || (x == 0 && y.isInf)) := by
  rw [← isZero_unpack, ← isZero_unpack]
  change (UnpackedFloat.unpack Format.binary32 (UnpackedFloat.pack Format.binary32
    (UnpackedFloat.mul Format.binary32 x.toModel.unpack y.toModel.unpack))).isNaN = _
  rw [unpack_pack_isNaN, mul_isNaN]
  rfl

end Products

section Commands

def sentIn {β : Type} : PlaybackEvent → Bool ⊕ β → List PlaybackCommand
  | .push c, .inl true => [c]
  | _, _ => []

def sent {β : Type} (events : List PlaybackEvent) (answers : List (Bool ⊕ β)) : List PlaybackCommand :=
  (List.zipWith sentIn events answers).flatten

def volumeAfter (volume : Sample) : PlaybackCommand → Sample
  | .setVolume volume => volume
  | _ => volume

/-- The volume that is asked for last, and the full one before any is. -/
def askedVolume (commands : List PlaybackCommand) : Sample := commands.foldl volumeAfter 1

theorem sent_map {β γ : Type} (f : β → γ) (events : List PlaybackEvent) (answers : List (Bool ⊕ β)) :
    sent events (answers.map (Sum.map id f)) = sent events answers := by
  have one (e : PlaybackEvent) (a : Bool ⊕ β) : sentIn e (a.map id f) = sentIn e a := by
    cases e with
    | process count => rfl
    | push c =>
      cases a with
      | inr written => rfl
      | inl found => cases found <;> rfl
  simp only [sent, List.zipWith_map_right, one]

namespace Fifo

theorem foldl_obey_volume {q : Fifo} {asked : Sample} (h : q.volume = clampSample asked 0 1)
    (cs : List PlaybackCommand) : (cs.foldl obey q).volume = clampSample (cs.foldl volumeAfter asked) 0 1 := by
  induction cs generalizing q asked with
  | nil => exact h
  | cons c cs ih =>
    have step : (q.obey c).volume = clampSample (volumeAfter asked c) 0 1 := by
      cases c with
      | setVolume volume => rfl
      | samples data | stop => exact h
    exact ih step

/-- Some of the commands that were sent have been taken, the last volume among them is the one that counts, and the
    others still wait. -/
def Heeds (q : Fifo) (commands : List PlaybackCommand) : Prop :=
  ∃ taken, commands = taken ++ q.waiting ∧ q.volume = clampSample (askedVolume taken) 0 1

theorem Heeds.ready_volume {q : Fifo} {commands : List PlaybackCommand} (h : q.Heeds commands) :
    q.ready.volume = clampSample (askedVolume commands) 0 1 := by
  obtain ⟨taken, rfl, volume⟩ := h
  rw [askedVolume, List.foldl_append]
  exact foldl_obey_volume (q := { q with waiting := [] }) volume q.waiting

theorem Heeds.handle {q : Fifo} {commands : List PlaybackCommand} (h : q.Heeds commands) (e : PlaybackEvent) :
    (q.handle e).2.Heeds (commands ++ sentIn e (q.handle e).1) := by
  cases e with
  | push c =>
    obtain ⟨taken, rfl, volume⟩ := h
    refine ⟨taken, ?_, ?_⟩
    · by_cases room : q.waiting.length < q.capacity <;> simp [Fifo.handle, push, room, sentIn]
    · by_cases room : q.waiting.length < q.capacity <;> simp [Fifo.handle, push, room, volume]
  | process count =>
    refine ⟨commands, ?_, h.ready_volume⟩
    change commands ++ [] = commands ++ q.ready.waiting
    rw [ready_waiting]

theorem Heeds.run {q : Fifo} {commands : List PlaybackCommand} (h : q.Heeds commands) (events : List PlaybackEvent) :
    (q.run events).2.Heeds (commands ++ sent events (q.run events).1) := by
  induction events generalizing q commands with
  | nil => simpa [Fifo.run, sent] using h
  | cons e events ih =>
    have rest := ih (h.handle e)
    rw [Fifo.run, sent, List.zipWith_cons_cons, List.flatten_cons, ← List.append_assoc]
    exact rest

theorem heeds_new (capacity : ℕ) : (Fifo.new capacity).Heeds [] := by
  have full : clampSample 1 0 1 = 1 := by decide +kernel
  exact ⟨[], rfl, full.symm⟩

end Fifo
end Commands

def Sounds (volume s : Sample) : Prop :=
  s.isNaN = false ∧ volume.isNaN = false ∧ ¬(s.isInf = true ∧ (volume == 0) = true)

theorem output_isNaN_iff {volume : Sample} (small : volume.isInf = false) (s : Sample) :
    (Playback.output volume s).isNaN = false ↔ Sounds volume s := by
  have ordered : (-1 : Sample) ≤ 1 := by decide +kernel
  rw [Playback.output, clampSample_isNaN ordered, product_isNaN, small, Bool.and_false, Bool.or_false, Sounds]
  cases s.isNaN <;> cases volume.isNaN <;> simp

theorem output_within_iff (volume s : Sample) :
    (-1 ≤ Playback.output volume s ∧ Playback.output volume s ≤ 1) ↔ (Playback.output volume s).isNaN = false := by
  have ordered : (-1 : Sample) ≤ 1 := by decide +kernel
  rw [Playback.output, clampSample_isNaN ordered]
  exact clampSample_within_iff ordered

theorem clampSample_isInf (x : Sample) : (clampSample x 0 1).isInf = false := by
  unfold clampSample
  split
  · decide +kernel
  · rename_i above
    split
    · decide +kernel
    · rename_i below
      rw [sample_lt_iff] at above below
      change x.toModel.unpack.isInf = false
      cases form : x.toModel.unpack with
      | infinity s =>
        rw [form] at above below
        cases s with
        | negative => exact absurd (by decide +kernel) above
        | positive => exact absurd (by decide +kernel) below
      | _ => rfl

theorem Passage.written_at {h : Passage} {place : ℕ} {y : Sample} (there : h.written[place]? = some y) :
    (∃ s, h.samples[place]? = some s ∧ y = Playback.output h.volume s) ∨ (h.samples[place]? = none ∧ y = 0) := by
  rw [Passage.written, List.getElem?_append] at there
  split at there
  · rw [List.getElem?_map, Option.map_eq_some_iff] at there
    obtain ⟨s, sample, rfl⟩ := there
    exact Or.inl ⟨s, sample, rfl⟩
  · rename_i beyond
    rw [List.length_map, Nat.not_lt] at beyond
    have silent : y = 0 := List.eq_of_mem_replicate (List.mem_of_getElem? there)
    exact Or.inr ⟨List.getElem?_eq_none beyond, silent⟩

theorem Fifo.written_length (q : Fifo) (count : ℕ) : (q.process count).1.written.length = count := by
  simp only [Passage.written, Fifo.process, List.length_append, List.length_map, List.length_take,
    List.length_replicate]
  omega

/-- The stored volume is between zero and one exactly if the last volume that was taken is a number, and a sample that
    is written is between its bounds exactly if it is a number. It is none in three cases: the sample is none, the
    volume is none, and the sample is infinite while the volume is zero. -/
theorem written_within_iff (capacity : ℕ) (events : List PlaybackEvent) (count : ℕ) :
    let run := (Playback.new capacity).run events
    let commands := sent events run.1
    let pending := run.2.fifo.ready.pending
    let volume := clampSample (askedVolume commands) 0 1
    (∃ taken, commands = taken ++ run.2.waiting ∧ run.2.volume = clampSample (askedVolume taken) 0 1 ∧
      ((0 ≤ run.2.volume ∧ run.2.volume ≤ 1) ↔ (askedVolume taken).isNaN = false)) ∧
    (run.2.process count).2.volume = volume ∧ (run.2.process count).1.length = count ∧
    ∀ (place : ℕ) (y : Sample), (run.2.process count).1[place]? = some y →
      ((-1 ≤ y ∧ y ≤ 1) ↔ y.isNaN = false) ∧
      (y.isNaN = false ↔ ∀ s, pending[place]? = some s → Sounds volume s) := by
  intro run commands pending volume
  have empty : (Playback.new capacity).Within := Nat.le_refl _
  obtain ⟨answers, view, within, -⟩ := Playback.run_fifo empty events
  have heeds : run.2.fifo.Heeds commands := by
    have queue := (Fifo.heeds_new capacity).run events
    rw [List.nil_append, ← sent_map Passage.written] at queue
    rw [show run.2.fifo = _ from view, show commands = _ from congrArg (sent events) answers]
    exact queue
  have asked : run.2.fifo.ready.volume = volume := heeds.ready_volume
  have written := Playback.process_written within count
  have length : (run.2.process count).1.length = count := by
    rw [written, Fifo.written_length]
  refine ⟨?_, ?_, length, ?_⟩
  · obtain ⟨taken, order, stored⟩ := heeds
    have stored : run.2.volume = clampSample (askedVolume taken) 0 1 := stored
    refine ⟨taken, order, stored, ?_⟩
    rw [stored]
    exact clampSample_within_iff (by decide +kernel)
  · have after := congrArg Fifo.volume (Playback.process_fifo within count)
    exact after.trans asked
  · intro place y there
    have inside : place < count := by
      rw [← length]
      exact (List.getElem?_eq_some_iff.mp there).1
    rw [written] at there
    have same : (run.2.fifo.process count).1.samples[place]? = pending[place]? := by
      change (pending.take count)[place]? = _
      rw [List.getElem?_take, if_pos inside]
    have small : volume.isInf = false := clampSample_isInf _
    rcases Passage.written_at there with ⟨s, sample, rfl⟩ | ⟨silent, rfl⟩
    · rw [same] at sample
      refine ⟨output_within_iff _ _, ?_⟩
      rw [show (run.2.fifo.process count).1.volume = volume from asked, output_isNaN_iff small, sample]
      exact ⟨fun sounds _ eq => Option.some.inj eq ▸ sounds, fun all => all s rfl⟩
    · rw [same] at silent
      have zero : ((-1 : Sample) ≤ 0 ∧ (0 : Sample) ≤ 1) ∧ (0 : Sample).isNaN = false := by decide +kernel
      refine ⟨iff_of_true zero.1 zero.2, iff_of_true zero.2 ?_⟩
      rw [silent]
      exact fun s none => nomatch none

/-- A sample at a volume that is no number, and then an infinite one and another at no volume. -/
theorem written_beyond_bounds :
    let nan : Sample := Float32.ofBits 0x7fc00000
    let infinite : Sample := Float32.ofBits 0x7f800000
    let events : List PlaybackEvent := [.push (.setVolume nan), .push (.samples [0.5]), .process 1,
      .push (.setVolume 0), .push (.samples [infinite, 0.5])]
    let run := (Playback.new 16).run events
    run.1[2]? = some (.inr [nan]) ∧ ¬(0 ≤ run.2.volume ∧ run.2.volume ≤ 1) ∧
      (run.2.process 3).1 = [nan, 0, 0] ∧ ¬(-1 ≤ nan ∧ nan ≤ 1) ∧ (-1 ≤ (0 : Sample) ∧ (0 : Sample) ≤ 1) := by
  intro nan infinite events run
  obtain ⟨⟨taken, -, stored, bounds⟩, -, -, placed⟩ := written_within_iff 16 events 3
  have first : run.1[2]? = some (.inr [nan]) := by decide +kernel
  have written : (run.2.process 3).1 = [nan, 0, 0] := by decide +kernel
  have volume : (askedVolume taken).isNaN = true := by
    have ordered : (0 : Sample) ≤ 1 := by decide +kernel
    rw [← clampSample_isNaN ordered, ← stored]
    decide +kernel
  have isNaN : nan.isNaN = true := by decide +kernel
  have number : (0 : Sample).isNaN = false := by decide +kernel
  refine ⟨first, ?_, written, ?_, ?_⟩
  · rw [bounds, volume]
    exact Bool.noConfusion
  · rw [(placed 0 nan (congrArg (·[0]?) written)).1, isNaN]
    exact Bool.noConfusion
  · exact (placed 1 0 (congrArg (·[1]?) written)).1.mpr number

end FormulaSynth.Audio
