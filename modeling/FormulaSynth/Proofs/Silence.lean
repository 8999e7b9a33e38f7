import FormulaSynth.Proofs.Polyphony

set_option autoImplicit false
namespace FormulaSynth
open Number

namespace Device
open Sound Audio

namespace ToneDevice

section Waning
variable {α : Type} [Number α] {σ : Type} [Narrow α σ] {d : ToneDevice α}

/-- Every key has been up for so many frames. -/
def Waning (frames : ℕ) (d : ToneDevice α) : Prop := ∀ n ∈ d.sounding, ∃ off ∈ n.gateOff, off + frames ≤ n.age

theorem Waning.use {frames : ℕ} (h : d.Waning frames) (polyphonic : d.Polyphonic) {u : Use}
    (quiet : ∀ channel, ¬u.Strikes channel) : (d.use σ u).Waning (frames + u.frames) := by
  intro n mem
  rcases eq_or_ne u (.command .reset) with rfl | going
  · exact absurd mem List.not_mem_nil
  · obtain ⟨kept, started, turnover, sounding⟩ := polyphonic.turnover (σ := σ) u going
    have none : started = [] := turnover.struck.resolve_right fun ⟨m, _, strikes, _⟩ => quiet m.channel strikes
    rw [sounding, none, List.append_nil] at mem
    obtain ⟨m, there, rfl⟩ := List.mem_map.mp mem
    obtain ⟨off, gate, up⟩ := h m (turnover.sublist.subset there)
    refine ⟨off, ?_, ?_⟩
    · rw [u.gateOff_touch, Option.mem_def.mp gate]
      split <;> rfl
    · rw [u.age_touch]
      omega

theorem held_of_released (offs : List ℕ) {n : Sounding α} (mem : n ∈ (offs.foldl release d).sounding)
    (held : n.isHeld = true) : n.channel ∉ offs ∧ ∃ m ∈ d.sounding, m.channel = n.channel ∧ m.isHeld = true := by
  induction offs generalizing d with
  | nil => exact ⟨List.not_mem_nil, n, mem, rfl, held⟩
  | cons channel offs ih =>
    obtain ⟨later, m, there, same, down⟩ := ih mem
    let u : Use := .command (.noteOff channel)
    have released := d.release_sounding channel (u := u) rfl fun _ => rfl
    rw [released] at there
    obtain ⟨k, first, rfl⟩ := List.mem_map.mp there
    rw [u.channel_touch] at same
    rw [u.isHeld_touch, Bool.and_eq_true, Bool.not_eq_true'] at down
    have other : channel ≠ k.channel := of_decide_eq_false down.2
    exact ⟨List.not_mem_cons_of_ne_of_not_mem (same ▸ other.symm) later, k, first, same, down.1⟩

theorem waning_of_released {offs : List ℕ} (all : ∀ channel < channelCount, channel ∈ offs)
    (polyphonic : (offs.foldl release d).Polyphonic) : (offs.foldl release d).Waning 0 := by
  intro n mem
  have played := polyphonic.arranged.played n mem
  cases gate : n.gateOff with
  | none =>
    have down := held_of_released offs mem (Sounding.isHeld_iff.mpr gate)
    exact absurd (all n.channel played.channel) down.1
  | some off => exact ⟨off, rfl, played.gate off gate⟩

variable [Silence σ] {start : ToneDevice α}

theorem Reached.use (reached : Reached σ start d) (u : Use) : Reached σ start (d.use σ u) := by
  cases u with
  | command c => exact reached.command c
  | render left right => exact reached.render left right

theorem Reached.uses (reached : Reached σ start d) (us : List Use) :
    Reached σ start (us.foldl (ToneDevice.use σ) d) := by
  induction us generalizing d with
  | nil => exact reached
  | cons u us ih => exact ih (reached.use u)

theorem Reached.release (reached : Reached σ start d) (offs : List ℕ) :
    Reached σ start (offs.foldl ToneDevice.release d) := by
  have commands := reached.commands (offs.map .noteOff)
  rw [List.foldl_map] at commands
  exact commands

theorem Waning.uses {rate : ℕ} {seed : UInt64} {master : α} {frames : ℕ} (h : d.Waning frames)
    (reached : Reached σ { new rate seed with master := master } d) {us : List Use}
    (quiet : ∀ u ∈ us, ∀ channel, ¬u.Strikes channel) :
    (us.foldl (ToneDevice.use σ) d).Waning (frames + (us.map Use.frames).sum) := by
  induction us generalizing d frames with
  | nil => exact h
  | cons u us ih =>
    obtain ⟨first, rest⟩ := List.forall_mem_cons.mp quiet
    have later := ih (h.use reached.polyphonic first) (reached.use u) rest
    rw [Nat.add_assoc] at later
    exact later

end Waning

section Nothing
variable {d : ToneDevice Ideal} {rate : ℕ}

theorem nothing_of_waning (positive : 0 < rate) (ready : d.Ready rate) (polyphonic : d.Polyphonic) {frames : ℕ}
    (waning : d.Waning frames) (long : rate ≤ 2 * frames) : d.sounding = [] := by
  refine List.eq_nil_iff_forall_not_mem.mpr fun n mem => ?_
  obtain ⟨voice, timbre⟩ := (polyphonic.arranged.played n mem).voice
  obtain ⟨r, -, short, release⟩ := Kind.release_bounds voice.kind
  obtain ⟨off, gate, up⟩ := waning n mem
  have lasting := (ready.notes n mem).lasting
  have past : r ≤ n.age / rate - off / rate := by
    have pos : (0 : ℝ) < rate := Nat.cast_pos.mpr positive
    have passed : (rate : ℝ) ≤ 2 * (n.age - off) := by
      have frames_le : (off + frames : ℝ) ≤ n.age := by exact_mod_cast up
      have rate_le : (rate : ℝ) ≤ 2 * frames := by exact_mod_cast long
      linarith
    rw [← sub_div]
    refine short.trans ?_
    rw [le_div_iff₀ pos]
    linarith
  have finished := (isFinished_iff (n := n) positive (by rw [timbre]; exact release)).mpr ⟨off, gate, past⟩
  rw [lasting] at finished
  cases finished

variable {σ : Type} [Narrow Ideal σ]

theorem heard_nothing (none : d.sounding = []) (number : isFinite d.master = true) (frames : ℕ) :
    (d.heard frames : List σ) = List.replicate frames (Narrow.narrow (0 : Ideal)) := by
  obtain ⟨volume, master⟩ := Ideal.exists_real number
  have still (k : ℕ) : ((d.ahead k).frameSample : σ) = Narrow.narrow (0 : Ideal) := by
    have notes : (d.ahead k).sounding = [] := by
      rw [ahead, none]
      rfl
    have product : (0 : Ideal) * d.master = 0 := by
      rw [master, Ideal.zero_eq]
      exact congrArg Ideal.real (zero_mul volume)
    rw [frameSample, frameMix, notes, blend]
    exact congrArg Narrow.narrow product
  simp [heard, still]

theorem render_nothing (none : d.sounding = []) (number : isFinite d.master = true) (left right : ℕ) :
    let zeros : Array σ := Array.replicate (min left right) (Narrow.narrow (0 : Ideal))
    (NoteDevice.render (σ := σ) d left right).1.sounding = [] ∧
      (NoteDevice.render (σ := σ) d left right).2 = (zeros, zeros) := by
  intro zeros
  rw [render_spans, heard_nothing none number, List.toArray_replicate]
  refine ⟨?_, rfl⟩
  rw [settled, ahead, none]
  rfl

/-- When all channels have let go, half a second of frames without a strike leaves no note, however it is cut into
    calls and whatever else is done. From then on all samples are zero until a key is struck. -/
theorem silent_half_second_after_release {σ : Type} [Narrow Ideal σ] [Silence σ] {rate : ℕ} (positive : 0 < rate)
    {seed : UInt64} {master : Ideal} (number : isFinite master = true) {d : ToneDevice Ideal}
    (reached : Reached σ { new rate seed with master := master } d) {offs : List ℕ}
    (all : ∀ channel < channelCount, channel ∈ offs) {us later : List Use}
    (quiet : ∀ u ∈ us ++ later, ∀ channel, ¬u.Strikes channel) (long : rate ≤ 2 * (us.map Use.frames).sum) :
    let e := (us ++ later).foldl (use σ) (offs.foldl release d)
    e.sounding = [] ∧ ∀ left right,
      (NoteDevice.render (σ := σ) e left right).1.sounding = [] ∧
      (NoteDevice.render (σ := σ) e left right).2 =
        (Array.replicate (min left right) (Narrow.narrow (0 : Ideal)),
          Array.replicate (min left right) (Narrow.narrow (0 : Ideal))) := by
  intro e
  have released := reached.release offs
  have here : Reached σ { new rate seed with master := master } e := released.uses (us ++ later)
  have ready := here.ready ⟨rfl, fun n mem => absurd mem List.not_mem_nil⟩ positive
  have waning : e.Waning _ := (waning_of_released all released.polyphonic).uses released quiet
  have none : e.sounding = [] := by
    refine nothing_of_waning positive ready here.polyphonic waning (long.trans ?_)
    rw [List.map_append, List.sum_append]
    omega
  have volume : e.master = master := congrArg ToneDevice.master here.renewed
  exact ⟨none, render_nothing none (by rw [volume]; exact number)⟩

end Nothing

/-- A volume that is not a number passes the clamp. Half a second after every channel has let go no note is left, and a
    sample is still no zero, before it is rounded to its precision. -/
theorem nan_volume_is_never_silent :
    let _ : Narrow Float Float := ⟨id⟩
    let d : ToneDevice Float := (new 8 1).withMaster (0 / 0)
    let released := (List.range channelCount).foldl release d
    let e : ToneDevice Float := (NoteDevice.render (σ := Float) released 4 4).1
    8 ≤ 2 * Use.frames (.render 4 4) ∧ e.sounding.isEmpty = true ∧
      (NoteDevice.render (σ := Float) e 1 1).2.1.toList.map (fun sample => sample == 0) = [false] := by
  decide +kernel

/-- A bass note and a soft one at twenty frames per second, released by all channels and rendered in two calls, the
    second of which has less room on one side, and then a third call. -/
theorem silent_after_two_calls :
    let commands : List Command := [.noteOn 0 48 90, .voice 1 ⟨.other, "Soundtrack", 39⟩, .noteOn 1 60 100]
    let d : ToneDevice Ideal := commands.foldl command (new 20 1)
    let _ : Narrow Ideal Ideal := ⟨id⟩
    let _ : Silence Ideal := ⟨0⟩
    let e := [Use.render 7 7, .render 9 3, .command (.volume 1 0)].foldl (use Ideal)
      ((List.range channelCount).foldl release d)
    Reached Ideal (new 20 1) d ∧ d.sounding.length = 2 ∧ e.sounding = [] ∧
      (NoteDevice.render (σ := Ideal) e 5 4).2.1 = Array.replicate 4 (.real 0) := by
  intro commands d _ _ e
  have reached : Reached Ideal (new 20 1) d := Reached.start.commands commands
  have all : ∀ channel < channelCount, channel ∈ List.range channelCount := fun _ known => List.mem_range.mpr known
  have quiet : ∀ u ∈ [Use.render 7 7, .render 9 3] ++ [.command (.volume 1 0)], ∀ channel, ¬u.Strikes channel := by
    rintro u mem channel ⟨key, velocity, rfl⟩
    simp at mem
  have long : 20 ≤ 2 * ([Use.render 7 7, .render 9 3].map Use.frames).sum := by decide
  obtain ⟨none, zeros⟩ := silent_half_second_after_release (show 0 < 20 by decide)
    (show isFinite (defaultMaster : Ideal) = true from rfl)
    (show Reached Ideal { (new 20 1 : ToneDevice Ideal) with master := defaultMaster } d from reached) all quiet long
  refine ⟨reached, rfl, none, ?_⟩
  rw [← Ideal.zero_eq]
  exact congrArg Prod.fst (zeros 5 4).2

end ToneDevice
end Device
end FormulaSynth
