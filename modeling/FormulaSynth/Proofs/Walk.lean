import FormulaSynth.Proofs.Doubles
import FormulaSynth.Proofs.Groups
import FormulaSynth.Proofs.Tiling
import FormulaSynth.Proofs.Timeline

/-!
# A render as a walk over the onsets

The renderer goes from group to group. It tells its device what one tells it who knows no groups: for each onset
by itself, to render up to its frame if that is still ahead, and then what the onset does to its channel.
-/

set_option autoImplicit false
namespace FormulaSynth.Audio
open Number Score Device Sound
variable {α : Type} [Number α]

section Keys
variable [Ordered α]

theorem formulaKey?_bounds {y : α} {key : ℕ} (h : formulaKey? y = some key) :
    lowestKey ≤ key ∧ key ≤ lowestKey + keySpan := by
  simp only [formulaKey?] at h
  split_ifs at h with audible
  obtain ⟨nonneg, most⟩ := Bool.and_eq_true_iff.mp audible
  have span : lt (0 : α) (Number.ofNat keySpan) = true := Ordered.ofNat_pos (by decide)
  have three : lt (0 : α) audibleMax = true := Ordered.ofNat_pos (by decide)
  have spanFinite : isFinite (Number.ofNat keySpan : α) = true := Ordered.ofNat_finite (by decide)
  have threeFinite : isFinite (audibleMax : α) = true := Ordered.ofNat_finite (by decide)
  have scaled := Ordered.mul_nonneg nonneg span (Or.inl spanFinite)
  have below := Ordered.mul_le nonneg most span (Or.inl spanFinite)
  have steps := Ordered.roundToNat_le (Ordered.div_nonneg scaled three threeFinite)
    (Ordered.div_le scaled below three threeFinite)
  have top : Number.roundToNat (audibleMax * Number.ofNat keySpan / audibleMax : α) = keySpan :=
    Ordered.roundToNat_scale (by decide) (by decide) (by decide)
  rw [top] at steps
  cases h
  exact ⟨Nat.le_add_right _ _, Nat.add_le_add_left steps _⟩

end Keys

section Frames
variable [Ordered α] {rate total : ℕ} {a b : α}

theorem frameAt_le (positive : 0 < rate) (pos : lt 0 a = true) (ab : le a b = true) :
    frameAt rate total a ≤ frameAt rate total b := by
  have scale : lt (0 : α) (Number.ofNat rate) = true := Ordered.ofNat_pos positive
  have nonneg := Ordered.mul_nonneg (Ordered.le_of_lt pos) scale (Or.inr pos)
  have frames := Ordered.mul_le (Ordered.le_of_lt pos) ab scale (Or.inr pos)
  exact min_le_min_right total (Ordered.roundToNat_le nonneg frames)

theorem frameAt_same (positive : 0 < rate) (pos : lt 0 a = true) (eq : same a b = true) :
    frameAt rate total a = frameAt rate total b := by
  obtain ⟨ab, ba⟩ := Bool.and_eq_true_iff.mp eq
  have pos' : lt 0 b = true := Ordered.lt_of_lt_of_le pos ab
  exact le_antisymm (frameAt_le positive pos ab) (frameAt_le positive pos' ba)

end Frames

/-- Onset after onset from `position` on, and then the frames that are left. -/
def walk (score : Score α) (rate velocity total : ℕ) (position : ℕ) : List (Onset α) → List Call
  | [] => spanCalls position total
  | onset :: rest =>
    let target := frameAt rate total onset.time
    spanCalls position target ++ (onsetCommands score velocity onset).map .command ++
      walk score rate velocity total (max position target) rest

section Walking
variable (score : Score α) (rate velocity total : ℕ)

theorem walk_level {frame : ℕ} {group : List (Onset α)} (rest : List (Onset α))
    (level : ∀ onset ∈ group, frameAt rate total onset.time = frame) :
    walk score rate velocity total frame (group ++ rest) =
      (group.flatMap (onsetCommands score velocity)).map .command ++
        walk score rate velocity total frame rest := by
  induction group with
  | nil => rfl
  | cons onset group ih =>
    obtain ⟨here, level⟩ := List.forall_mem_cons.mp level
    have nothing : spanCalls frame frame = [] := if_neg (lt_irrefl frame)
    rw [List.cons_append, walk, here, nothing, max_self, ih level, List.flatMap_cons, List.map_append,
      List.nil_append, List.append_assoc]

theorem walk_group {position : ℕ} {onset : Onset α} {group : List (Onset α)} (rest : List (Onset α))
    (ahead : position ≤ frameAt rate total onset.time)
    (level : ∀ b ∈ group, frameAt rate total b.time = frameAt rate total onset.time) (fraction : α) :
    walk score rate velocity total position (onset :: group ++ rest) =
      (sectionOf score rate velocity total (onset :: group) fraction).calls position ++
        walk score rate velocity total (frameAt rate total onset.time) rest := by
  rw [List.cons_append, walk, max_eq_right ahead, walk_level score rate velocity total rest level,
    Section.calls, sectionOf, List.flatMap_cons, List.map_append]
  simp only [List.append_assoc]
  rfl

theorem walk_groups {position : ℕ} {gs : List (List (Onset α))} (nonempty : ∀ g ∈ gs, g ≠ [])
    (level : ∀ g ∈ gs, ∀ a ∈ g, ∀ b ∈ g, frameAt rate total a.time = frameAt rate total b.time)
    (ascending : gs.flatten.Pairwise fun a b => frameAt rate total a.time ≤ frameAt rate total b.time)
    (ahead : ∀ onset ∈ gs.flatten, position ≤ frameAt rate total onset.time) (all done : ℕ) :
    let sections := sectionsFrom score rate velocity total all done gs
    sectionCalls position sections ++ spanCalls (lastFrame position sections) total =
      walk score rate velocity total position gs.flatten := by
  -- the device may stand anywhere before the next group, so the position is not fixed
  induction gs generalizing position done with
  | nil => rfl
  | cons g gs ih =>
    obtain ⟨filled, restNonempty⟩ := List.forall_mem_cons.mp nonempty
    obtain ⟨here, restLevel⟩ := List.forall_mem_cons.mp level
    obtain ⟨onset, group, rfl⟩ := List.exists_cons_of_ne_nil filled
    rw [List.flatten_cons] at ascending ahead ⊢
    obtain ⟨-, later, across⟩ := List.pairwise_append.mp ascending
    have first : onset ∈ onset :: group := List.mem_cons_self
    have rest := ih restNonempty restLevel later (across onset first) (done + (onset :: group).length)
    have same : ∀ b ∈ group, frameAt rate total b.time = frameAt rate total onset.time := fun b mem =>
      here b (List.mem_cons_of_mem onset mem) onset first
    have now := ahead onset (List.mem_append_left _ first)
    rw [walk_group score rate velocity total gs.flatten now same
      (Number.ofNat (done + (onset :: group).length) / Number.ofNat all), ← rest, ← List.append_assoc]
    rfl

theorem tiles_walk {position : ℕ} (inside : position ≤ total) (onsets : List (Onset α)) :
    Tiles position total (walk score rate velocity total position onsets) := by
  induction onsets generalizing position with
  | nil =>
    have spans := tiles_span position total
    rw [max_eq_right inside] at spans
    exact spans
  | cons onset onsets ih =>
    have target : frameAt rate total onset.time ≤ total := min_le_right _ _
    exact ((tiles_span _ _).append (tiles_commands _ _)).append (ih (max_le inside target))

/-- An onset is heard at its own frame when none before it is later. -/
theorem walk_reaches {position : ℕ} {before : List (Onset α)} (onset : Onset α) (after : List (Onset α))
    (ahead : position ≤ frameAt rate total onset.time)
    (earlier : ∀ b ∈ before, frameAt rate total b.time ≤ frameAt rate total onset.time) :
    ∃ told, walk score rate velocity total position (before ++ onset :: after) =
        told ++ ((onsetCommands score velocity onset).map .command ++
          walk score rate velocity total (frameAt rate total onset.time) after) ∧
      Tiles position (frameAt rate total onset.time) told := by
  induction before generalizing position with
  | nil =>
    have spans := tiles_span position (frameAt rate total onset.time)
    rw [max_eq_right ahead] at spans
    refine ⟨_, ?_, spans⟩
    rw [List.nil_append, walk, max_eq_right ahead, List.append_assoc]
  | cons b before ih =>
    obtain ⟨here, earlier⟩ := List.forall_mem_cons.mp earlier
    obtain ⟨told, eq, tiles⟩ := ih (max_le ahead here) earlier
    have here := (tiles_span position (frameAt rate total b.time)).append
      (tiles_commands _ (onsetCommands score velocity b))
    refine ⟨_, ?_, here.append tiles⟩
    rw [List.cons_append, walk, eq, ← List.append_assoc]

theorem reset_notMem_walk (position : ℕ) (onsets : List (Onset α)) :
    .command .reset ∉ walk score rate velocity total position onsets := by
  have spans (start stop : ℕ) : .command .reset ∉ spanCalls start stop := by
    unfold spanCalls
    split_ifs <;> simp
  have told (onset : Onset α) : .command .reset ∉ (onsetCommands score velocity onset).map Call.command := by
    unfold onsetCommands
    split <;> simp
  induction onsets generalizing position with
  | nil => exact spans position total
  | cons onset onsets ih =>
    rw [walk, List.mem_append, List.mem_append, not_or, not_or]
    exact ⟨⟨spans _ _, told onset⟩, ih _⟩

end Walking

section Groups
variable [Ordered α] {rate : ℕ} (total : ℕ) {onsets : List (Onset α)}

theorem timeGroups_level (positive : 0 < rate) (comparable : ∀ onset ∈ onsets, le onset.time onset.time = true)
    (times : ∀ onset ∈ onsets, lt 0 onset.time = true) :
    ∀ g ∈ timeGroups onsets, ∀ a ∈ g, ∀ b ∈ g, frameAt rate total a.time = frameAt rate total b.time := by
  intro g mem a ha b hb
  have inside : a ∈ (timeGroups onsets).flatten := List.mem_flatten_of_mem mem ha
  rw [timeGroups_flatten] at inside
  have pos := times a inside
  exact frameAt_same positive pos (timeGroups_same comparable g mem a ha b hb)

end Groups

namespace Renderer
variable (r : Renderer α) (score : Score α)

def walkCalls : List Call :=
  (setup score).map .command ++ walk score r.rate r.velocity (totalFrames r.rate score) 0 (onsets score)

theorem tiles_walkCalls : Tiles 0 (totalFrames r.rate score) (r.walkCalls score) :=
  (tiles_commands 0 _).append (tiles_walk score _ _ _ (Nat.zero_le _) _)

theorem recorder_walkCalls {σ : Type} [Silence σ] (t : Take Recorder σ) :
    (t.follow (r.walkCalls score)).device.log = t.device.log ++ r.walkCalls score := by
  let voices := score.parts.flatMap fun part => [Command.voice part.id part.voice, .volume part.id part.volume]
  let rest := voices.map .command ++ walk score r.rate r.velocity (totalFrames r.rate score) 0 (onsets score)
  have split : r.walkCalls score = .command .reset :: rest := rfl
  have goes_on : .command .reset ∉ rest := by
    have quiet : .command .reset ∉ voices.map Call.command := by simp [voices]
    rw [List.mem_append, not_or]
    exact ⟨quiet, reset_notMem_walk score _ _ _ 0 _⟩
  have tiles : Tiles (t.obey (.command .reset)).device.position (totalFrames r.rate score) rest :=
    tiles_walkCalls r score
  have log : (t.obey (.command .reset)).device.log = t.device.log ++ [.command .reset] := List.reverse_cons
  have follows := follow_recorder (t.obey (.command .reset)) tiles goes_on
  rw [log, List.append_assoc] at follows
  rw [split]
  exact follows

section Order
variable [Ordered α] {r : Renderer α} {score : Score α}

theorem onsets_positive : ∀ onset ∈ onsets score, lt 0 onset.time = true := fun _ mem =>
  (mem_schedule mem).elim fun _ belongs => belongs.positive

theorem frames_ascending (score : Score α) (positive : 0 < r.rate) (total : ℕ) :
    (onsets score).Pairwise fun a b => frameAt r.rate total a.time ≤ frameAt r.rate total b.time :=
  (schedule_ascending score.scheduleInput score.duration).imp_of_mem fun ha _ ab =>
    frameAt_le positive (onsets_positive _ ha) ab

theorem calls_eq_walkCalls (positive : 0 < r.rate) : r.calls score = r.walkCalls score := by
  have ascending := frames_ascending score positive (totalFrames r.rate score)
  rw [← groups_flatten] at ascending
  have nonempty : ∀ g ∈ groups score, g ≠ [] := fun _ => List.ne_nil_of_mem_splitBy
  have walks := walk_groups score r.rate r.velocity (totalFrames r.rate score) nonempty
    (timeGroups_level _ positive onsets_comparable onsets_positive) ascending (fun _ _ => Nat.zero_le _)
    (onsets score).length 0
  rw [groups_flatten] at walks
  rw [calls, walkCalls, ← walks]
  rfl

theorem part_of_onset {onset : Onset α} (mem : onset ∈ onsets score) :
    ∃ part, score.parts[onset.index]? = some part ∧ onset.id = part.id := by
  obtain ⟨part, belongs⟩ := mem_schedule mem
  have found := belongs.found
  rw [Score.scheduleInput, List.getElem?_map, Option.map_eq_some_iff] at found
  obtain ⟨voiced, found, rfl⟩ := found
  exact ⟨voiced, found, belongs.id_eq⟩

omit [Ordered α] in
theorem onsetCommands_of_part {onset : Onset α} {part : VoicedPart α} (velocity : ℕ)
    (found : score.parts[onset.index]? = some part) (id : onset.id = part.id) :
    onsetCommands score velocity onset = .noteOff part.id ::
      ((formulaKey? (part.formula.eval onset.time)).map fun key => .noteOn part.id key velocity).toList := by
  have key : onsetKey? score onset = formulaKey? (part.formula.eval onset.time) := by
    rw [onsetKey?, found]
    rfl
  rw [onsetCommands, key, id]
  cases formulaKey? (part.formula.eval onset.time) with
  | none => rfl
  | some key => rfl

end Order

variable {δ σ : Type} [NoteDevice δ σ] [Silence σ]

section Playing
variable [Ordered α] {r : Renderer α} {score : Score α} (sound : Renderable r.rate score) (device : δ)
  {progress : Progress α} (going : progress.cancelled = false)
include sound going

theorem render_take :
    let take := (⟨device, r.silence score⟩ : Take δ σ).follow (r.walkCalls score)
    (r.render (σ := σ) score device progress).result = .ok take.buffer ∧
      (r.render (σ := σ) score device progress).device = take.device := by
  have finishes : r.render (σ := σ) score device progress = r.finished score device progress :=
    renderWith_of_quiet r score device progress _ sound.valid fun _ _ => going
  rw [finishes, finished, calls_eq_walkCalls sound.rate_pos]
  exact ⟨rfl, rfl⟩

theorem render_log (recorder : Recorder) :
    (r.render (σ := σ) score recorder progress).device.log = recorder.log ++ r.walkCalls score := by
  rw [(render_take sound recorder going).2]
  exact recorder_walkCalls r score _

end Playing

/-- A render that is not cancelled tells its device what the walk over the onsets tells. The rendered spans cover
    every frame once, so each frame of the buffer is as the device answered it, and every onset comes when exactly
    the frames before its own are done. -/
theorem render_walks_onsets [Ordered α] {r : Renderer α} {score : Score α} (sound : Renderable r.rate score)
    (device : δ) {progress : Progress α} (going : progress.cancelled = false) :
    let total := totalFrames r.rate score
    let calls := r.walkCalls score
    let follow (calls : List Call) : Take δ σ := (⟨device, r.silence score⟩ : Take δ σ).follow calls
    let done : Rendered α δ σ := r.render score device progress
    done.result = .ok (follow calls).buffer ∧ done.device = (follow calls).device ∧
    (∀ recorder : Recorder, (r.render (σ := σ) score recorder progress).device.log = recorder.log ++ calls) ∧
    Tiles 0 total calls ∧ (∀ frame < total, calls.countP (covers frame) = 1) ∧
    (follow calls).buffer.left.size = total ∧ (follow calls).buffer.right.size = total ∧
    (∀ (before : List Call) (start frames : ℕ) (after : List Call), calls = before ++ .render start frames :: after →
      let given := answer (σ := σ) (follow before).device frames
      given.1.size = frames → given.2.size = frames → ∀ i < frames,
        (follow calls).buffer.left[start + i]? = given.1[i]? ∧
          (follow calls).buffer.right[start + i]? = given.2[i]?) ∧
    ∀ (before : List (Onset α)) (onset : Onset α) (after : List (Onset α)),
      onsets score = before ++ onset :: after → ∃ part, score.parts[onset.index]? = some part ∧
        let key := formulaKey? (part.formula.eval onset.time)
        (∃ told later : List Call, Tiles 0 (frameAt r.rate total onset.time) told ∧
          calls = told ++ (.noteOff part.id ::
            (key.map fun key => .noteOn part.id key r.velocity).toList : List Command).map .command ++ later) ∧
        ∀ k, key = some k → 36 ≤ k ∧ k ≤ 84 := by
  intro total calls follow done
  obtain ⟨result, played⟩ := render_take (σ := σ) sound device going
  have tiles : Tiles 0 total calls := tiles_walkCalls r score
  have silent : (r.silence score : SampleBuffer σ).left.size = total ∧
      (r.silence score : SampleBuffer σ).right.size = total :=
    ⟨Array.size_replicate, Array.size_replicate⟩
  have sizes := follow_sizes (⟨device, r.silence score⟩ : Take δ σ) tiles
  refine ⟨result, played, fun recorder => render_log sound going recorder, tiles, ?_,
    sizes.1.trans silent.1, sizes.2.trans silent.2, ?_, ?_⟩
  · intro frame inside
    rw [tiles.countP_covers, if_pos ⟨Nat.zero_le frame, inside⟩]
  · intro before start frames after eq
    exact follow_fills (⟨device, r.silence score⟩ : Take δ σ) tiles ⟨silent.1.ge, silent.2.ge⟩ eq
  · intro before onset after eq
    have mem : onset ∈ onsets score := by
      rw [eq]
      exact List.mem_append_right _ List.mem_cons_self
    obtain ⟨part, found, id⟩ := part_of_onset mem
    refine ⟨part, found, ?_, fun k key => formulaKey?_bounds key⟩
    have ascending := frames_ascending score sound.rate_pos total
    rw [eq, List.pairwise_append] at ascending
    obtain ⟨told, reaches, spans⟩ := walk_reaches score r.rate r.velocity total onset after (Nat.zero_le _)
      fun b mem => ascending.2.2 b mem onset List.mem_cons_self
    let later := walk score r.rate r.velocity total (frameAt r.rate total onset.time) after
    refine ⟨(setup score).map .command ++ told, later, (tiles_commands 0 _).append spans, ?_⟩
    change (setup score).map .command ++ walk score r.rate r.velocity total 0 (onsets score) = _
    rw [eq, reaches, onsetCommands_of_part r.velocity found id, ← List.append_assoc, ← List.append_assoc]

/-- One frame a second for three seconds: three parts that play once, two of them at the same time and the third
    earlier on the same frame. -/
theorem render_walks_notes_of_one_frame :
    let line : Formula.Program := ⟨#[.arg], #[], [], 1⟩
    let first : VoicedPart Float := ⟨⟨5, line, 1.6⟩, 0, .first, 90⟩
    let second : VoicedPart Float := ⟨⟨0, line, 2⟩, 1, .first, 100⟩
    let third : VoicedPart Float := ⟨⟨7, line, 2⟩, 2, .first, 80⟩
    let score : Score Float := ⟨[first, second, third], 3⟩
    let r : Renderer Float := .new 1
    let played : Recorder := Recorder.new.render 7
    let done : Rendered Float Recorder Sample := r.render score played .new
    Renderable 1 score ∧ (Progress.new : Progress Float).cancelled = false ∧
      done.device.log = [.render 0 7, .command .reset, .command (.voice 5 .first), .command (.volume 5 90),
        .command (.voice 0 .first), .command (.volume 0 100), .command (.voice 7 .first), .command (.volume 7 80),
        .render 0 2, .command (.noteOff 5), .command (.noteOn 5 62 40), .command (.noteOff 0),
        .command (.noteOn 0 68 40), .command (.noteOff 7), .command (.noteOn 7 68 40), .render 2 1] := by
  intro line first second third score r played done
  have finite : isFinite (3 : Float) = true := by decide +kernel
  have nonneg : le 0 (3 : Float) = true := by decide +kernel
  have sound : Renderable r.rate score := ⟨one_pos, finite, nonneg, by decide⟩
  have ordered : (unmerged score.scheduleInput 3).Pairwise fun a b => earlier a b = true := by decide +kernel
  have merged : onsets score = unmerged score.scheduleInput 3 := by
    rw [onsets, schedule_eq, List.mergeSort_of_pairwise ordered]
    exact if_neg (by decide +kernel)
  have going : (Progress.new : Progress Float).cancelled = false := rfl
  obtain ⟨-, -, log, -⟩ := render_walks_onsets (σ := Sample) sound Recorder.new going
  refine ⟨sound, going, ?_⟩
  change (r.render (σ := Sample) score played .new).device.log = _
  rw [log played, walkCalls, merged]
  decide +kernel

end Renderer
end FormulaSynth.Audio
