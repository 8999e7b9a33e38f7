import FormulaSynth.Proofs.Changes
import FormulaSynth.Proofs.Walk

set_option autoImplicit false
namespace FormulaSynth
open Number Audio Device Score Sound

section Notes
variable {α : Type} [Number α]

theorem notesFrom_span (start stop : ℕ) (rest : List Call) :
    notesFrom start (spanCalls start stop ++ rest) = notesFrom (max start stop) rest := by
  unfold spanCalls
  split_ifs with ahead
  · have stops : start + (stop - start) = max start stop := by omega
    rw [List.singleton_append, notesFrom, stops]
  · rw [List.nil_append, max_eq_left (not_lt.mp ahead)]

/-- The note that an onset starts, unless it rests. -/
def noteOf? (score : Score α) (rate total : ℕ) (onset : Onset α) : Option PlacedNote :=
  (onsetKey? score onset).map fun key => ⟨frameAt rate total onset.time, onset.id, key⟩

theorem noteOf?_of_part {score : Score α} {k : ℕ} {part : Score.Part α}
    (found : score.scheduleInput[k]? = some part) (rate total : ℕ) {onset : Onset α} (id : onset.id = part.id) :
    noteOf? score rate total { onset with index := k } =
      (formulaKey? (part.formula.eval onset.time)).map fun key =>
        ⟨frameAt rate total onset.time, part.id, key⟩ := by
  rw [Score.scheduleInput, List.getElem?_map, Option.map_eq_some_iff] at found
  obtain ⟨voiced, found, rfl⟩ := found
  rw [noteOf?, onsetKey?, found, id]
  rfl

theorem notesFrom_onset (score : Score α) (rate velocity total : ℕ) (onset : Onset α) (rest : List Call) :
    notesFrom (frameAt rate total onset.time) ((onsetCommands score velocity onset).map .command ++ rest) =
      (noteOf? score rate total onset).toList ++ notesFrom (frameAt rate total onset.time) rest := by
  rw [onsetCommands, noteOf?]
  cases onsetKey? score onset with
  | none => rfl
  | some key => rfl

theorem notesFrom_walk (score : Score α) (rate velocity total : ℕ) {position : ℕ} {onsets : List (Onset α)}
    (ahead : ∀ onset ∈ onsets, position ≤ frameAt rate total onset.time)
    (ascending : onsets.Pairwise fun a b => frameAt rate total a.time ≤ frameAt rate total b.time) :
    notesFrom position (walk score rate velocity total position onsets) =
      onsets.filterMap (noteOf? score rate total) := by
  induction onsets generalizing position with
  | nil =>
    rw [walk, ← List.append_nil (spanCalls position total), notesFrom_span]
    rfl
  | cons onset onsets ih =>
    obtain ⟨here, -⟩ := List.forall_mem_cons.mp ahead
    obtain ⟨later, ascending⟩ := List.pairwise_cons.mp ascending
    rw [walk, List.append_assoc, notesFrom_span, max_eq_right here, notesFrom_onset, ih later ascending,
      List.filterMap_cons]
    cases noteOf? score rate total onset with
    | none => rfl
    | some note => rfl

omit [Number α] in
theorem notesFrom_setup (score : Score α) (frame : ℕ) (rest : List Call) :
    notesFrom frame ((setup score).map .command ++ rest) = notesFrom 0 rest := by
  change notesFrom 0 ((score.parts.flatMap _).map Call.command ++ rest) = _
  induction score.parts with
  | nil => rfl
  | cons part parts ih => exact ih

theorem filter_notes (score : Score α) (rate total channel : ℕ) (onsets : List (Onset α)) :
    (onsets.filterMap (noteOf? score rate total)).filter (·.channel = channel) =
      (onsets.filter (·.id = channel)).filterMap (noteOf? score rate total) := by
  rw [List.filter_filterMap, List.filterMap_filter]
  refine congrArg (fun f => onsets.filterMap f) ?_
  funext onset
  rw [noteOf?]
  cases onsetKey? score onset with
  | none => simp
  | some key => simp [Option.filter]

theorem render_notes {σ : Type} [Silence σ] [Ordered α] {r : Renderer α} {score : Score α}
    (sound : Renderable r.rate score) {progress : Progress α} (going : progress.cancelled = false) :
    (r.render (σ := σ) score Recorder.new progress).device.notes =
      (Renderer.onsets score).filterMap (noteOf? score r.rate (totalFrames r.rate score)) := by
  rw [Recorder.notes, Renderer.render_log sound going]
  change notesFrom 0 (r.walkCalls score) = _
  rw [Renderer.walkCalls, notesFrom_setup]
  exact notesFrom_walk score _ _ _ (fun _ _ => Nat.zero_le _) (Renderer.frames_ascending score sound.rate_pos _)

end Notes

namespace Score
variable {α : Type} [Number α] [Ordered α] {parts : List (Part α)} {duration : α}

theorem schedule_filter_id (nodup : (parts.map Part.id).Nodup) {k : ℕ} {part : Part α}
    (found : parts[k]? = some part) :
    (schedule parts duration).filter (·.id = part.id) =
      (schedule [part] duration).map fun onset => { onset with index := k } := by
  -- no identity stands at two places, so an onset has the identity of the part if it has its place
  have alone := schedule_filter parts k duration
  rw [found, Option.elim_some] at alone
  rw [← alone]
  refine List.filter_congr ?_
  intro onset mem
  obtain ⟨own, belongs⟩ := mem_schedule mem
  have here := List.getElem?_map.trans (congrArg (Option.map Part.id) belongs.found)
  have there := List.getElem?_map.trans (congrArg (Option.map Part.id) found)
  rw [belongs.id_eq, beq_eq_decide, decide_eq_decide]
  constructor
  · intro eq
    have inside : onset.index < (parts.map Part.id).length := (List.getElem?_eq_some_iff.mp here).1
    refine (List.getElem?_inj inside nodup).mp ?_
    rw [here, there]
    exact congrArg some eq
  · intro eq
    rw [eq, there] at here
    exact (Option.some.inj here).symm

theorem schedule_filter_absent {channel : ℕ} (absent : channel ∉ parts.map Part.id) :
    (schedule parts duration).filter (·.id = channel) = [] := by
  rw [List.filter_eq_nil_iff]
  intro onset mem same
  obtain ⟨part, belongs⟩ := mem_schedule mem
  rw [decide_eq_true_iff, belongs.id_eq] at same
  exact absent (List.mem_map.mpr ⟨part, List.mem_of_getElem? belongs.found, same⟩)

end Score

namespace Session
variable {α : Type} [Number α]

namespace Instrument

theorem voiced_isSome (i : Instrument α) : i.voiced.isSome = i.isPlayable := by
  unfold isPlayable voiced wanted entry
  cases i.enabled <;> cases i.program <;> cases i.period <;> cases Text.allBlank i.formula <;> rfl

theorem voiced_eq_some {i : Instrument α} {v : Score.Part α × Voice × ℕ} (h : i.voiced = some v) :
    ∃ program period, i.program = some program ∧ i.period = some period ∧ v.1 = ⟨i.id, program, period⟩ := by
  unfold voiced at h
  split at h
  · obtain ⟨program, period, hp, hq, rfl⟩ := entry_eq_some.mp h
    exact ⟨program, period, hp, hq, rfl⟩
  · cases h

end Instrument

section Parts

omit [Number α] in
theorem duration_foldl_push (vs : List (Score.Part α × Voice × ℕ)) (start : Score α) :
    (vs.foldl pushVoiced start).duration = start.duration := by
  induction vs generalizing start with
  | nil => rfl
  | cons v vs ih => exact ih (pushVoiced start v)

theorem score_duration (s : Session α) : s.score.duration = s.duration := by
  rw [score_eq, duration_foldl_push]
  rfl

theorem scheduleInput_eq (s : Session α) :
    s.score.scheduleInput = (s.instruments.filterMap Instrument.voiced).map Prod.fst := by
  have parts := parts_foldl_push (s.instruments.filterMap Instrument.voiced) (.empty s.duration)
  rw [← score_eq] at parts
  have firsts := congrArg (List.map Prod.fst) parts
  rw [List.map_map] at firsts
  exact firsts

theorem ids_voiced (is : List (Instrument α)) :
    (((is.filterMap Instrument.voiced).map Prod.fst).map Part.id).Sublist (is.map Instrument.id) := by
  induction is with
  | nil => exact List.Sublist.slnil
  | cons i is ih =>
    rw [List.filterMap_cons]
    cases voiced : i.voiced with
    | none => exact ih.cons _
    | some v =>
      rw [List.map_cons, List.map_cons, List.map_cons, Instrument.id_of_voiced voiced]
      exact ih.cons_cons _

theorem ids_scheduleInput (s : Session α) :
    (s.score.scheduleInput.map Part.id).Sublist (s.instruments.map Instrument.id) := by
  rw [scheduleInput_eq]
  exact ids_voiced s.instruments

theorem points_of {s : Session α} {id : ℕ} {i : Instrument α} (found : s.instruments[id]? = some i)
    {program : Formula.Program} {period : α} (hp : i.program = some program) (hq : i.period = some period) :
    s.points id = Part.points ⟨id, program, period⟩ s.duration := by
  rw [points, found]
  simp only [hp, hq]

end Parts

section Places
variable {s : Session α}

omit [Number α] in
theorem Placed.id_eq {is : List (Instrument α)} (placed : Placed is) {id : ℕ} {i : Instrument α}
    (found : is[id]? = some i) : i.id = id := by
  have inside : id < is.length := (List.getElem?_eq_some_iff.mp found).1
  have ids : (is.map Instrument.id)[id]? = some i.id := by rw [List.getElem?_map, found]; rfl
  rw [placed, List.getElem?_range inside] at ids
  exact (Option.some.inj ids).symm

theorem part_of_playable (placed : Placed s.instruments) {id : ℕ} {i : Instrument α}
    (found : s.instruments[id]? = some i) (playable : i.isPlayable = true) :
    ∃ (k : ℕ) (program : Formula.Program) (period : α), i.program = some program ∧ i.period = some period ∧
      s.score.scheduleInput[k]? = some (⟨id, program, period⟩ : Score.Part α) := by
  rw [← Instrument.voiced_isSome] at playable
  obtain ⟨v, voiced⟩ := Option.isSome_iff_exists.mp playable
  obtain ⟨program, period, hp, hq, part⟩ := Instrument.voiced_eq_some voiced
  have mem : v.1 ∈ s.score.scheduleInput := by
    rw [scheduleInput_eq]
    exact List.mem_map_of_mem (List.mem_filterMap.mpr ⟨i, List.mem_of_getElem? found, voiced⟩)
  obtain ⟨k, at_place⟩ := List.mem_iff_getElem?.mp mem
  rw [part, placed.id_eq found] at at_place
  exact ⟨k, program, period, hp, hq, at_place⟩

theorem absent_of_not_playable (placed : Placed s.instruments) {id : ℕ}
    (silent : ∀ i, s.instruments[id]? = some i → i.isPlayable = false) :
    id ∉ s.score.scheduleInput.map Part.id := by
  intro mem
  obtain ⟨part, listed, rfl⟩ := List.mem_map.mp mem
  rw [scheduleInput_eq] at listed
  obtain ⟨v, voiced, rfl⟩ := List.mem_map.mp listed
  obtain ⟨i, inside, voiced⟩ := List.mem_filterMap.mp voiced
  obtain ⟨k, found⟩ := List.mem_iff_getElem?.mp inside
  have quiet := silent i (by rw [Instrument.id_of_voiced voiced, placed.id_eq found]; exact found)
  rw [← Instrument.voiced_isSome, voiced] at quiet
  cases quiet

theorem renderable_score (placed : Placed s.instruments) (slots : s.instruments.length ≤ channelCount)
    (finite : isFinite s.duration = true) (nonneg : le 0 s.duration = true) {rate : ℕ} (positive : 0 < rate) :
    Renderable rate s.score := by
  refine ⟨positive, by rw [score_duration]; exact finite, by rw [score_duration]; exact nonneg, ?_⟩
  intro part mem
  have listed : part.id ∈ s.score.scheduleInput.map Part.id :=
    List.mem_map_of_mem (f := Part.id) (List.mem_map_of_mem (f := VoicedPart.toPart) mem)
  have inside := (ids_scheduleInput s).subset listed
  rw [placed, List.mem_range] at inside
  exact inside.trans_le slots

end Places

variable {σ : Type} [Silence σ]

/-- What is built first and then used in any way. -/
def Reachable (σ : Type) [Silence σ] (s : Session α) : Prop :=
  ∃ start : Session α, Built start ∧ ∃ actions : List (Action α σ), actions.foldl perform start = s

theorem Reachable.placed {s : Session α} (h : Reachable σ s) : Placed s.instruments := by
  obtain ⟨start, built, actions, rfl⟩ := h
  have ids : ∀ s : Session α, Placed s.instruments → Placed (actions.foldl perform s).instruments := by
    induction actions with
    | nil => exact fun _ placed => placed
    | cons a actions ih => exact fun s placed => ih _ (placed_of_ids_eq (perform_ids s a) placed)
  exact ids start built.placed

def channelNotes (σ : Type) [Silence σ] (s : Session α) (r : Renderer α) (progress : Progress α) (channel : ℕ) :
    List PlacedNote :=
  (r.render (σ := σ) s.score Recorder.new progress).device.notes.filter (·.channel = channel)

section Hearing
variable [Ordered α] {s : Session α} {r : Renderer α} (placed : Placed s.instruments)
  (sound : Renderable r.rate s.score) {progress : Progress α} (going : progress.cancelled = false) {id : ℕ}
include placed sound going

theorem channelNotes_playable {i : Instrument α} (found : s.instruments[id]? = some i)
    (playable : i.isPlayable = true) :
    channelNotes σ s r progress id = (s.points id).filterMap fun point =>
      (formulaKey? point.y).map fun key => ⟨frameAt r.rate (totalFrames r.rate s.score) point.x, id, key⟩ := by
  obtain ⟨k, program, period, hp, hq, at_place⟩ := part_of_playable placed found playable
  have nodup : (s.score.scheduleInput.map Part.id).Nodup := placed.nodup.sublist (ids_scheduleInput s)
  have onsets : (Renderer.onsets s.score).filter (·.id = id) =
      (schedule [⟨id, program, period⟩] s.duration).map fun onset => { onset with index := k } := by
    rw [Renderer.onsets, score_duration]
    exact schedule_filter_id nodup at_place
  rw [channelNotes, render_notes sound going, filter_notes, onsets, points_of found hp hq, Part.points,
    List.filterMap_map, List.filterMap_map]
  refine List.filterMap_congr ?_
  intro onset mem
  obtain ⟨part, belongs⟩ := mem_schedule mem
  have own : part = ⟨id, program, period⟩ := List.mem_singleton.mp (List.mem_of_getElem? belongs.found)
  have same : onset.id = id := by rw [belongs.id_eq, own]
  exact noteOf?_of_part at_place r.rate (totalFrames r.rate s.score) same

theorem channelNotes_silent (silent : ∀ i, s.instruments[id]? = some i → i.isPlayable = false) :
    channelNotes σ s r progress id = [] := by
  rw [channelNotes, render_notes sound going, filter_notes, Renderer.onsets,
    schedule_filter_absent (absent_of_not_playable placed silent)]
  rfl

end Hearing

/-- What an instrument is heard to play is what its plot shows: the points that are not rests, on the frames of their
    times. Nothing else is on its channel, so another session in which it has the same program and period plays the
    same there. -/
theorem render_plays_points [Ordered α] {s : Session α} (reachable : Reachable σ s)
    (slots : s.instruments.length ≤ channelCount) (finite : isFinite s.duration = true)
    (nonneg : le 0 s.duration = true) {r : Renderer α} (positive : 0 < r.rate) {progress : Progress α}
    (going : progress.cancelled = false) :
    let total := roundToNat (s.duration * Number.ofNat r.rate)
    (∃ buffer, (r.render (σ := σ) s.score Recorder.new progress).result = .ok buffer) ∧
    (∀ id i, s.instruments[id]? = some i → i.isPlayable = true →
      channelNotes σ s r progress id = (s.points id).filterMap fun point =>
        (formulaKey? point.y).map fun key => ⟨frameAt r.rate total point.x, id, key⟩) ∧
    (∀ id, (∀ i, s.instruments[id]? = some i → i.isPlayable = false) → channelNotes σ s r progress id = []) ∧
    ∀ (t : Session α) (q : Renderer α), Reachable σ t → t.instruments.length ≤ channelCount →
      t.duration = s.duration → q.rate = r.rate →
      ∀ id i j, s.instruments[id]? = some i → t.instruments[id]? = some j → j.program = i.program →
        j.period = i.period → j.isPlayable = i.isPlayable →
          channelNotes σ t q progress id = channelNotes σ s r progress id := by
  intro total
  have sound := renderable_score reachable.placed slots finite nonneg positive
  have window (t : Session α) (duration : t.duration = s.duration) : totalFrames r.rate t.score = total := by
    rw [totalFrames, score_duration, duration]
  refine ⟨⟨_, (Renderer.render_take sound Recorder.new going).1⟩, ?_, ?_, ?_⟩
  · intro id i found playable
    rw [channelNotes_playable reachable.placed sound going found playable, window s rfl]
  · intro id silent
    exact channelNotes_silent reachable.placed sound going silent
  · intro t q reached room duration rate id i j hi hj program period same
    rw [← duration] at finite nonneg
    rw [← rate] at positive
    have sound' := renderable_score reached.placed room finite nonneg positive
    cases playable : i.isPlayable with
    | true =>
      rw [playable] at same
      have points : t.points id = s.points id := by
        rw [Session.points, Session.points, hi, hj]
        simp only [program, period, duration]
      rw [channelNotes_playable reachable.placed sound going hi playable, window s rfl,
        channelNotes_playable reached.placed sound' going hj same, rate, window t duration, points]
    | false =>
      rw [playable] at same
      rw [channelNotes_silent reachable.placed sound going fun k found => by rw [found] at hi; cases hi; exact playable,
        channelNotes_silent reached.placed sound' going fun k found => by rw [found] at hj; cases hj; exact same]

/-- The second instrument plays one note and then rests, with the first one and without it. -/
theorem render_plays_points_beside_other :
    let edits : List (Action Float Sample) := [.setFormula 1 "x*2", .setPeriod 1 "1", .setEnabled 1 true, .flush]
    let other : List (Action Float Sample) := [.setFormula 0 "1", .setPeriod 0 "0.5", .setEnabled 0 true]
    let s := (other ++ edits).foldl perform ((new 2).withDuration 2)
    let t := edits.foldl perform ((new 3).withDuration 2)
    let r : Renderer Float := .new 2
    Reachable Sample s ∧ Reachable Sample t ∧
      channelNotes Sample s r .new 0 = [⟨1, 0, 52⟩, ⟨2, 0, 52⟩, ⟨3, 0, 52⟩, ⟨4, 0, 52⟩] ∧
      channelNotes Sample s r .new 1 = [⟨2, 1, 68⟩] ∧
      channelNotes Sample t r .new 1 = channelNotes Sample s r .new 1 := by
  intro edits other s t r
  have reachable : Reachable Sample s := ⟨_, .withDuration (.new 2) 2, _, rfl⟩
  have reached : Reachable Sample t := ⟨_, .withDuration (.new 3) 2, _, rfl⟩
  have finite : isFinite s.duration = true := by decide +kernel
  have nonneg : le 0 s.duration = true := by decide +kernel
  have slots : s.instruments.length ≤ channelCount := by decide +kernel
  have room : t.instruments.length ≤ channelCount := by decide +kernel
  have duration : t.duration = s.duration := by decide +kernel
  have positive : 0 < r.rate := two_pos
  have going : (Progress.new : Progress Float).cancelled = false := rfl
  obtain ⟨-, plays, -, same⟩ := render_plays_points reachable slots finite nonneg positive going
  obtain ⟨i, hi⟩ := Option.isSome_iff_exists.mp (show s.instruments[0]?.isSome = true by decide +kernel)
  obtain ⟨j, hj⟩ := Option.isSome_iff_exists.mp (show s.instruments[1]?.isSome = true by decide +kernel)
  obtain ⟨k, hk⟩ := Option.isSome_iff_exists.mp (show t.instruments[1]?.isSome = true by decide +kernel)
  have iPlays : s.instruments[0]?.any Instrument.isPlayable = true := by decide +kernel
  have jPlays : s.instruments[1]?.any Instrument.isPlayable = true := by decide +kernel
  let heard (i : Instrument Float) := (i.program, i.period, i.isPlayable)
  have voiced : t.instruments[1]?.map heard = s.instruments[1]?.map heard := by decide +kernel
  rw [hi] at iPlays
  rw [hj] at jPlays voiced
  rw [hk] at voiced
  obtain ⟨program, period, playable⟩ : k.program = j.program ∧ k.period = j.period ∧ k.isPlayable = j.isPlayable := by
    simpa [heard] using voiced
  refine ⟨reachable, reached, ?_, ?_, same t r reached room duration rfl 1 j k hj hk program period playable⟩
  · rw [plays 0 i hi iPlays]
    decide +kernel
  · rw [plays 1 j hj jPlays]
    decide +kernel

end Session
end FormulaSynth
