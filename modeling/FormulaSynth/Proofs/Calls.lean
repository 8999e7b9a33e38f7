import FormulaSynth.Audio.Render
import FormulaSynth.Device.Recorder
import FormulaSynth.Proofs.Ordered
import Mathlib

/-!
# What a render tells its device

A list of calls that depends on the score alone: the setup, then for every section the frames before it and its
commands, and at the end the frames that are left. The device and the buffer of a render are what follows from
these calls, all of them or those before the section at which it is cancelled.
-/

set_option autoImplicit false
namespace FormulaSynth.Audio
open Number Score Device

section Following
variable {δ σ : Type} [NoteDevice δ σ]

/-- A device and the buffer that it fills. -/
structure Take (δ σ : Type) where
  device : δ
  buffer : SampleBuffer σ

def Take.obey (t : Take δ σ) : Call → Take δ σ
  | .command c => ⟨Commanded.command t.device c, t.buffer⟩
  | .render start frames =>
    let (buffer, device) := t.buffer.renderSpan t.device start (start + frames)
    ⟨device, buffer⟩

def Take.follow (t : Take δ σ) (calls : List Call) : Take δ σ := calls.foldl Take.obey t

def spanCalls (start stop : ℕ) : List Call :=
  if start < stop then [.render start (stop - start)] else []

theorem follow_append (t : Take δ σ) (xs ys : List Call) : t.follow (xs ++ ys) = (t.follow xs).follow ys :=
  List.foldl_append

theorem follow_commands (t : Take δ σ) (cs : List Command) :
    t.follow (cs.map .command) = ⟨Commanded.commands t.device cs, t.buffer⟩ := by
  induction cs generalizing t with
  | nil => rfl
  | cons c cs ih => exact ih (t.obey (.command c))

theorem follow_span (t : Take δ σ) (start stop : ℕ) :
    t.follow (spanCalls start stop) =
      ⟨(t.buffer.renderSpan t.device start stop).2, (t.buffer.renderSpan t.device start stop).1⟩ := by
  unfold spanCalls
  by_cases ahead : start < stop
  · have stops : start + (stop - start) = stop := by omega
    rw [if_pos ahead]
    change t.obey (.render start (stop - start)) = _
    rw [Take.obey, stops]
  · rw [if_neg ahead, SampleBuffer.renderSpan, if_neg ahead]
    rfl

theorem follow_keeps {P : δ → Prop} (command : ∀ d c, P d → P (Commanded.command d c))
    (render : ∀ (d : δ) (left right : ℕ), P d → P (NoteDevice.render (σ := σ) d left right).1) (t : Take δ σ)
    (calls : List Call) (start : P t.device) : P (t.follow calls).device := by
  refine List.foldlRecOn (motive := fun t : Take δ σ => P t.device) calls Take.obey start ?_
  intro t kept c _
  cases c with
  | command c => exact command t.device c kept
  | render begins frames =>
    change P (t.buffer.renderSpan t.device begins (begins + frames)).2
    unfold SampleBuffer.renderSpan
    split
    · exact render t.device _ _ kept
    · exact kept

end Following

variable {α : Type}

def Section.calls (s : Section α) (position : ℕ) : List Call :=
  spanCalls position s.frame ++ s.commands.map .command

def sectionCalls (position : ℕ) : List (Section α) → List Call
  | [] => []
  | s :: rest => s.calls position ++ sectionCalls s.frame rest

def lastFrame (position : ℕ) : List (Section α) → ℕ
  | [] => position
  | s :: rest => lastFrame s.frame rest

theorem sectionCalls_append (position : ℕ) (xs ys : List (Section α)) :
    sectionCalls position (xs ++ ys) = sectionCalls position xs ++ sectionCalls (lastFrame position xs) ys := by
  induction xs generalizing position with
  | nil => rfl
  | cons s xs ih =>
    rw [List.cons_append, sectionCalls, ih, sectionCalls, lastFrame, List.append_assoc]

namespace Stage
variable {δ σ : Type} [NoteDevice δ σ]

def take (st : Stage α δ σ) : Take δ σ := ⟨st.device, st.buffer⟩

theorem renderTo_take (st : Stage α δ σ) (frame : ℕ) :
    (st.renderTo frame).take = st.take.follow (spanCalls st.position frame) := by
  rw [follow_span]
  rfl

variable [Number α]

def playList (st : Stage α δ σ) (ss : List (Section α)) : Stage α δ σ := ss.foldl Stage.play st

theorem play_take (st : Stage α δ σ) (s : Section α) :
    (st.play s).take = st.take.follow (s.calls st.position) := by
  rw [Section.calls, follow_append, ← renderTo_take, follow_commands]
  rfl

theorem playList_take (st : Stage α δ σ) (ss : List (Section α)) :
    (st.playList ss).take = st.take.follow (sectionCalls st.position ss) := by
  induction ss generalizing st with
  | nil => rfl
  | cons s ss ih =>
    rw [sectionCalls, follow_append, ← play_take]
    exact ih (st.play s)

theorem playList_position (st : Stage α δ σ) (ss : List (Section α)) :
    (st.playList ss).position = lastFrame st.position ss := by
  induction ss generalizing st with
  | nil => rfl
  | cons s ss ih => exact ih (st.play s)

theorem playList_progress (st : Stage α δ σ) (ss : List (Section α)) :
    (st.playList ss).progress = ss.getLast?.elim st.progress fun s => st.progress.set s.fraction := by
  induction ss generalizing st with
  | nil => rfl
  | cons s ss ih =>
    have rest : ((st.play s).playList ss).progress = _ := ih (st.play s)
    rw [List.getLast?_cons]
    cases last : ss.getLast? with
    | none =>
      rw [last] at rest
      exact rest
    | some t =>
      rw [last] at rest
      exact rest

theorem playAll_of_quiet (cancelled : ℕ → Bool) (g : ℕ) (st : Stage α δ σ) (ss : List (Section α))
    (quiet : ∀ k < ss.length, cancelled (g + k) = false) :
    st.playAll cancelled g ss = (st.playList ss, true) := by
  induction ss generalizing g st with
  | nil => rfl
  | cons s ss ih =>
    have now : cancelled g = false := quiet 0 (Nat.zero_lt_succ _)
    have later : ∀ k < ss.length, cancelled (g + 1 + k) = false := by
      intro k hk
      rw [Nat.add_assoc, Nat.add_comm 1 k]
      exact quiet (k + 1) (Nat.succ_lt_succ hk)
    rw [playAll, now]
    exact ih (g + 1) (st.play s) later

theorem playAll_of_stop (cancelled : ℕ → Bool) (g : ℕ) (st : Stage α δ σ) (ss : List (Section α)) (k : ℕ)
    (hk : k < ss.length) (stop : cancelled (g + k) = true) (quiet : ∀ j < k, cancelled (g + j) = false) :
    st.playAll cancelled g ss = (st.playList (ss.take k), false) := by
  induction ss generalizing g st k with
  | nil => exact absurd hk (Nat.not_lt_zero k)
  | cons s ss ih =>
    cases k with
    | zero =>
      have now : cancelled g = true := stop
      rw [playAll, if_pos now]
      rfl
    | succ k =>
      have now : cancelled g = false := quiet 0 (Nat.zero_lt_succ k)
      have shift (j : ℕ) : g + 1 + j = g + (j + 1) := by omega
      rw [playAll, now]
      refine ih (g + 1) (st.play s) k (Nat.lt_of_succ_lt_succ hk) ?_ ?_
      · rw [shift]
        exact stop
      · intro j hj
        rw [shift]
        exact quiet (j + 1) (Nat.succ_lt_succ hj)

end Stage

variable [Number α]

/-- What a score needs to be rendered at all. -/
structure Renderable (rate : ℕ) (score : Score α) : Prop where
  rate_pos : 0 < rate
  finite : isFinite score.duration = true
  nonneg : le 0 score.duration = true
  channels : ∀ part ∈ score.parts, part.id < channelCount

section Checks
variable {rate : ℕ} {score : Score α}

theorem invalid?_of_rate (h : rate = 0) : invalid? rate score = some (.invalidSampleRate 0) := by
  rw [invalid?, if_pos h, h]

variable [Ordered α]

theorem duration_invalid_iff :
    (!isFinite score.duration || lt score.duration 0) = true ↔
      ¬(isFinite score.duration = true ∧ le 0 score.duration = true) := by
  cases finite : isFinite score.duration with
  | false => exact iff_of_true rfl fun h => Bool.false_ne_true h.1
  | true =>
    cases nonneg : le 0 score.duration with
    | true =>
      rw [Ordered.not_lt_of_le nonneg]
      exact iff_of_false Bool.false_ne_true fun h => h ⟨rfl, rfl⟩
    | false =>
      have zero : le (0 : α) 0 = true := Ordered.zero_le_ofNat 0
      rw [Ordered.lt_of_not_le zero (Ordered.le_self finite) nonneg]
      exact iff_of_true rfl fun h => Bool.false_ne_true h.2

theorem invalid?_of_duration (positive : 0 < rate)
    (h : ¬(isFinite score.duration = true ∧ le 0 score.duration = true)) :
    invalid? rate score = some (.invalidDuration score.duration) := by
  rw [invalid?, if_neg positive.ne', if_pos (duration_invalid_iff.mpr h)]

theorem invalid?_of_sound (positive : 0 < rate) (finite : isFinite score.duration = true)
    (nonneg : le 0 score.duration = true) :
    invalid? rate score =
      (score.parts.find? fun part => channelCount ≤ part.id).map fun part => .channelOutOfRange part.id := by
  have sound := duration_invalid_iff.not.mpr (not_not.mpr ⟨finite, nonneg⟩)
  rw [invalid?, if_neg positive.ne', if_neg sound]

theorem invalid?_of_channel (positive : 0 < rate) (finite : isFinite score.duration = true)
    (nonneg : le 0 score.duration = true) {before after : List (VoicedPart α)} {part : VoicedPart α}
    (parts : score.parts = before ++ part :: after) (inside : ∀ p ∈ before, p.id < channelCount)
    (beyond : channelCount ≤ part.id) : invalid? rate score = some (.channelOutOfRange part.id) := by
  have first : before.find? (fun part => channelCount ≤ part.id) = none := by
    rw [List.find?_eq_none]
    intro p mem h
    exact absurd (of_decide_eq_true h) (Nat.not_le_of_lt (inside p mem))
  have found : (part :: after).find? (fun part => channelCount ≤ part.id) = some part :=
    List.find?_cons_of_pos (decide_eq_true beyond)
  rw [invalid?_of_sound positive finite nonneg, parts, List.find?_append, first, found]
  rfl

theorem Renderable.valid (h : Renderable rate score) : invalid? rate score = none := by
  have channels : score.parts.find? (fun part => channelCount ≤ part.id) = none := by
    rw [List.find?_eq_none]
    intro part mem beyond
    exact absurd (of_decide_eq_true beyond) (Nat.not_le_of_lt (h.channels part mem))
  rw [invalid?_of_sound h.rate_pos h.finite h.nonneg, channels]
  rfl

end Checks

namespace Renderer
variable {δ σ : Type} [NoteDevice δ σ] [Silence σ]

def onsets (score : Score α) : List (Onset α) := schedule score.scheduleInput score.duration

def groups (score : Score α) : List (List (Onset α)) := timeGroups (onsets score)

def scoreSections (r : Renderer α) (score : Score α) : List (Section α) := r.sections score (onsets score)

def callsUpTo (r : Renderer α) (score : Score α) (g : ℕ) : List Call :=
  (setup score).map .command ++ sectionCalls 0 ((r.scoreSections score).take g)

def calls (r : Renderer α) (score : Score α) : List Call :=
  (setup score).map .command ++ (sectionCalls 0 (r.scoreSections score) ++
    spanCalls (lastFrame 0 (r.scoreSections score)) (totalFrames r.rate score))

theorem callsUpTo_prefix (r : Renderer α) (score : Score α) (g : ℕ) :
    r.callsUpTo score g <+: r.calls score := by
  rw [callsUpTo, calls, List.prefix_append_right_inj]
  refine List.IsPrefix.trans ?_ (List.prefix_append _ _)
  conv_rhs => rw [← List.take_append_drop g (r.scoreSections score), sectionCalls_append]
  exact List.prefix_append _ _

theorem sectionsFrom_length (score : Score α) (rate velocity total all done : ℕ) (gs : List (List (Onset α))) :
    (sectionsFrom score rate velocity total all done gs).length = gs.length := by
  induction gs generalizing done with
  | nil => rfl
  | cons group gs ih => exact congrArg (· + 1) (ih (done + group.length))

theorem sectionsFrom_fraction (score : Score α) (rate velocity total all done : ℕ)
    (gs : List (List (Onset α))) (g : ℕ) (h : g < gs.length) :
    ((sectionsFrom score rate velocity total all done gs)[g]?.map Section.fraction) =
      some (Number.ofNat (done + (gs.take (g + 1)).flatten.length) / Number.ofNat all) := by
  induction gs generalizing done g with
  | nil => exact absurd h (Nat.not_lt_zero g)
  | cons group gs ih =>
    cases g with
    | zero =>
      rw [List.take_one, List.head?_cons, Option.toList_some, List.flatten_singleton]
      rfl
    | succ g =>
      rw [List.take_succ_cons, List.flatten_cons, List.length_append, ← Nat.add_assoc]
      exact ih (done + group.length) g (Nat.lt_of_succ_lt_succ h)

theorem scoreSections_length (r : Renderer α) (score : Score α) :
    (r.scoreSections score).length = (groups score).length :=
  sectionsFrom_length _ _ _ _ _ _ _

def silence (r : Renderer α) (score : Score α) : SampleBuffer σ := .silent (totalFrames r.rate score) r.rate

def ready (r : Renderer α) (score : Score α) (device : δ) (progress : Progress α) : Stage α δ σ :=
  ⟨Commanded.commands device (setup score), r.silence score, 0, .zero, progress⟩

theorem ready_take (r : Renderer α) (score : Score α) (device : δ) (progress : Progress α) :
    (r.ready score device progress : Stage α δ σ).take =
      (⟨device, r.silence score⟩ : Take δ σ).follow ((setup score).map .command) := by
  rw [follow_commands]
  rfl

variable (r : Renderer α) (score : Score α) (device : δ) (progress : Progress α) (cancelled : ℕ → Bool)

theorem playList_ready (g : ℕ) :
    ((r.ready score device progress : Stage α δ σ).playList ((r.scoreSections score).take g)).take =
      (⟨device, r.silence score⟩ : Take δ σ).follow (r.callsUpTo score g) := by
  rw [Stage.playList_take, ready_take, callsUpTo, follow_append]
  rfl

theorem playList_ready_progress (g : ℕ) (h : g < (groups score).length) :
    ((r.ready score device progress : Stage α δ σ).playList ((r.scoreSections score).take (g + 1))).progress =
      progress.set (Number.ofNat ((groups score).take (g + 1)).flatten.length /
        Number.ofNat (onsets score).length) := by
  have fraction := sectionsFrom_fraction score r.rate r.velocity (totalFrames r.rate score)
    (onsets score).length 0 (groups score) g h
  rw [Nat.zero_add] at fraction
  change (r.scoreSections score)[g]?.map Section.fraction = _ at fraction
  obtain ⟨s, found, eq⟩ := Option.map_eq_some_iff.mp fraction
  have last : ((r.scoreSections score).take (g + 1)).getLast? = some s := by
    rw [List.getLast?_take, if_neg (Nat.succ_ne_zero g), Nat.add_sub_cancel, found]
    rfl
  rw [Stage.playList_progress, last, ← eq]
  rfl

def stopped (g : ℕ) : Rendered α δ σ :=
  let st : Stage α δ σ := (r.ready score device progress).playList ((r.scoreSections score).take g)
  ⟨.error .cancelled, { r with scheduler := ⟨onsets score⟩ }, st.device, st.progress⟩

def finished : Rendered α δ σ :=
  let st : Stage α δ σ := (r.ready score device progress).playList (r.scoreSections score)
  let take := (⟨device, r.silence score⟩ : Take δ σ).follow (r.calls score)
  ⟨.ok take.buffer, { r with scheduler := ⟨onsets score⟩, stats := st.stats }, take.device, st.progress.set 1⟩

theorem renderWith_of_invalid {error : RenderError α} (h : invalid? r.rate score = some error) :
    r.renderWith (σ := σ) score device progress cancelled = ⟨.error error, r, device, progress⟩ := by
  rw [renderWith, h]

theorem renderWith_of_playAll (valid : invalid? r.rate score = none) {st : Stage α δ σ} {ended : Bool}
    (plays : (r.ready score device progress).playAll cancelled 0 (r.scoreSections score) = (st, ended)) :
    r.renderWith score device progress cancelled =
      if ended then
        let st := st.renderTo (totalFrames r.rate score)
        ⟨.ok st.buffer, { r with scheduler := ⟨onsets score⟩, stats := st.stats }, st.device, st.progress.set 1⟩
      else ⟨.error .cancelled, { r with scheduler := ⟨onsets score⟩ }, st.device, st.progress⟩ := by
  unfold ready silence scoreSections onsets at plays
  simp only [renderWith, valid, Scheduler.run_onsets, plays]
  cases ended with
  | false => rfl
  | true => rfl

theorem renderWith_of_stop (valid : invalid? r.rate score = none) (g : ℕ) (inside : g < (groups score).length)
    (stop : cancelled g = true) (quiet : ∀ k < g, cancelled k = false) :
    r.renderWith (σ := σ) score device progress cancelled = r.stopped score device progress g := by
  have stops := Stage.playAll_of_stop cancelled 0 (r.ready score device progress : Stage α δ σ)
    (r.scoreSections score) g (by rw [scoreSections_length]; exact inside)
    (by rw [Nat.zero_add]; exact stop) (by intro k hk; rw [Nat.zero_add]; exact quiet k hk)
  rw [renderWith_of_playAll r score device progress cancelled valid stops]
  rfl

theorem renderWith_of_quiet (valid : invalid? r.rate score = none)
    (quiet : ∀ k < (groups score).length, cancelled k = false) :
    r.renderWith (σ := σ) score device progress cancelled = r.finished score device progress := by
  have plays := Stage.playAll_of_quiet cancelled 0 (r.ready score device progress : Stage α δ σ)
    (r.scoreSections score) (by intro k hk; rw [Nat.zero_add]; rw [scoreSections_length] at hk; exact quiet k hk)
  let st : Stage α δ σ := (r.ready score device progress).playList (r.scoreSections score)
  have ends : (st.renderTo (totalFrames r.rate score)).take =
      (⟨device, r.silence score⟩ : Take δ σ).follow (r.calls score) := by
    rw [Stage.renderTo_take, Stage.playList_position, Stage.playList_take, ready_take, calls, follow_append,
      follow_append]
    rfl
  rw [renderWith_of_playAll r score device progress cancelled valid plays, finished, ← ends]
  rfl

/-- Of the answers that say yes only the first one counts. -/
theorem renderWith_cases :
    (∃ error, r.renderWith (σ := σ) score device progress cancelled = ⟨.error error, r, device, progress⟩) ∨
    (∃ g, r.renderWith (σ := σ) score device progress cancelled = r.stopped score device progress g) ∨
    r.renderWith (σ := σ) score device progress cancelled = r.finished score device progress := by
  cases valid : invalid? r.rate score with
  | some error => exact Or.inl ⟨error, renderWith_of_invalid r score device progress cancelled valid⟩
  | none =>
    right
    by_cases asked : ∃ k, k < (groups score).length ∧ cancelled k = true
    · left
      classical
      have first := Nat.find_spec asked
      refine ⟨Nat.find asked, renderWith_of_stop r score device progress cancelled valid _ first.1 first.2 ?_⟩
      intro k hk
      rw [Bool.eq_false_iff]
      exact fun up => Nat.find_min asked hk ⟨hk.trans first.1, up⟩
    · right
      refine renderWith_of_quiet r score device progress cancelled valid fun k hk => ?_
      rw [Bool.eq_false_iff]
      exact fun up => asked ⟨k, hk, up⟩

/-- What commands and rendered frames cannot take from a device is there after a render, cancelled or not. -/
theorem renderWith_keeps {P : δ → Prop} (command : ∀ d c, P d → P (Commanded.command d c))
    (render : ∀ (d : δ) (left right : ℕ), P d → P (NoteDevice.render (σ := σ) d left right).1) (start : P device) :
    P (r.renderWith (σ := σ) score device progress cancelled).device := by
  rcases renderWith_cases (σ := σ) r score device progress cancelled with ⟨error, eq⟩ | ⟨g, eq⟩ | eq
  · rw [eq]
    exact start
  · have take := playList_ready (σ := σ) r score device progress g
    rw [eq, stopped]
    exact (congrArg (fun t => P t.device) take).mpr (follow_keeps command render _ _ start)
  · rw [eq]
    exact follow_keeps command render _ _ start

theorem renderer_of_error {error : RenderError α}
    (h : (r.renderWith (σ := σ) score device progress cancelled).result = .error error) :
    ∃ scheduler, (r.renderWith (σ := σ) score device progress cancelled).renderer =
      { r with scheduler := scheduler } := by
  rcases renderWith_cases (σ := σ) r score device progress cancelled with ⟨e, eq⟩ | ⟨g, eq⟩ | eq
  · exact ⟨r.scheduler, by rw [eq]⟩
  · exact ⟨⟨onsets score⟩, by rw [eq]; rfl⟩
  · rw [eq] at h
    cases h

end Renderer
end FormulaSynth.Audio
