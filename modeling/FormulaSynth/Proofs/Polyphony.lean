import FormulaSynth.Proofs.Cuts

/-!
# Polyphony

There are four times as many places for notes as channels, and a channel holds one key. So a full device has a note
whose key is up, and the first of these makes room. It may be one whose key goes up only now, because its own channel
is struck again.
-/

set_option autoImplicit false
namespace FormulaSynth.Device
open Number Sound Audio
variable {α : Type} [Number α]

/-! ## Uses of a device -/

/-- What is done to a device at once. -/
inductive Use
  | command (c : Command)
  | render (left right : ℕ)
deriving DecidableEq, Repr

namespace Use

def frames : Use → ℕ
  | command _ => 0
  | render left right => min left right

def Strikes (u : Use) (channel : ℕ) : Prop := ∃ key velocity, u = command (.noteOn channel key velocity)

def lifts (u : Use) (channel : ℕ) : Bool :=
  match u with
  | command (.noteOn c _ _) | command (.noteOff c) => c = channel
  | _ => false

def touch (u : Use) (rate : ℕ) (n : Sounding α) : Sounding α :=
  (if u.lifts n.channel then n.released else n).aged rate u.frames

end Use

def ToneDevice.use (σ : Type) [Narrow α σ] (d : ToneDevice α) : Use → ToneDevice α
  | .command c => d.command c
  | .render left right => (NoteDevice.render (σ := σ) d left right).1

section Notes
variable {n m : Sounding α}

namespace Sounding

omit [Number α] in
theorem isHeld_iff : n.isHeld = true ↔ n.gateOff = none := Option.isNone_iff_eq_none

theorem channel_aged (n : Sounding α) (rate frames : ℕ) : (n.aged rate frames).channel = n.channel := by
  induction frames generalizing n with
  | zero => rfl
  | succ frames ih =>
    rw [n.aged_succ, ih]
    rfl

omit [Number α] in
theorem released_eq (n : Sounding α) : n.released = { n with gateOff := some (n.gateOff.getD n.age) } := by
  obtain ⟨channel, timbre, frequency, phase, gain, age, gate⟩ := n
  cases gate <;> rfl

structure Played (n : Sounding α) : Prop where
  channel : n.channel < channelCount
  voice : ∃ v : Voice, n.timbre = v.timbre
  gate : ∀ off ∈ n.gateOff, off ≤ n.age

structure Struck (n : Sounding α) : Prop extends Played n where
  age : n.age = 0
  held : n.isHeld = true

/-- Of two notes the one that was struck first. -/
structure Before (n m : Sounding α) : Prop where
  age : m.age ≤ n.age
  apart : n.isHeld = true → m.isHeld = true → n.channel ≠ m.channel

end Sounding

section Touch
variable (u : Use) (rate : ℕ)

@[simp] theorem Use.channel_touch (n : Sounding α) : (u.touch rate n).channel = n.channel := by
  rw [touch, Sounding.channel_aged]
  split
  · rw [n.released_eq]
  · rfl

theorem Use.timbre_touch (n : Sounding α) : (u.touch rate n).timbre = n.timbre := by
  rw [touch, (Sounding.aged_kept _ rate u.frames).1]
  split
  · rw [n.released_eq]
  · rfl

theorem Use.age_touch (n : Sounding α) : (u.touch rate n).age = n.age + u.frames := by
  rw [touch, (Sounding.aged_kept _ rate u.frames).2.2]
  split
  · rw [n.released_eq]
  · rfl

theorem Use.gateOff_touch (n : Sounding α) :
    (u.touch rate n).gateOff = if u.lifts n.channel then some (n.gateOff.getD n.age) else n.gateOff := by
  rw [touch, (Sounding.aged_kept _ rate u.frames).2.1]
  split
  · rw [n.released_eq]
  · rfl

theorem Use.isHeld_touch (n : Sounding α) : (u.touch rate n).isHeld = (n.isHeld && !u.lifts n.channel) := by
  rw [Sounding.isHeld, Sounding.isHeld, u.gateOff_touch]
  cases u.lifts n.channel <;> simp

theorem Use.map_touch_of_still {ns : List (Sounding α)} (frames : u.frames = 0)
    (down : ∀ n ∈ ns, u.lifts n.channel = false) : ns.map (u.touch rate) = ns := by
  rw [List.map_congr_left (g := id), List.map_id]
  intro n mem
  rw [touch, frames, down n mem]
  rfl

theorem Sounding.Played.touch (h : n.Played) : (u.touch rate n).Played := by
  refine ⟨by rw [u.channel_touch]; exact h.channel, by rw [u.timbre_touch]; exact h.voice, ?_⟩
  have latest : n.gateOff.getD n.age ≤ n.age := by
    cases gate : n.gateOff with
    | none => exact le_rfl
    | some off => exact h.gate off gate
  intro off up
  rw [u.gateOff_touch] at up
  rw [u.age_touch]
  split at up
  · cases up
    exact latest.trans (Nat.le_add_right _ _)
  · exact (h.gate off up).trans (Nat.le_add_right _ _)

theorem Sounding.Before.touch (h : n.Before m) : (u.touch rate n).Before (u.touch rate m) where
  age := by
    rw [u.age_touch, u.age_touch]
    exact Nat.add_le_add_right h.age _
  apart := by
    rw [u.isHeld_touch, u.isHeld_touch, u.channel_touch, u.channel_touch]
    exact fun first second => h.apart (Bool.and_elim_left first) (Bool.and_elim_left second)

end Touch

end Notes

/-! ## Notes in order -/

/-- The notes of a device, in the order in which they were struck. -/
structure Arranged (ns : List (Sounding α)) : Prop where
  played : ∀ n ∈ ns, n.Played
  before : ns.Pairwise Sounding.Before

theorem Arranged.nil : Arranged ([] : List (Sounding α)) := ⟨fun _ mem => absurd mem List.not_mem_nil, .nil⟩

namespace Arranged
variable {ns kept : List (Sounding α)} (h : Arranged ns)
include h

theorem sublist (some : kept.Sublist ns) : Arranged kept :=
  ⟨fun n mem => h.played n (some.subset mem), h.before.sublist some⟩

theorem touch (u : Use) (rate : ℕ) : Arranged (ns.map (u.touch rate)) := by
  constructor
  · intro n mem
    obtain ⟨m, there, rfl⟩ := List.mem_map.mp mem
    exact (h.played m there).touch u rate
  · rw [List.pairwise_map]
    exact h.before.imp fun before => before.touch u rate

theorem strike {n : Sounding α} (struck : n.Struck) (free : ∀ m ∈ ns, m.isHeld = true → m.channel ≠ n.channel) :
    Arranged (ns ++ [n]) := by
  constructor
  · intro m mem
    rcases List.mem_append.mp mem with old | new
    · exact h.played m old
    · rw [List.mem_singleton.mp new]
      exact struck.toPlayed
  · refine List.pairwise_append.mpr ⟨h.before, List.pairwise_singleton _ _, fun m old k new => ?_⟩
    rw [List.mem_singleton.mp new]
    refine ⟨?_, fun held _ => free m old held⟩
    rw [struck.age]
    exact Nat.zero_le _

/-- Held keys are on channels of their own, so of more notes than channels one is released. -/
theorem exists_released (many : channelCount < ns.length) : ∃ n ∈ ns, n.isHeld = false := by
  by_contra! held
  have down : ∀ n ∈ ns, n.isHeld = true := fun n mem => Bool.eq_true_of_not_eq_false (held n mem)
  have nodup : (ns.map Sounding.channel).Nodup := by
    rw [List.Nodup, List.pairwise_map]
    exact h.before.imp_of_mem fun first second before => before.apart (down _ first) (down _ second)
  have inside : ns.map Sounding.channel ⊆ List.range channelCount := by
    intro channel mem
    obtain ⟨n, there, rfl⟩ := List.mem_map.mp mem
    exact List.mem_range.mpr (h.played n there).channel
  have few := (List.subperm_of_subset nodup inside).length_le
  rw [List.length_map, List.length_range] at few
  omega

end Arranged

namespace ToneDevice
variable {d : ToneDevice α}

structure Polyphonic (d : ToneDevice α) : Prop where
  channels : d.channels.length = channelCount
  bounded : d.sounding.length ≤ maxSounding
  arranged : Arranged d.sounding

/-! ## The note that makes room -/

/-- The oldest note whose key is up, between the ones before it, which are all held, and the others. -/
structure Oldest (ns before : List (Sounding α)) (oldest : Sounding α) (after : List (Sounding α)) : Prop where
  split : ns = before ++ oldest :: after
  held : ∀ n ∈ before, n.isHeld = true
  released : oldest.isHeld = false

omit [Number α] in
theorem Oldest.place {ns before after : List (Sounding α)} {oldest : Sounding α} (h : Oldest ns before oldest after) :
    ns.findIdx? (fun n => !n.isHeld) = some before.length := by
  have none : before.findIdx? (fun n => !n.isHeld) = Option.none := by
    rw [List.findIdx?_eq_none_iff]
    intro n mem
    rw [h.held n mem]
    rfl
  rw [h.split, List.findIdx?_append, none, List.findIdx?_cons, h.released]
  simp

omit [Number α] in
theorem exists_oldest {ns : List (Sounding α)} (some : ∃ n ∈ ns, n.isHeld = false) :
    ∃ before oldest after, Oldest ns before oldest after := by
  have found : (ns.find? fun n => !n.isHeld).isSome = true := by
    rw [List.find?_isSome]
    obtain ⟨n, mem, up⟩ := some
    exact ⟨n, mem, by rw [up]; rfl⟩
  obtain ⟨oldest, eq⟩ := Option.isSome_iff_exists.mp found
  obtain ⟨up, before, after, split, held⟩ := List.find?_eq_some_iff_append.mp eq
  refine ⟨before, oldest, after, split, fun n mem => ?_, ?_⟩
  · simpa using held n mem
  · simpa using up

omit [Number α] in
theorem makeRoom_of_room (room : d.sounding.length < maxSounding) : d.makeRoom = d := if_pos room

omit [Number α] in
theorem makeRoom_of_full (full : maxSounding ≤ d.sounding.length) {before after : List (Sounding α)}
    {oldest : Sounding α} (h : Oldest d.sounding before oldest after) :
    d.makeRoom.sounding = before ++ after := by
  rw [makeRoom, if_neg (not_lt.mpr full)]
  change d.sounding.eraseIdx _ = _
  rw [h.place, Option.getD_some, h.split, List.eraseIdx_append_of_length_le le_rfl, Nat.sub_self]
  rfl

omit [Number α] in
theorem channels_makeRoom (d : ToneDevice α) : d.makeRoom.channels = d.channels := by
  unfold makeRoom
  split <;> rfl

/-! ## One use -/

section Sounds

theorem noteOn_unknown {channel : ℕ} (unknown : d.channels.length ≤ channel) (key velocity : ℕ) :
    d.noteOn channel key velocity = d := by
  rw [noteOn, List.getElem?_eq_none unknown]

theorem noteOn_sounding (h : d.channels.length = channelCount) {channel : ℕ} (known : channel < channelCount)
    (key velocity : ℕ) : ∃ n : Sounding α, n.Struck ∧ n.channel = channel ∧
      (d.noteOn channel key velocity).sounding = (d.release channel).makeRoom.sounding ++ [n] := by
  rw [← h] at known
  rw [noteOn, List.getElem?_eq_getElem known]
  exact ⟨_, ⟨⟨h ▸ known, ⟨_, rfl⟩, fun off up => absurd up (Option.not_mem_none off)⟩, rfl, rfl⟩, rfl, rfl⟩

theorem release_sounding (d : ToneDevice α) (channel : ℕ) {u : Use} (frames : u.frames = 0)
    (lifts : ∀ c, u.lifts c = decide (channel = c)) :
    (d.release channel).sounding = d.sounding.map (u.touch d.rate) := by
  refine List.map_congr_left fun n _ => ?_
  rw [Use.touch, frames, lifts]
  simp [Sounding.aged, eq_comm]

/-- What stays of the notes of `d` when it is used, and what is new. -/
structure Turnover (d : ToneDevice α) (u : Use) (kept started : List (Sounding α)) : Prop where
  sublist : kept.Sublist d.sounding
  struck : started = [] ∨ ∃ n : Sounding α, n.Struck ∧ u.Strikes n.channel ∧ started = [n]
  bounded : kept.length + started.length ≤ maxSounding
  /-- No held note is dropped, unless its own channel is struck on a full device and it is the oldest of all whose key
      is up then. -/
  held : kept.filter Sounding.isHeld = d.sounding.filter Sounding.isHeld ∨
    d.sounding.length = maxSounding ∧ ∃ before n after, u.Strikes n.channel ∧
      d.sounding = before ++ n :: after ∧ kept = before ++ after ∧ ∀ m ∈ before, m.isHeld = true

theorem Turnover.all (h : d.Polyphonic) (u : Use) : Turnover d u d.sounding [] :=
  ⟨List.Sublist.refl _, .inl rfl, h.bounded, .inl rfl⟩

theorem Polyphonic.noteOn_full (h : d.Polyphonic) {channel : ℕ} (known : channel < channelCount) (key velocity : ℕ)
    (full : d.sounding.length = maxSounding) : ∃ before oldest after, ∃ n : Sounding α,
      Oldest (d.release channel).sounding before oldest after ∧ (∀ m ∈ after, m.age ≤ oldest.age) ∧
      n.Struck ∧ n.channel = channel ∧ (d.noteOn channel key velocity).sounding = before ++ after ++ [n] := by
  have released := d.release_sounding channel (u := .command (.noteOn channel key velocity)) rfl fun _ => rfl
  have arranged : Arranged (d.release channel).sounding := by
    rw [released]
    exact h.arranged.touch _ _
  have size : (d.release channel).sounding.length = maxSounding := (List.length_map _).trans full
  have many : channelCount < (d.release channel).sounding.length := by
    rw [size]
    decide
  obtain ⟨before, oldest, after, found⟩ := exists_oldest (arranged.exists_released many)
  obtain ⟨n, struck, on, sounding⟩ := noteOn_sounding h.channels known key velocity
  rw [makeRoom_of_full size.ge found] at sounding
  have order := arranged.before
  rw [found.split, List.pairwise_append, List.pairwise_cons] at order
  exact ⟨before, oldest, after, n, found, fun m mem => (order.2.1.1 m mem).age, struck, on, sounding⟩

theorem Polyphonic.noteOn_room (h : d.Polyphonic) {channel : ℕ} (known : channel < channelCount) (key velocity : ℕ)
    (room : d.sounding.length < maxSounding) : ∃ n : Sounding α,
      n.Struck ∧ n.channel = channel ∧ (d.noteOn channel key velocity).sounding = (d.release channel).sounding ++ [n] := by
  obtain ⟨n, struck, on, sounding⟩ := noteOn_sounding h.channels known key velocity
  have size : (d.release channel).sounding.length < maxSounding := (List.length_map _).trans_lt room
  rw [makeRoom_of_room size] at sounding
  exact ⟨n, struck, on, sounding⟩

theorem Oldest.of_touched {u : Use} {rate : ℕ} {ns before after : List (Sounding α)} {oldest : Sounding α}
    (h : Oldest (ns.map (u.touch rate)) before oldest after) :
    ∃ first n rest, ns = first ++ n :: rest ∧ first.map (u.touch rate) = before ∧ rest.map (u.touch rate) = after ∧
      (∀ m ∈ first, m.isHeld = true) ∧ (n.isHeld = true → u.lifts n.channel = true) := by
  obtain ⟨first, others, split, rfl, touched⟩ := List.map_eq_append_iff.mp h.split
  obtain ⟨n, rest, rfl, rfl, rfl⟩ := List.map_eq_cons_iff.mp touched
  refine ⟨first, n, rest, split, rfl, rfl, fun m mem => ?_, fun held => ?_⟩
  · have down := h.held _ (List.mem_map_of_mem mem)
    rw [u.isHeld_touch] at down
    exact Bool.and_elim_left down
  · have up := h.released
    rw [u.isHeld_touch, held] at up
    simpa using up

theorem Turnover.replace {u : Use} (full : d.sounding.length = maxSounding) {first rest : List (Sounding α)}
    {n m : Sounding α} (split : d.sounding = first ++ n :: rest) (held : ∀ k ∈ first, k.isHeld = true)
    (struck : m.Struck) (strikes : u.Strikes m.channel) (own : n.isHeld = true → m.channel = n.channel) :
    Turnover d u (first ++ rest) [m] := by
  refine ⟨?_, .inr ⟨m, struck, strikes, rfl⟩, ?_, ?_⟩
  · rw [split]
    exact (List.Sublist.refl first).append (List.sublist_cons_self n rest)
  · rw [split] at full
    simp only [List.length_append, List.length_cons, List.length_nil] at full ⊢
    omega
  · cases down : n.isHeld with
    | false =>
      left
      rw [split, List.filter_append, List.filter_append, List.filter_cons_of_neg (by simp [down])]
    | true =>
      right
      rw [own down] at strikes
      exact ⟨full, first, n, rest, strikes, split, rfl, held⟩

theorem Polyphonic.noteOn_turnover (h : d.Polyphonic) (channel key velocity : ℕ) :
    let u : Use := .command (.noteOn channel key velocity)
    ∃ kept started, Turnover d u kept started ∧
      (d.noteOn channel key velocity).sounding = kept.map (u.touch d.rate) ++ started := by
  intro u
  have released := d.release_sounding channel (u := u) rfl fun _ => rfl
  rcases lt_or_ge channel channelCount with known | unknown
  · rcases h.bounded.lt_or_eq with room | full
    · obtain ⟨n, struck, rfl, sounding⟩ := h.noteOn_room known key velocity room
      rw [released] at sounding
      have strikes : u.Strikes n.channel := ⟨key, velocity, rfl⟩
      exact ⟨d.sounding, [n], ⟨.refl _, .inr ⟨n, struck, strikes, rfl⟩, room, .inl rfl⟩, sounding⟩
    · obtain ⟨before, oldest, after, n, found, -, struck, rfl, sounding⟩ := h.noteOn_full known key velocity full
      rw [released] at found
      obtain ⟨first, m, rest, split, rfl, rfl, held, lifted⟩ := found.of_touched
      refine ⟨first ++ rest, [n], ?_, by rw [sounding, List.map_append]⟩
      exact .replace full split held struck ⟨key, velocity, rfl⟩ fun down => of_decide_eq_true (lifted down)
  · rw [noteOn_unknown (by rw [h.channels]; exact unknown)]
    refine ⟨d.sounding, [], .all h u, ?_⟩
    rw [List.append_nil, u.map_touch_of_still d.rate rfl]
    intro n mem
    exact decide_eq_false ((h.arranged.played n mem).channel.trans_le unknown).ne'

theorem Polyphonic.still_turnover (h : d.Polyphonic) {u : Use} (frames : u.frames = 0)
    (down : ∀ channel, u.lifts channel = false) :
    Turnover d u d.sounding [] ∧ d.sounding = d.sounding.map (u.touch d.rate) ++ [] := by
  refine ⟨Turnover.all h u, ?_⟩
  rw [List.append_nil, u.map_touch_of_still d.rate frames fun n _ => down n.channel]

variable {σ : Type} [Narrow α σ]

theorem Polyphonic.render_turnover (h : d.Polyphonic) (left right : ℕ) :
    let u : Use := .render left right
    ∃ kept, Turnover d u kept [] ∧ (d.use σ u).sounding = kept.map (u.touch d.rate) := by
  intro u
  let lasts (n : Sounding α) : Bool := !(u.touch d.rate n).isFinished (Number.ofNat d.rate)
  have fewer : (d.sounding.filter lasts).Sublist d.sounding := List.filter_sublist
  refine ⟨d.sounding.filter lasts, ⟨fewer, .inl rfl, fewer.length_le.trans h.bounded, .inl ?_⟩, ?_⟩
  · rw [List.filter_filter]
    refine List.filter_congr fun n _ => ?_
    cases held : n.isHeld with
    | false => rfl
    | true =>
      have down : (u.touch d.rate n).gateOff = none := by
        rw [← Sounding.isHeld_iff, u.isHeld_touch, held]
        rfl
      change (!Envelope.isFinished _ _ ((u.touch d.rate n).gateOff.map _)) = true
      rw [down]
      rfl
  · have sounding : (d.use σ u).sounding = (d.sounding.map (u.touch d.rate)).filter
        fun n => !n.isFinished (Number.ofNat d.rate) := by
      change (NoteDevice.render (σ := σ) d left right).1.sounding = _
      rw [render_spans]
      rfl
    rw [sounding, List.filter_map]
    rfl

theorem Polyphonic.turnover (h : d.Polyphonic) (u : Use) (going : u ≠ .command .reset) :
    ∃ kept started, Turnover d u kept started ∧
      (d.use σ u).sounding = kept.map (u.touch d.rate) ++ started := by
  cases u with
  | render left right =>
    obtain ⟨kept, turnover, sounding⟩ := h.render_turnover (σ := σ) left right
    exact ⟨kept, [], turnover, by rw [sounding, List.append_nil]⟩
  | command c =>
    cases c with
    | reset => exact absurd rfl going
    | voice channel voice => exact ⟨_, _, h.still_turnover rfl fun _ => rfl⟩
    | volume channel level => exact ⟨_, _, h.still_turnover rfl fun _ => rfl⟩
    | noteOn channel key velocity => exact h.noteOn_turnover channel key velocity
    | noteOff channel =>
      refine ⟨d.sounding, [], Turnover.all h _, ?_⟩
      rw [List.append_nil]
      exact d.release_sounding channel rfl fun _ => rfl

theorem Turnover.arranged {u : Use} {kept started : List (Sounding α)} (t : Turnover d u kept started)
    (h : Arranged d.sounding) (rate : ℕ) : Arranged (kept.map (u.touch rate) ++ started) := by
  have others := (h.sublist t.sublist).touch u rate
  rcases t.struck with rfl | ⟨n, struck, ⟨key, velocity, rfl⟩, rfl⟩
  · rw [List.append_nil]
    exact others
  · refine others.strike struck fun m mem held => ?_
    obtain ⟨k, -, rfl⟩ := List.mem_map.mp mem
    rw [Use.isHeld_touch, Use.lifts, Bool.and_eq_true, Bool.not_eq_true', decide_eq_false_iff_not] at held
    rw [Use.channel_touch]
    exact Ne.symm held.2

theorem channels_use (h : d.channels.length = channelCount) (u : Use) :
    (d.use σ u).channels.length = channelCount := by
  cases u with
  | render left right =>
    rw [use, render_spans]
    exact h
  | command c =>
    cases c with
    | reset => rfl
    | voice channel voice => exact (List.length_modify _ _ _).trans h
    | volume channel level => exact (List.length_modify _ _ _).trans h
    | noteOn channel key velocity =>
      change (d.noteOn channel key velocity).channels.length = _
      unfold noteOn
      split
      · exact (congrArg List.length (channels_makeRoom (d.release channel))).trans h
      · exact h
    | noteOff channel => exact h

theorem Polyphonic.use (h : d.Polyphonic) (u : Use) : (d.use σ u).Polyphonic := by
  have channels := channels_use (σ := σ) h.channels u
  rcases eq_or_ne u (.command .reset) with rfl | going
  · exact ⟨channels, Nat.zero_le _, .nil⟩
  · obtain ⟨kept, started, turnover, sounding⟩ := h.turnover (σ := σ) u going
    refine ⟨channels, ?_, ?_⟩
    · rw [sounding, List.length_append, List.length_map]
      exact turnover.bounded
    · rw [sounding]
      exact turnover.arranged h.arranged d.rate

/-! ## All uses -/

variable [Silence σ]

theorem Reached.commands {start d : ToneDevice α} (reached : Reached σ start d) (cs : List Command) :
    Reached σ start (cs.foldl ToneDevice.command d) := by
  induction cs generalizing d with
  | nil => exact reached
  | cons c cs ih => exact ih (reached.command c)

theorem polyphonic_new (rate : ℕ) (seed : UInt64) (master : α) :
    ({ new rate seed with master := master } : ToneDevice α).Polyphonic :=
  ⟨rfl, Nat.zero_le _, .nil⟩

theorem Reached.polyphonic {rate : ℕ} {seed : UInt64} {master : α} {d : ToneDevice α}
    (reached : Reached σ { new rate seed with master := master } d) : d.Polyphonic :=
  reached.keeps (fun _ c kept => kept.use (σ := σ) (.command c))
    (fun _ left right kept => kept.use (.render left right)) (polyphonic_new rate seed master)

/-- A device never has more notes than places, no two of them are held on one channel, and they stand in the order in
    which they were struck. A key that is struck on a full device takes the place of the first released note, counting
    what its own channel held until then, and there always is one. But for a reset nothing else makes a held note
    disappear, and a key goes up only where its channel lets it go or is struck again. -/
theorem only_released_make_room {rate : ℕ} {seed : UInt64} {master : α} {d : ToneDevice α}
    (reached : Reached σ { new rate seed with master := master } d) :
    d.Polyphonic ∧
    (∀ channel < channelCount, ∀ key velocity,
      (d.sounding.length < maxSounding → ∃ n : Sounding α, n.Struck ∧ n.channel = channel ∧
        (d.noteOn channel key velocity).sounding = (d.release channel).sounding ++ [n]) ∧
      (d.sounding.length = maxSounding → ∃ before oldest after, ∃ n : Sounding α,
        Oldest (d.release channel).sounding before oldest after ∧ (∀ m ∈ after, m.age ≤ oldest.age) ∧
        (d.release channel).sounding.findIdx? (fun n => !n.isHeld) = some before.length ∧
        n.Struck ∧ n.channel = channel ∧ (d.noteOn channel key velocity).sounding = before ++ after ++ [n])) ∧
    ∀ u : Use,
      (u ≠ .command .reset → ∃ kept started, Turnover d u kept started ∧
        (d.use σ u).sounding = kept.map (u.touch d.rate) ++ started) ∧
      ∀ n : Sounding α, (u.touch d.rate n).isHeld = (n.isHeld && !u.lifts n.channel) := by
  have polyphonic := reached.polyphonic
  refine ⟨polyphonic, fun channel known key velocity => ⟨?_, fun full => ?_⟩, fun u => ⟨?_, ?_⟩⟩
  · exact polyphonic.noteOn_room known key velocity
  · obtain ⟨before, oldest, after, n, found, younger, struck, on, sounding⟩ :=
      polyphonic.noteOn_full known key velocity full
    exact ⟨before, oldest, after, n, found, younger, found.place, struck, on, sounding⟩
  · exact polyphonic.turnover u
  · exact u.isHeld_touch d.rate

end Sounds

/-- A key on the first channel that is held for ten frames, and so many strikes of the second channel that the device is
    full. When the first channel is struck again its note is the oldest whose key is up, and nothing is left of it. -/
theorem restruck_channel_loses_note :
    let strikes : List Command := .volume 1 0 :: List.replicate 63 (.noteOn 1 60 100) ++ [.volume 0 0]
    let held : ToneDevice Float := (NoteDevice.render (σ := Sample) ((new 1000 1).command (.noteOn 0 60 100)) 10 10).1
    let d := strikes.foldl command held
    let u : Use := .command (.noteOn 0 60 0)
    Reached Sample (new 1000 1) d ∧ d.sounding.length = maxSounding ∧ u ≠ .command .reset ∧
      (∃ n ∈ d.sounding, n.isHeld = true ∧ n.age = 10) ∧ ∀ n ∈ (d.use Sample u).sounding, n.age ≠ 10 := by
  intro strikes held d u
  refine ⟨?_, by decide +kernel, by decide, by decide +kernel, by decide +kernel⟩
  exact Reached.start.command (.noteOn 0 60 100) |>.render 10 10 |>.commands strikes

/-- A device full of one channel's notes: another channel takes the place of the first of them. -/
theorem first_released_makes_room :
    let d : ToneDevice Float := (List.replicate 64 (.noteOn 0 60 100)).foldl command (new 1000 1)
    Reached Sample (new 1000 1) d ∧ d.sounding.length = maxSounding ∧ d.Polyphonic ∧
      ∃ n : Sounding Float, n.Struck ∧ n.channel = 1 ∧
        (d.noteOn 1 62 90).sounding = (d.release 1).sounding.tail ++ [n] := by
  intro d
  have reached : Reached Sample (new 1000 1) d := Reached.start.commands _
  have full : d.sounding.length = maxSounding := by decide +kernel
  obtain ⟨polyphonic, strike, -⟩ := only_released_make_room
    (show Reached Sample { (new 1000 1 : ToneDevice Float) with master := defaultMaster } d from reached)
  obtain ⟨before, oldest, after, n, found, -, place, struck, on, sounding⟩ := (strike 1 (by decide) 62 90).2 full
  have first : (d.release 1).sounding.findIdx? (fun n => !n.isHeld) = some 0 := by decide +kernel
  rw [first] at place
  have none : before = [] := List.length_eq_zero_iff.mp (Option.some.inj place).symm
  refine ⟨reached, full, polyphonic, n, struck, on, ?_⟩
  rw [sounding, found.split, none]
  rfl

end ToneDevice
end FormulaSynth.Device
