import FormulaSynth.Audio.Playback
import Mathlib.Data.List.Basic

set_option autoImplicit false
namespace FormulaSynth.Audio

/-- What happens to a playback: a command is sent to it, or the audio thread wants samples. -/
inductive PlaybackEvent
  | push (c : PlaybackCommand)
  | process (count : ℕ)

/-- What a process call writes: samples at the volume of that moment, and silence when there are no more. -/
structure Passage where
  samples : List Sample
  volume : Sample
  silence : ℕ

def Passage.written (h : Passage) : List Sample :=
  (h.samples.map fun s => clampSample (s * h.volume) (-1) 1) ++ List.replicate h.silence 0

/-- The samples that are still to be heard, behind a queue of commands. -/
structure Fifo where
  capacity : ℕ
  waiting : List PlaybackCommand
  pending : List Sample
  volume : Sample

namespace Fifo

def new (capacity : ℕ) : Fifo := ⟨capacity, [], [], 1⟩

def push (q : Fifo) (c : PlaybackCommand) : Bool × Fifo :=
  if q.waiting.length < q.capacity then (true, { q with waiting := q.waiting ++ [c] }) else (false, q)

def obey (q : Fifo) : PlaybackCommand → Fifo
  | .samples data => { q with pending := q.pending ++ data }
  | .setVolume volume => { q with volume := clampSample volume 0 1 }
  | .stop => { q with pending := [] }

def ready (q : Fifo) : Fifo := q.waiting.foldl obey { q with waiting := [] }

def process (q : Fifo) (count : ℕ) : Passage × Fifo :=
  (⟨q.ready.pending.take count, q.ready.volume, count - q.ready.pending.length⟩,
    { q.ready with pending := q.ready.pending.drop count })

def handle (q : Fifo) : PlaybackEvent → (Bool ⊕ Passage) × Fifo
  | .push c => (.inl (q.push c).1, (q.push c).2)
  | .process count => (.inr (q.process count).1, (q.process count).2)

def run (q : Fifo) : List PlaybackEvent → List (Bool ⊕ Passage) × Fifo
  | [] => ([], q)
  | e :: events => ((q.handle e).1 :: ((q.handle e).2.run events).1, ((q.handle e).2.run events).2)

end Fifo

namespace Playback

def handle (p : Playback) : PlaybackEvent → (Bool ⊕ List Sample) × Playback
  | .push c => (.inl (p.push c).1, (p.push c).2)
  | .process count => (.inr (p.process count).1, (p.process count).2)

def run (p : Playback) : List PlaybackEvent → List (Bool ⊕ List Sample) × Playback
  | [] => ([], p)
  | e :: events => ((p.handle e).1 :: ((p.handle e).2.run events).1, ((p.handle e).2.run events).2)

def fifo (p : Playback) : Fifo := ⟨p.capacity, p.waiting, p.store.toList.drop p.taken, p.volume⟩

def Within (p : Playback) : Prop := p.taken ≤ p.store.size

theorem within_obey {p : Playback} (h : p.Within) (c : PlaybackCommand) : (p.obey c).Within := by
  cases c with
  | samples data =>
    have grows : p.store.size ≤ (data.foldl Array.push p.store).size := by simp
    exact Nat.le_trans h grows
  | setVolume volume => exact h
  | stop => exact Nat.zero_le _

theorem fifo_obey {p : Playback} (h : p.Within) (c : PlaybackCommand) : (p.obey c).fifo = p.fifo.obey c := by
  cases c with
  | samples data =>
    -- past the end of the store new samples would be dropped with the old ones
    have inside : p.taken ≤ p.store.toList.length := h
    simp [obey, fifo, Fifo.obey, List.drop_append_of_le_length inside]
  | setVolume volume => rfl
  | stop => rfl

theorem played_obey (p : Playback) (c : PlaybackCommand) : (p.obey c).played = p.played := by
  cases c <;> rfl

theorem foldl_obey {p : Playback} (h : p.Within) (cs : List PlaybackCommand) :
    (cs.foldl obey p).Within ∧ (cs.foldl obey p).fifo = cs.foldl Fifo.obey p.fifo ∧
      (cs.foldl obey p).played = p.played := by
  induction cs generalizing p with
  | nil => exact ⟨h, rfl, rfl⟩
  | cons c cs ih =>
    obtain ⟨within, view, played⟩ := ih (within_obey h c)
    rw [fifo_obey h c] at view
    rw [played_obey] at played
    exact ⟨within, view, played⟩

def ready (p : Playback) : Playback := p.waiting.foldl obey { p with waiting := [] }

theorem ready_within {p : Playback} (h : p.Within) : p.ready.Within := by
  have emptied : Within { p with waiting := [] } := h
  exact (foldl_obey emptied p.waiting).1

theorem ready_fifo {p : Playback} (h : p.Within) : p.ready.fifo = p.fifo.ready := by
  have emptied : Within { p with waiting := [] } := h
  exact (foldl_obey emptied p.waiting).2.1

theorem ready_played {p : Playback} (h : p.Within) : p.ready.played = p.played := by
  have emptied : Within { p with waiting := [] } := h
  exact (foldl_obey emptied p.waiting).2.2

def found (p : Playback) (count : ℕ) : ℕ := min count (p.store.size - p.taken)

def skipped (p : Playback) (count : ℕ) : Playback :=
  { p with taken := p.taken + p.found count, played := p.played + p.found count }

theorem process_eq (p : Playback) (count : ℕ) :
    p.process count =
      ((p.ready.store.extract p.ready.taken (p.ready.taken + p.ready.found count)).toList.map
          (output p.ready.volume) ++ List.replicate (count - p.ready.found count) 0,
        (p.ready.skipped count).compacted) := rfl

theorem found_eq (p : Playback) (count : ℕ) : p.found count = min count p.fifo.pending.length := by
  simp [found, fifo]

theorem take_found (p : Playback) (count : ℕ) :
    (p.store.extract p.taken (p.taken + p.found count)).toList = p.fifo.pending.take count := by
  rw [Array.toList_extract, List.extract_eq_take_drop, Nat.add_sub_cancel_left, found_eq]
  exact List.take_eq_take_min.symm

theorem drop_found (p : Playback) (count : ℕ) :
    p.store.toList.drop (p.taken + p.found count) = p.fifo.pending.drop count := by
  rw [← List.drop_drop, found_eq]
  change p.fifo.pending.drop (min count p.fifo.pending.length) = _
  rcases Nat.le_total count p.fifo.pending.length with few | many
  · rw [Nat.min_eq_left few]
  · rw [Nat.min_eq_right many, List.drop_length, List.drop_eq_nil_of_le many]

theorem fifo_skipped (p : Playback) (count : ℕ) :
    (p.skipped count).fifo = { p.fifo with pending := p.fifo.pending.drop count } :=
  congrArg (fun pending => (⟨p.capacity, p.waiting, pending, p.volume⟩ : Fifo)) (p.drop_found count)

theorem within_skipped {p : Playback} (h : p.Within) (count : ℕ) : (p.skipped count).Within := by
  have bound : p.taken ≤ p.store.size := h
  change p.taken + min count (p.store.size - p.taken) ≤ p.store.size
  omega

theorem fifo_compacted (p : Playback) : p.compacted.fifo = p.fifo := by
  unfold compacted
  split
  · have whole : (p.store.toList.drop p.taken).take (p.store.size - p.taken) = p.store.toList.drop p.taken :=
      List.take_of_length_le (by simp)
    simp [fifo, whole]
  · rfl

theorem within_compacted {p : Playback} (h : p.Within) : p.compacted.Within := by
  unfold compacted
  split
  · exact Nat.zero_le _
  · exact h

theorem played_compacted (p : Playback) : p.compacted.played = p.played := by
  unfold compacted
  split <;> rfl

theorem process_written {p : Playback} (h : p.Within) (count : ℕ) :
    (p.process count).1 = (p.fifo.process count).1.written := by
  have silence : count - p.ready.found count = count - p.fifo.ready.pending.length := by
    rw [found_eq, ready_fifo h]
    omega
  have volume : p.ready.volume = p.fifo.ready.volume := congrArg Fifo.volume (ready_fifo h)
  rw [process_eq, take_found, ready_fifo h, silence, volume]
  rfl

theorem process_fifo {p : Playback} (h : p.Within) (count : ℕ) :
    (p.process count).2.fifo = (p.fifo.process count).2 := by
  rw [process_eq, fifo_compacted, fifo_skipped, ready_fifo h]
  rfl

theorem process_within {p : Playback} (h : p.Within) (count : ℕ) : (p.process count).2.Within :=
  within_compacted (within_skipped (ready_within h) count)

theorem process_played {p : Playback} (h : p.Within) (count : ℕ) :
    (p.process count).2.played = p.played + (p.fifo.process count).1.samples.length := by
  have counted : (p.ready.skipped count).played = p.ready.played + p.ready.found count := rfl
  rw [process_eq, played_compacted, counted, ready_played h, found_eq, ready_fifo h, ← List.length_take]
  rfl

theorem push_fifo (p : Playback) (c : PlaybackCommand) :
    (p.push c).1 = (p.fifo.push c).1 ∧ (p.push c).2.fifo = (p.fifo.push c).2 := by
  by_cases room : p.waiting.length < p.capacity
  · simp [push, Fifo.push, fifo, room]
  · simp [push, Fifo.push, fifo, room]

theorem push_kept (p : Playback) (c : PlaybackCommand) :
    (p.push c).2.store = p.store ∧ (p.push c).2.taken = p.taken ∧ (p.push c).2.played = p.played := by
  unfold push
  split <;> exact ⟨rfl, rfl, rfl⟩

end Playback

def heardIn : Bool ⊕ Passage → List Sample
  | .inl _ => []
  | .inr passage => passage.samples

def samplesOf : PlaybackCommand → List Sample
  | .samples data => data
  | _ => []

/-- The samples that an event brings in. A command that finds no place is lost. -/
def acceptedIn : PlaybackEvent → Bool ⊕ Passage → List Sample
  | .push c, .inl true => samplesOf c
  | _, _ => []

namespace Playback

theorem handle_fifo {p : Playback} (h : p.Within) (e : PlaybackEvent) :
    (p.handle e).1 = (p.fifo.handle e).1.map id Passage.written ∧ (p.handle e).2.fifo = (p.fifo.handle e).2 ∧
      (p.handle e).2.Within ∧ (p.handle e).2.played = p.played + (heardIn (p.fifo.handle e).1).length := by
  cases e with
  | push c =>
    obtain ⟨answer, view⟩ := p.push_fifo c
    obtain ⟨store, taken, played⟩ := p.push_kept c
    refine ⟨congrArg Sum.inl answer, view, ?_, played⟩
    change (p.push c).2.taken ≤ (p.push c).2.store.size
    rw [store, taken]
    exact h
  | process count =>
    exact ⟨congrArg Sum.inr (process_written h count), process_fifo h count, process_within h count,
      process_played h count⟩

theorem run_fifo {p : Playback} (h : p.Within) (events : List PlaybackEvent) :
    (p.run events).1 = (p.fifo.run events).1.map (Sum.map id Passage.written) ∧
      (p.run events).2.fifo = (p.fifo.run events).2 ∧ (p.run events).2.Within ∧
      (p.run events).2.played = p.played + ((p.fifo.run events).1.flatMap heardIn).length := by
  induction events generalizing p with
  | nil => exact ⟨rfl, rfl, h, rfl⟩
  | cons e events ih =>
    obtain ⟨answer, view, within, played⟩ := handle_fifo h e
    obtain ⟨answers, views, ends, total⟩ := ih within
    -- the rest runs from the queue that the first event leaves, which is the view of the playback it leaves
    rw [view] at answers views total
    refine ⟨?_, views, ends, ?_⟩
    · rw [run, Fifo.run, List.map_cons, ← answers, answer]
    · rw [run, Fifo.run, List.flatMap_cons, List.length_append, total, played, Nat.add_assoc]

end Playback

namespace Fifo

def stock (q : Fifo) : List Sample := q.pending ++ q.waiting.flatMap samplesOf

def Keeps (q : Fifo) : Prop := ∀ c ∈ q.waiting, c ≠ .stop

theorem foldl_obey_sublist (q : Fifo) (cs : List PlaybackCommand) :
    (cs.foldl obey q).pending.Sublist (q.pending ++ cs.flatMap samplesOf) := by
  induction cs generalizing q with
  | nil => simp
  | cons c cs ih =>
    refine (ih (q.obey c)).trans ?_
    rw [List.flatMap_cons, ← List.append_assoc]
    refine List.Sublist.append_right ?_ _
    cases c with
    | samples data => exact .refl _
    | setVolume volume => exact List.sublist_append_left _ _
    | stop => exact List.nil_sublist _

theorem foldl_obey_pending (q : Fifo) {cs : List PlaybackCommand} (keeps : ∀ c ∈ cs, c ≠ .stop) :
    (cs.foldl obey q).pending = q.pending ++ cs.flatMap samplesOf := by
  induction cs generalizing q with
  | nil => simp
  | cons c cs ih =>
    obtain ⟨first, rest⟩ := List.forall_mem_cons.mp keeps
    rw [List.foldl_cons, ih (q.obey c) rest, List.flatMap_cons, ← List.append_assoc]
    cases c with
    | samples data => rfl
    | setVolume volume => simp [obey, samplesOf]
    | stop => exact absurd rfl first

theorem foldl_obey_waiting (q : Fifo) (cs : List PlaybackCommand) : (cs.foldl obey q).waiting = q.waiting := by
  induction cs generalizing q with
  | nil => rfl
  | cons c cs ih =>
    refine (ih (q.obey c)).trans ?_
    cases c <;> rfl

theorem ready_waiting (q : Fifo) : q.ready.waiting = [] :=
  foldl_obey_waiting _ _

theorem process_stock (q : Fifo) (count : ℕ) :
    (q.process count).1.samples ++ (q.process count).2.stock = q.ready.pending := by
  change q.ready.pending.take count ++ (q.ready.pending.drop count ++ q.ready.waiting.flatMap samplesOf) = _
  rw [ready_waiting, List.flatMap_nil, List.append_nil, List.take_append_drop]

theorem push_stock (q : Fifo) (c : PlaybackCommand) :
    (q.push c).2.stock = q.stock ++ acceptedIn (.push c) (.inl (q.push c).1) := by
  by_cases room : q.waiting.length < q.capacity
  · simp [push, room, stock, acceptedIn]
  · simp [push, room, acceptedIn]

theorem handle_sublist (q : Fifo) (e : PlaybackEvent) :
    (heardIn (q.handle e).1 ++ (q.handle e).2.stock).Sublist (q.stock ++ acceptedIn e (q.handle e).1) := by
  cases e with
  | push c =>
    change (q.push c).2.stock.Sublist (q.stock ++ acceptedIn (.push c) (.inl (q.push c).1))
    rw [push_stock]
  | process count =>
    change ((q.process count).1.samples ++ (q.process count).2.stock).Sublist (q.stock ++ [])
    rw [process_stock, List.append_nil]
    exact foldl_obey_sublist _ _

theorem handle_stock {q : Fifo} (keeps : q.Keeps) {e : PlaybackEvent} (going : e ≠ .push .stop) :
    (q.handle e).2.Keeps ∧ heardIn (q.handle e).1 ++ (q.handle e).2.stock = q.stock ++ acceptedIn e (q.handle e).1 := by
  cases e with
  | push c =>
    refine ⟨?_, push_stock q c⟩
    have sent : c ≠ .stop := fun stops => going (congrArg PlaybackEvent.push stops)
    change ∀ d ∈ (q.push c).2.waiting, d ≠ .stop
    unfold push
    split
    · exact List.forall_mem_append.mpr ⟨keeps, List.forall_mem_singleton.mpr sent⟩
    · exact keeps
  | process count =>
    constructor
    · change ∀ d ∈ q.ready.waiting, d ≠ .stop
      simp [ready_waiting]
    · change (q.process count).1.samples ++ (q.process count).2.stock = q.stock ++ []
      rw [process_stock, List.append_nil]
      exact foldl_obey_pending _ keeps

def accepted (events : List PlaybackEvent) (answers : List (Bool ⊕ Passage)) : List Sample :=
  (List.zipWith acceptedIn events answers).flatten

theorem run_sublist (q : Fifo) (events : List PlaybackEvent) :
    ((q.run events).1.flatMap heardIn ++ (q.run events).2.stock).Sublist
      (q.stock ++ accepted events (q.run events).1) := by
  induction events generalizing q with
  | nil => simp [run, accepted]
  | cons e events ih =>
    have first := q.handle_sublist e
    have rest := ih (q.handle e).2
    rw [run, List.flatMap_cons, List.append_assoc, accepted, List.zipWith_cons_cons, List.flatten_cons,
      ← List.append_assoc q.stock]
    refine (List.Sublist.append_left rest _).trans ?_
    rw [← List.append_assoc]
    exact List.Sublist.append_right first _

theorem run_stock {q : Fifo} (keeps : q.Keeps) {events : List PlaybackEvent} (going : ∀ e ∈ events, e ≠ .push .stop) :
    (q.run events).1.flatMap heardIn ++ (q.run events).2.stock = q.stock ++ accepted events (q.run events).1 := by
  induction events generalizing q with
  | nil => simp [run, accepted]
  | cons e events ih =>
    obtain ⟨now, later⟩ := List.forall_mem_cons.mp going
    obtain ⟨kept, first⟩ := handle_stock keeps now
    have rest := ih kept later
    rw [run, List.flatMap_cons, List.append_assoc, accepted, List.zipWith_cons_cons, List.flatten_cons,
      ← List.append_assoc q.stock, ← first, List.append_assoc]
    exact congrArg (heardIn (q.handle e).1 ++ ·) rest

end Fifo

/-- Commands and calls for samples in any order are answered as a list of pending samples would answer them, and the
    store never runs past its end. The count is the number of samples that were no silence. What is heard, and then
    what may still be heard, is what was accepted: in its order, each sample at most once, and with nothing missing if
    playback is never stopped. -/
theorem playback_is_fifo (capacity : ℕ) (events : List PlaybackEvent) :
    let playback := (Playback.new capacity).run events
    let fifo := (Fifo.new capacity).run events
    let heard := fifo.1.flatMap heardIn
    let accepted := Fifo.accepted events fifo.1
    playback.1 = fifo.1.map (Sum.map id Passage.written) ∧ playback.2.fifo = fifo.2 ∧
    (∀ commands : List PlaybackCommand,
      (commands.foldl Playback.obey playback.2).taken ≤ (commands.foldl Playback.obey playback.2).store.size) ∧
    playback.2.played = heard.length ∧
    (heard ++ fifo.2.stock).Sublist accepted ∧
    ((∀ e ∈ events, e ≠ .push .stop) → heard ++ fifo.2.stock = accepted) := by
  intro playback fifo heard accepted
  have empty : (Playback.new capacity).Within := Nat.le_refl _
  obtain ⟨answers, view, within, played⟩ := Playback.run_fifo empty events
  refine ⟨answers, view, fun commands => (Playback.foldl_obey within commands).1, ?_, ?_, ?_⟩
  · rw [← Nat.zero_add heard.length]
    exact played
  · exact Fifo.run_sublist (Fifo.new capacity) events
  · intro going
    have keeps : (Fifo.new capacity).Keeps := fun c waiting => absurd waiting List.not_mem_nil
    exact Fifo.run_stock keeps going

/-- The second command finds no place, the first call takes enough for the store to be compacted, and the last one runs
    out of samples. -/
theorem playback_is_fifo_across_compaction :
    let events : List PlaybackEvent := [.push (.samples (List.replicate 9000 0.5)), .push (.setVolume 0),
      .process 8500, .push (.samples [4, -0.25]), .process 600]
    let playback := (Playback.new 1).run events
    let heard := ((Fifo.new 1).run events).1.flatMap heardIn
    (∀ e ∈ events, e ≠ .push .stop) ∧ heard = List.replicate 9000 0.5 ++ [4, -0.25] ∧ playback.2.played = 9002 ∧
      playback.1[4]? = some (.inr (List.replicate 500 0.5 ++ [1, -0.25] ++ List.replicate 98 0)) := by
  intro events playback heard
  have going : ∀ e ∈ events, e ≠ .push .stop := by
    simp only [events, List.forall_mem_cons, ne_eq, PlaybackEvent.push.injEq, reduceCtorEq, not_false_eq_true,
      List.not_mem_nil, false_imp_iff, implies_true, and_self]
  obtain ⟨answers, -, -, played, -, lossless⟩ := playback_is_fifo 1 events
  have accepted : Fifo.accepted events ((Fifo.new 1).run events).1 = List.replicate 9000 0.5 ++ [4, -0.25] := rfl
  have spent : ((Fifo.new 1).run events).2.stock = [] := by decide +kernel
  have all : heard = List.replicate 9000 0.5 ++ [4, -0.25] := by
    rw [← accepted, ← lossless going, spent, List.append_nil]
  refine ⟨going, all, ?_, ?_⟩
  · have count := congrArg List.length all
    rw [List.length_append, List.length_replicate] at count
    exact played.trans count
  · rw [answers]
    decide +kernel

end FormulaSynth.Audio
