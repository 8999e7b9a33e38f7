import FormulaSynth.Proofs.Calls

set_option autoImplicit false
namespace FormulaSynth.Audio
open Device

/-- From frame `start` to frame `stop`, whatever commands come in between. -/
def Tiles (start stop : ℕ) : List Call → Prop
  | [] => start = stop
  | .command _ :: rest => Tiles start stop rest
  | .render position frames :: rest => position = start ∧ 0 < frames ∧ Tiles (start + frames) stop rest

def covers (frame : ℕ) : Call → Bool
  | .command _ => false
  | .render position frames => position ≤ frame && frame < position + frames

section Covering
variable {start middle stop : ℕ} {calls xs ys : List Call}

theorem Tiles.le (h : Tiles start stop calls) : start ≤ stop := by
  induction calls generalizing start with
  | nil => exact h.le
  | cons call calls ih =>
    cases call with
    | command c => exact ih h
    | render position frames =>
      obtain ⟨-, -, rest⟩ := h
      have := ih rest
      omega

theorem Tiles.append (h : Tiles start middle xs) (h' : Tiles middle stop ys) : Tiles start stop (xs ++ ys) := by
  induction xs generalizing start with
  | nil =>
    have eq : start = middle := h
    rw [eq]
    exact h'
  | cons call xs ih =>
    cases call with
    | command c => exact ih h
    | render position frames => exact ⟨h.1, h.2.1, ih h.2.2⟩

theorem Tiles.split (h : Tiles start stop (xs ++ ys)) : ∃ middle, Tiles start middle xs ∧ Tiles middle stop ys := by
  induction xs generalizing start with
  | nil => exact ⟨start, rfl, h⟩
  | cons call xs ih =>
    cases call with
    | command c => exact ih h
    | render position frames =>
      obtain ⟨here, pos, rest⟩ := h
      obtain ⟨middle, left, right⟩ := ih rest
      exact ⟨middle, ⟨here, pos, left⟩, right⟩

theorem tiles_commands (start : ℕ) (cs : List Command) : Tiles start start (cs.map .command) := by
  induction cs with
  | nil => rfl
  | cons c cs ih => exact ih

theorem tiles_span (start target : ℕ) : Tiles start (max start target) (spanCalls start target) := by
  unfold spanCalls
  split_ifs with ahead
  · refine ⟨rfl, Nat.sub_pos_of_lt ahead, ?_⟩
    change start + (target - start) = max start target
    omega
  · exact (max_eq_left (not_lt.mp ahead)).symm

theorem Tiles.countP_covers (h : Tiles start stop calls) (frame : ℕ) :
    calls.countP (covers frame) = if start ≤ frame ∧ frame < stop then 1 else 0 := by
  induction calls generalizing start with
  | nil =>
    have eq : start = stop := h
    rw [List.countP_nil, if_neg (by omega)]
  | cons call calls ih =>
    cases call with
    | command c =>
      rw [List.countP_cons_of_neg (by exact Bool.false_ne_true)]
      exact ih h
    | render position frames =>
      obtain ⟨rfl, pos, rest⟩ := h
      have later := rest.le
      rw [List.countP_cons, ih rest]
      simp only [covers, Bool.and_eq_true, decide_eq_true_eq]
      split_ifs <;> omega

end Covering

section Filling
variable {σ : Type}

section Writing
variable (start : ℕ) (channel : Array σ)

def written (n : ℕ) (g : (i : ℕ) → i < n → σ) : Array σ :=
  n.fold (fun i h channel => channel.setIfInBounds (start + i) (g i h)) channel

theorem written_succ (n : ℕ) (g : (i : ℕ) → i < n + 1 → σ) :
    written start channel (n + 1) g =
      (written start channel n fun i h => g i (Nat.lt_succ_of_lt h)).setIfInBounds (start + n)
        (g n (Nat.lt_succ_self n)) :=
  Nat.fold_succ ..

theorem size_written (n : ℕ) (g : (i : ℕ) → i < n → σ) : (written start channel n g).size = channel.size := by
  induction n with
  | zero => rfl
  | succ n ih => rw [written_succ, Array.size_setIfInBounds, ih]

theorem written_before (n : ℕ) (g : (i : ℕ) → i < n → σ) {frame : ℕ} (before : frame < start) :
    (written start channel n g)[frame]? = channel[frame]? := by
  induction n with
  | zero => rfl
  | succ n ih => rw [written_succ, Array.getElem?_setIfInBounds_ne (by omega), ih]

theorem written_at (n : ℕ) (g : (i : ℕ) → i < n → σ) {i : ℕ} (h : i < n) (inside : start + i < channel.size) :
    (written start channel n g)[start + i]? = some (g i h) := by
  induction n with
  | zero => exact absurd h (Nat.not_lt_zero i)
  | succ n ih =>
    rw [written_succ]
    by_cases last : i = n
    · subst last
      rw [Array.getElem?_setIfInBounds_self_of_lt (by rw [size_written]; exact inside)]
    · rw [Array.getElem?_setIfInBounds_ne (by omega)]
      exact ih _ (by omega)

theorem overlay_at {samples : Array σ} {i : ℕ} (h : i < samples.size) (inside : start + i < channel.size) :
    (overlay channel start samples)[start + i]? = samples[i]? := by
  rw [Array.getElem?_eq_getElem h]
  exact written_at start channel samples.size (fun i h => samples[i]) h inside

end Writing

variable {δ : Type} [NoteDevice δ σ]

def answer (device : δ) (frames : ℕ) : Array σ × Array σ := (NoteDevice.render (σ := σ) device frames frames).2

theorem obey_render (t : Take δ σ) (start : ℕ) {frames : ℕ} (pos : 0 < frames) :
    (t.obey (.render start frames)).buffer =
      { t.buffer with
        left := overlay t.buffer.left start (answer (σ := σ) t.device frames).1
        right := overlay t.buffer.right start (answer (σ := σ) t.device frames).2 } := by
  have length : start + frames - start = frames := Nat.add_sub_cancel_left start frames
  change (t.buffer.renderSpan t.device start (start + frames)).1 = _
  rw [SampleBuffer.renderSpan, if_pos (Nat.lt_add_of_pos_right pos), length]
  rfl

theorem follow_sizes (t : Take δ σ) {start stop : ℕ} {calls : List Call} (tiles : Tiles start stop calls) :
    (t.follow calls).buffer.left.size = t.buffer.left.size ∧
      (t.follow calls).buffer.right.size = t.buffer.right.size := by
  induction calls generalizing t start with
  | nil => exact ⟨rfl, rfl⟩
  | cons call calls ih =>
    cases call with
    | command c => exact ih (t.obey (.command c)) tiles
    | render position frames =>
      obtain ⟨-, pos, rest⟩ := tiles
      obtain ⟨left, right⟩ := ih (t.obey (.render position frames)) rest
      rw [obey_render t position pos] at left right
      exact ⟨left.trans (size_written ..), right.trans (size_written ..)⟩

theorem follow_before (t : Take δ σ) {start stop frame : ℕ} {calls : List Call} (tiles : Tiles start stop calls)
    (before : frame < start) :
    (t.follow calls).buffer.left[frame]? = t.buffer.left[frame]? ∧
      (t.follow calls).buffer.right[frame]? = t.buffer.right[frame]? := by
  induction calls generalizing t start with
  | nil => exact ⟨rfl, rfl⟩
  | cons call calls ih =>
    cases call with
    | command c => exact ih (t.obey (.command c)) tiles before
    | render position frames =>
      obtain ⟨rfl, pos, rest⟩ := tiles
      obtain ⟨left, right⟩ := ih (t.obey (.render position frames)) rest (by omega)
      rw [obey_render t position pos] at left right
      exact ⟨left.trans (written_before _ _ _ _ before), right.trans (written_before _ _ _ _ before)⟩

/-- Each frame ends up as the device answered it. -/
theorem follow_fills (t : Take δ σ) {stop : ℕ} {calls : List Call} (tiles : Tiles 0 stop calls)
    (room : stop ≤ t.buffer.left.size ∧ stop ≤ t.buffer.right.size) {before after : List Call}
    {position frames : ℕ} (eq : calls = before ++ .render position frames :: after) :
    let given := answer (σ := σ) (t.follow before).device frames
    given.1.size = frames → given.2.size = frames → ∀ i < frames,
      (t.follow calls).buffer.left[position + i]? = given.1[i]? ∧
        (t.follow calls).buffer.right[position + i]? = given.2[i]? := by
  intro given leftFull rightFull i inside
  rw [eq] at tiles
  obtain ⟨middle, earlier, rfl, pos, later⟩ := tiles.split
  have bound := later.le
  have sizes := follow_sizes t earlier
  have ends : t.follow calls = ((t.follow before).obey (.render position frames)).follow after := by
    rw [eq, follow_append]
    rfl
  obtain ⟨left, right⟩ := follow_before ((t.follow before).obey (.render position frames)) later
    (Nat.add_lt_add_left inside position)
  rw [ends, left, right, obey_render _ _ pos]
  exact ⟨overlay_at _ _ (leftFull.symm ▸ inside) (by omega), overlay_at _ _ (rightFull.symm ▸ inside) (by omega)⟩

end Filling

section Recording
variable {σ : Type} [Silence σ]

theorem follow_recorder (t : Take Recorder σ) {stop : ℕ} {calls : List Call}
    (tiles : Tiles t.device.position stop calls) (goes_on : .command .reset ∉ calls) :
    (t.follow calls).device.log = t.device.log ++ calls := by
  induction calls generalizing t with
  | nil => exact (List.append_nil _).symm
  | cons call calls ih =>
    have rest_goes_on : .command .reset ∉ calls := fun mem => goes_on (List.mem_cons_of_mem call mem)
    cases call with
    | command c =>
      have other : c ≠ .reset := fun eq => goes_on (by rw [eq]; exact List.mem_cons_self)
      have position : (t.obey (.command c)).device.position = t.device.position := if_neg other
      have log : (t.obey (.command c)).device.log = t.device.log ++ [.command c] := List.reverse_cons
      have rest := ih (t.obey (.command c)) (by rw [position]; exact tiles) rest_goes_on
      rw [log, List.append_assoc] at rest
      exact rest
    | render position frames =>
      obtain ⟨rfl, pos, tiles⟩ := tiles
      have length : t.device.position + frames - t.device.position = frames := Nat.add_sub_cancel_left _ frames
      have device : (t.obey (.render t.device.position frames)).device = t.device.render frames := by
        change (t.buffer.renderSpan t.device t.device.position (t.device.position + frames)).2 = _
        rw [SampleBuffer.renderSpan, if_pos (Nat.lt_add_of_pos_right pos), length]
        rfl
      have log : (t.device.render frames).log = t.device.log ++ [.render t.device.position frames] :=
        List.reverse_cons
      have rest := ih (t.obey (.render t.device.position frames)) (by rw [device]; exact tiles) rest_goes_on
      rw [device, log, List.append_assoc] at rest
      exact rest

end Recording
end FormulaSynth.Audio
