import FormulaSynth.Proofs.Doubles
import FormulaSynth.Proofs.Groups

set_option autoImplicit false
namespace FormulaSynth.Audio.Renderer
open Number Score Device

section Cells
variable {α : Type} [Number α]

/-- The cell when `g` groups are done: the fraction of the onsets that lie in them. -/
def cellAfter (score : Score α) (progress : Progress α) : ℕ → Progress α
  | 0 => progress
  | g + 1 =>
    progress.set (Number.ofNat ((groups score).take (g + 1)).flatten.length /
      Number.ofNat (onsets score).length)

variable {δ σ : Type} [NoteDevice δ σ] [Silence σ]

theorem playList_ready_cell (r : Renderer α) (score : Score α) (device : δ) (progress : Progress α) (g : ℕ)
    (h : g ≤ (groups score).length) :
    ((r.ready score device progress : Stage α δ σ).playList ((r.scoreSections score).take g)).progress =
      cellAfter score progress g := by
  cases g with
  | zero => rfl
  | succ g => exact playList_ready_progress r score device progress g h

theorem set_between [Ordered α] {p : Progress α} {a : α} (number : le a a = true) (above : le 0 a = true)
    (below : le a 1 = true) : (p.set a).fraction = a := by
  rw [Progress.set, isNaN, clamp, number, Ordered.not_lt_of_le above, Ordered.not_lt_of_le below]
  rfl

theorem set_one [Ordered α] (p : Progress α) : (p.set 1).fraction = 1 :=
  set_between (Ordered.ofNat_le le_rfl) (Ordered.zero_le_ofNat 1) (Ordered.ofNat_le le_rfl)

end Cells

variable {α δ σ : Type} [Number α] [NoteDevice δ σ] [Silence σ]

/-- Whatever is answered when the render asks, it stops before the first group for which the answer is yes, with
    the device and the cell as they are when the groups before are done, or it is the render that nobody cancels.
    The groups are the onsets of each distinct time. A render that is refused leaves device and cell as they were. -/
theorem render_stops_between_groups [Ordered α] (r : Renderer α) (score : Score α) (device : δ)
    (progress : Progress α) (cancelled : ℕ → Bool) :
    let done : Rendered α δ σ := r.renderWith score device progress cancelled
    let whole : Rendered α δ σ := r.renderWith score device progress fun _ => false
    let follow (calls : List Call) : Take δ σ := (⟨device, r.silence score⟩ : Take δ σ).follow calls
    let sound := 0 < r.rate ∧ isFinite score.duration = true ∧ le 0 score.duration = true
    (r.rate = 0 → done = ⟨.error (.invalidSampleRate 0), r, device, progress⟩) ∧
    (0 < r.rate → ¬sound → done = ⟨.error (.invalidDuration score.duration), r, device, progress⟩) ∧
    (∀ before part after, sound → score.parts = before ++ part :: after →
      (∀ p ∈ before, p.id < channelCount) → channelCount ≤ part.id →
        done = ⟨.error (.channelOutOfRange part.id), r, device, progress⟩) ∧
    (Renderable r.rate score →
      (∀ g < (groups score).length, cancelled g = true → (∀ k < g, cancelled k = false) →
        done.result = .error .cancelled ∧ done.device = (follow (r.callsUpTo score g)).device ∧
          done.progress = cellAfter score progress g) ∧
      ((∀ g < (groups score).length, cancelled g = false) → done = whole) ∧
      whole.result = .ok (follow (r.calls score)).buffer ∧ whole.device = (follow (r.calls score)).device ∧
        whole.progress.fraction = 1) ∧
    (∀ g, r.callsUpTo score g <+: r.calls score) ∧
    (Distinct (onsets score) (times score) ∧
      groups score = (times score).map (fun t => (onsets score).filter fun onset => same onset.time t) ∧
      (groups score).flatten = onsets score) ∧
    ∀ error, done.result = .error error → done.renderer.stats = r.stats := by
  intro done whole follow sound
  refine ⟨?_, ?_, ?_, ?_, r.callsUpTo_prefix score, ⟨times_distinct score, groups_eq, groups_flatten⟩, ?_⟩
  · intro rate
    exact renderWith_of_invalid r score device progress cancelled (invalid?_of_rate rate)
  · intro positive unsound
    have duration := fun h => unsound ⟨positive, h⟩
    exact renderWith_of_invalid r score device progress cancelled (invalid?_of_duration positive duration)
  · rintro before part after ⟨positive, finite, nonneg⟩ parts inside beyond
    exact renderWith_of_invalid r score device progress cancelled
      (invalid?_of_channel positive finite nonneg parts inside beyond)
  · intro renderable
    have uncancelled : whole = r.finished score device progress :=
      renderWith_of_quiet r score device progress _ renderable.valid fun _ _ => rfl
    refine ⟨?_, ?_, ?_⟩
    · intro g inside stop quiet
      have stops : done = r.stopped score device progress g :=
        renderWith_of_stop r score device progress cancelled renderable.valid g inside stop quiet
      have take := playList_ready (σ := σ) r score device progress g
      rw [stops]
      refine ⟨rfl, congrArg Take.device take, ?_⟩
      exact playList_ready_cell r score device progress g inside.le
    · intro quiet
      rw [uncancelled]
      exact renderWith_of_quiet r score device progress cancelled renderable.valid quiet
    · rw [uncancelled]
      exact ⟨rfl, rfl, set_one _⟩
  · intro error failed
    obtain ⟨scheduler, kept⟩ := renderer_of_error r score device progress cancelled failed
    change (r.renderWith (σ := σ) score device progress cancelled).renderer.stats = r.stats
    rw [kept]

/-- Two notes, a second apart: the cancellation that is seen before the second one leaves the device where the
    first one has begun. With the second part, on a channel that does not exist, nothing happens at all. -/
theorem render_stops_before_second_note :
    let line : Formula.Program := ⟨#[.arg], #[], [], 1⟩
    let low : VoicedPart Float := ⟨⟨0, line, 1⟩, 0, .first, 100⟩
    let high : VoicedPart Float := ⟨⟨16, line, 1⟩, 1, .first, 100⟩
    let r : Renderer Float := .new 2
    let done : Rendered Float Recorder Sample := r.renderWith ⟨[low], 2⟩ .new .new (· == 1)
    let refused : Rendered Float Recorder Sample := r.renderWith ⟨[low, high], 2⟩ .new .new (· == 1)
    Renderable 2 (⟨[low], 2⟩ : Score Float) ∧ done.result = .error .cancelled ∧
      done.device.log = [.command .reset, .command (.voice 0 .first), .command (.volume 0 100), .render 0 2,
        .command (.noteOff 0), .command (.noteOn 0 52 40)] ∧
      done.progress.fraction = 0.5 ∧ done.renderer.stats = .zero ∧
      refused = ⟨.error (.channelOutOfRange 16), r, .new, .new⟩ := by
  intro line low high r done refused
  have finite : isFinite (2 : Float) = true := by decide +kernel
  have nonneg : le 0 (2 : Float) = true := by decide +kernel
  have inside : ∀ p ∈ [low], p.id < channelCount := by decide
  have renderable : Renderable 2 (⟨[low], 2⟩ : Score Float) := ⟨two_pos, finite, nonneg, inside⟩
  have two : 1 < (groups (⟨[low], 2⟩ : Score Float)).length := by decide +kernel
  obtain ⟨-, -, -, playing, -, -, kept⟩ :=
    render_stops_between_groups (σ := Sample) r ⟨[low], 2⟩ Recorder.new Progress.new (· == 1)
  obtain ⟨-, -, channel, -⟩ :=
    render_stops_between_groups (σ := Sample) r ⟨[low, high], 2⟩ Recorder.new Progress.new (· == 1)
  obtain ⟨cancelled, device, cell⟩ := (playing renderable).1 1 two rfl (by decide)
  refine ⟨renderable, cancelled, ?_, ?_, kept .cancelled cancelled, ?_⟩
  · rw [device]
    decide +kernel
  · rw [cell]
    decide +kernel
  · exact channel [low] high [] ⟨two_pos, finite, nonneg⟩ rfl inside le_rfl

end FormulaSynth.Audio.Renderer
