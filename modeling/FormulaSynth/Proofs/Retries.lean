import FormulaSynth.Device.Tone
import FormulaSynth.Number.Machine
import FormulaSynth.Proofs.Calls
import FormulaSynth.Proofs.Runs

set_option autoImplicit false
namespace FormulaSynth
open Number Audio Device

namespace Device.ToneDevice
variable {α : Type} [Number α]

/-- A device with the same rate, seed and master volume that has not been used. -/
def renewed (d : ToneDevice α) : ToneDevice α := { new d.rate d.seed with master := d.master }

theorem renewed_release (d : ToneDevice α) (channel : ℕ) : (d.release channel).renewed = d.renewed := rfl

theorem renewed_makeRoom (d : ToneDevice α) : d.makeRoom.renewed = d.renewed := by
  unfold makeRoom
  split
  · rfl
  · rfl

theorem renewed_start (d : ToneDevice α) (channel : ℕ) (c : Channel) (key velocity : ℕ) :
    (d.start channel c key velocity).renewed = d.renewed := rfl

theorem renewed_command (d : ToneDevice α) (c : Command) : (d.command c).renewed = d.renewed := by
  cases c with
  | noteOn channel key velocity =>
    change (d.noteOn channel key velocity).renewed = d.renewed
    unfold noteOn
    split
    · rw [renewed_start, renewed_makeRoom, renewed_release]
    · rfl
  | _ => rfl

variable {σ : Type} [Narrow α σ]

theorem renewed_renderFrames (d : ToneDevice α) (samples : Array σ) (frames : ℕ) :
    (d.renderFrames samples frames).1.renewed = d.renewed := by
  induction frames generalizing d samples with
  | zero => rfl
  | succ frames ih => exact ih d.mixFrame.2 _

theorem renewed_render (d : ToneDevice α) (left right : ℕ) :
    (NoteDevice.render (σ := σ) d left right).1.renewed = d.renewed :=
  renewed_renderFrames d (Array.mkEmpty (α := σ) (Nat.min left right)) (Nat.min left right)

variable [Silence σ]

/-- The devices that `start` can become: by commands and rendered frames in any order, and by whole renders,
    which may be cancelled anywhere. -/
inductive Reached (σ : Type) [Narrow α σ] [Silence σ] (start : ToneDevice α) : ToneDevice α → Prop
  | start : Reached σ start start
  | command {d : ToneDevice α} (h : Reached σ start d) (c : Command) : Reached σ start (d.command c)
  | render {d : ToneDevice α} (h : Reached σ start d) (left right : ℕ) :
      Reached σ start (NoteDevice.render (σ := σ) d left right).1
  | score {d : ToneDevice α} (h : Reached σ start d) (r : Renderer α) (score : Score α)
      (progress : Progress α) (cancelled : ℕ → Bool) :
      Reached σ start (r.renderWith (σ := σ) score d progress cancelled).device

theorem Reached.keeps {P : ToneDevice α → Prop} (command : ∀ d c, P d → P (d.command c))
    (render : ∀ (d : ToneDevice α) (left right : ℕ), P d → P (NoteDevice.render (σ := σ) d left right).1)
    {start d : ToneDevice α} (h : P start) (reached : Reached σ start d) : P d := by
  induction reached with
  | start => exact h
  | command _ c ih => exact command _ c ih
  | render _ left right ih => exact render _ left right ih
  | score _ r score progress cancelled ih => exact r.renderWith_keeps score _ progress cancelled command render ih

theorem Reached.renewed {start d : ToneDevice α} (h : Reached σ start d) : d.renewed = start.renewed :=
  h.keeps (P := fun e => e.renewed = start.renewed) (fun e c kept => (renewed_command e c).trans kept)
    (fun e left right kept => (renewed_render (σ := σ) e left right).trans kept) rfl

end Device.ToneDevice

namespace Audio.Renderer
variable {α σ : Type} [Number α] [Narrow α σ]

def renewed (r : Renderer α) : Renderer α := { new r.rate with velocity := r.velocity }

theorem follow_renewed (r : Renderer α) (score : Score α) (d : ToneDevice α) (buffer : SampleBuffer σ) :
    (⟨d, buffer⟩ : Take (ToneDevice α) σ).follow (r.calls score) =
      (⟨d.renewed, buffer⟩ : Take (ToneDevice α) σ).follow (r.renewed.calls score) := rfl

end Audio.Renderer

namespace Session
variable {α σ : Type} [Number α] [Silence σ]

/-- What becomes of `s` by attempts to render it that fail, on any devices and for any reasons. -/
inductive Failing (σ : Type) [Silence σ] (s : Session α) : Session α → Prop
  | none : Failing σ s s
  | more {t : Session α} (h : Failing σ s t) {δ : Type} [NoteDevice δ σ] (device : δ) (progress : Progress α)
      (cancelled : ℕ → Bool) (error : RenderError α)
      (fails : (t.renderWith (σ := σ) device progress cancelled).result = some (.error error)) :
      Failing σ s (t.renderWith (σ := σ) device progress cancelled).session

theorem renderWith_of_error {δ : Type} [NoteDevice δ σ] (s : Session α) (device : δ) (progress : Progress α)
    (cancelled : ℕ → Bool) {error : RenderError α}
    (fails : (s.renderWith (σ := σ) device progress cancelled).result = some (.error error)) :
    ∃ scheduler, (s.renderWith (σ := σ) device progress cancelled).session =
      { s with renderer := { s.renderer with scheduler := scheduler } } := by
  cases changed : s.changed with
  | false =>
    rw [renderWith_unchanged s device progress cancelled changed] at fails
    cases fails
  | true =>
    rw [renderWith_changed s device progress cancelled changed] at fails ⊢
    have failed := Option.some.inj fails
    obtain ⟨scheduler, kept⟩ := s.renderer.renderer_of_error s.score device progress cancelled failed
    refine ⟨scheduler, ?_⟩
    dsimp only at failed ⊢
    rw [failed, kept, ← changed]

theorem Failing.kept {s t : Session α} (h : Failing σ s t) :
    t = { s with renderer := { s.renderer with scheduler := t.renderer.scheduler } } := by
  induction h with
  | none => rfl
  | more _ device progress cancelled error fails ih =>
    obtain ⟨scheduler, kept⟩ := renderWith_of_error _ device progress cancelled fails
    rw [kept, ih]

variable [Narrow α σ]

/-- Attempts that fail leave no more behind than the list of the last schedule. The next one that succeeds
    answers what a new renderer and a new device would, whatever its device has been through. -/
theorem render_after_failures {s t : Session α} {start device : ToneDevice α} (changed : s.changed = true)
    (failures : Failing σ s t) (reached : ToneDevice.Reached σ start device) :
    t = { s with renderer := { s.renderer with scheduler := t.renderer.scheduler } } ∧
    ∀ progress : Progress α, progress.cancelled = false → invalid? s.renderer.rate s.score = none →
      let fresh : Rendered α (ToneDevice α) σ := s.renderer.renewed.render s.score start.renewed .new
      let next : Attempt α (ToneDevice α) σ := t.render device progress
      ∃ buffer, fresh.result = .ok buffer ∧ next.result = some (.ok buffer) ∧ next.session.changed = false := by
  have kept := failures.kept
  refine ⟨kept, ?_⟩
  intro progress running valid fresh next
  have score : t.score = s.score := by rw [kept]; rfl
  have rate : t.renderer.rate = s.renderer.rate := by rw [kept]
  have up : t.changed = true := by rw [kept]; exact changed
  have finishes : fresh = s.renderer.renewed.finished s.score start.renewed .new :=
    Renderer.renderWith_of_quiet s.renderer.renewed s.score start.renewed .new _ valid fun _ _ => rfl
  have completes : t.renderer.renderWith (σ := σ) t.score device progress (fun _ => progress.cancelled) =
      t.renderer.finished t.score device progress := by
    refine Renderer.renderWith_of_quiet t.renderer t.score device progress _ ?_ fun _ _ => running
    rw [rate, score]
    exact valid
  have heard : (t.renderer.finished (σ := σ) t.score device progress).result = fresh.result := by
    have take := s.renderer.follow_renewed (σ := σ) s.score device (s.renderer.silence s.score)
    rw [finishes, score, kept, ← reached.renewed]
    exact congrArg (fun take : Take (ToneDevice α) σ => Except.ok take.buffer) take
  refine ⟨_, by rw [finishes]; rfl, ?_, ?_⟩
  · change (t.renderWith (σ := σ) device progress fun _ => progress.cancelled).result = _
    rw [renderWith_changed t device progress _ up, completes]
    change some (t.renderer.finished (σ := σ) t.score device progress).result = _
    rw [heard, finishes]
    rfl
  · change (t.renderWith (σ := σ) device progress fun _ => progress.cancelled).session.changed = _
    rw [renderWith_changed t device progress _ up, completes]
    rfl

/-- Two frames a second for two seconds, with a note at each second: a render is cancelled before the second
    one, on a device that has been played before. -/
theorem render_after_cancelled_attempt :
    let edits : List (Action Float Sample) := [.setFormula 0 "x", .setPeriod 0 "1", .setEnabled 0 true, .flush]
    let s := edits.foldl perform (((new 1).withDuration 2).withRenderer (.new 2))
    let start : ToneDevice Float := .new 2 7
    let played := start.command (.noteOn 3 60 100)
    let attempt : Attempt Float (ToneDevice Float) Sample := s.renderWith played .new (· == 1)
    let device := attempt.device
    s.changed = true ∧ Failing Sample s attempt.session ∧ ToneDevice.Reached Sample start device ∧
      attempt.session.instruments = s.instruments ∧
      ∃ buffer, (s.renderer.renewed.render (σ := Sample) s.score start.renewed .new).result = .ok buffer ∧
        (attempt.session.render device .new).result = some (.ok buffer) := by
  intro edits s start played attempt device
  have changed : s.changed = true := by decide +kernel
  have valid : invalid? s.renderer.rate s.score = none := by
    rw [← Option.isNone_iff_eq_none]
    decide +kernel
  have two : 1 < (Renderer.groups s.score).length := by decide +kernel
  have stops := s.renderer.renderWith_of_stop (σ := Sample) s.score played .new (· == 1) valid 1 two rfl
    (by decide)
  have attempted : attempt = s.renderWith (σ := Sample) played .new (· == 1) := rfl
  rw [renderWith_changed s played .new (· == 1) changed, stops] at attempted
  have fails : attempt.result = some (.error .cancelled) := by rw [attempted]; rfl
  have failures : Failing Sample s attempt.session := .more .none played .new (· == 1) .cancelled fails
  have reached : ToneDevice.Reached Sample start device := by
    have device : device = (s.renderer.renderWith (σ := Sample) s.score played .new (· == 1)).device := by
      rw [stops]
      exact congrArg Attempt.device attempted
    rw [device]
    exact .score (.command .start _) _ _ _ _
  obtain ⟨kept, next⟩ := render_after_failures changed failures reached
  obtain ⟨buffer, fresh, same, -⟩ := next .new rfl valid
  refine ⟨changed, failures, reached, ?_, buffer, fresh, same⟩
  rw [kept]

end Session
end FormulaSynth
