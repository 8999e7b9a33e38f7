import FormulaSynth.Proofs.Recompile

set_option autoImplicit false
namespace FormulaSynth.Session
open Number Audio

section Building
variable {α : Type} [Number α]

inductive Built : Session α → Prop
  | new (count : ℕ) : Built (new count)
  | ofConfig (c : Config α) : Built (ofConfig c)
  | withDebounce {s : Session α} (h : Built s) (nanos : ℕ) : Built (s.withDebounce nanos)
  | withDuration {s : Session α} (h : Built s) (duration : α) : Built (s.withDuration duration)
  | withRenderer {s : Session α} (h : Built s) (renderer : Renderer α) : Built (s.withRenderer renderer)

end Building

/-- A render may meet any device, and may be cancelled before any of its sections. -/
inductive Action (α σ : Type) : Type 1
  | setFormula (id : ℕ) (text : String)
  | setPeriod (id : ℕ) (text : String)
  | setEnabled (id : ℕ) (on : Bool)
  | setVolume (id : ℕ) (volume : α)
  | setVoice (id index : ℕ)
  | setVoiceNamed (id : ℕ) (name : String)
  | advance (nanos : ℕ)
  | update
  | flush
  | importSettings (settings : List (Settings α))
  | markChanged
  | markRendered
  | takeScore
  | render {δ : Type} [NoteDevice δ σ] (device : δ) (progress : Progress α) (cancelled : ℕ → Bool)

section Places
variable {α : Type}

def Placed (is : List (Instrument α)) : Prop := is.map Instrument.id = List.range is.length

theorem placed_of_ids_eq {is js : List (Instrument α)} (eq : js.map Instrument.id = is.map Instrument.id)
    (h : Placed is) : Placed js := by
  have length : js.length = is.length := by
    have lengths := congrArg List.length eq
    rw [List.length_map, List.length_map] at lengths
    exact lengths
  rw [Placed, eq, length]
  exact h

theorem Placed.nodup {is : List (Instrument α)} (h : Placed is) : (is.map Instrument.id).Nodup := by
  rw [h]
  exact List.nodup_range

theorem ids_modify {f : Instrument α → Instrument α} (keeps : ∀ i, (f i).id = i.id) (is : List (Instrument α))
    (n : ℕ) : (is.modify n f).map Instrument.id = is.map Instrument.id := by
  refine List.ext_getElem? ?_
  intro k
  rw [List.getElem?_map, List.getElem?_map, List.getElem?_modify, Option.map_eq_map, Option.map_map]
  refine congrFun (congrArg Option.map ?_) _
  funext i
  by_cases here : n = k
  · simp only [Function.comp_apply, here, if_true, keeps]
  · simp only [Function.comp_apply, here, if_false]

/-- What an edit can do: raise the flag, or nothing a score could tell. -/
structure Edited (s t : Session α) : Prop where
  duration : t.duration = s.duration
  ids : t.instruments.map Instrument.id = s.instruments.map Instrument.id
  raised : t.changed = true ∨ t.instruments = s.instruments ∧ t.changed = s.changed

theorem Edited.same {s t : Session α} (duration : t.duration = s.duration)
    (instruments : t.instruments = s.instruments) (changed : t.changed = s.changed) : Edited s t := by
  refine ⟨duration, ?_, Or.inr ⟨instruments, changed⟩⟩
  rw [instruments]

theorem onInstrument_edited {f : Instrument α → Instrument α} (keeps : ∀ i, (f i).id = i.id) (s : Session α)
    (n : ℕ) : Edited s (s.onInstrument n f) := by
  unfold onInstrument
  split
  · exact ⟨rfl, ids_modify keeps s.instruments n, Or.inl rfl⟩
  · exact .same rfl rfl rfl

theorem editText_edited {f : Instrument α → Instrument α} (keeps : ∀ i, (f i).id = i.id) (s : Session α)
    (n : ℕ) : Edited s (s.editText n f) := by
  have h := onInstrument_edited keeps s n
  unfold editText
  split
  · exact ⟨h.duration, h.ids, h.raised⟩
  · exact .same rfl rfl rfl

theorem setVoice_edited (s : Session α) (n index : ℕ) : Edited s (s.setVoice n index) := by
  unfold setVoice
  split
  · refine onInstrument_edited ?_ s n
    exact fun _ => rfl
  · exact .same rfl rfl rfl

end Places

variable {α σ : Type} [Number α] [Silence σ]

theorem Built.placed {s : Session α} (h : Built s) : Placed s.instruments := by
  have fresh : ∀ count : ℕ, Placed ((List.range count).map (Instrument.new (α := α))) := by
    intro count
    rw [Placed, List.map_map, List.length_map, List.length_range]
    exact List.map_id _
  induction h with
  | new count => exact fresh count
  | ofConfig c => exact fresh c.instrumentCount
  | withDebounce h nanos ih => exact ih
  | withDuration h duration ih => exact ih
  | withRenderer h renderer ih => exact ih

theorem Built.changed {s : Session α} (h : Built s) : s.changed = true := by
  induction h with
  | new count => rfl
  | ofConfig c => rfl
  | withDebounce h nanos ih => exact ih
  | withDuration h duration ih => exact ih
  | withRenderer h renderer ih => exact ih

def perform (s : Session α) : Action α σ → Session α
  | .setFormula id text => s.setFormula id text
  | .setPeriod id text => s.setPeriod id text
  | .setEnabled id on => s.setEnabled id on
  | .setVolume id volume => s.setVolume id volume
  | .setVoice id index => s.setVoice id index
  | .setVoiceNamed id name => (s.setVoiceNamed id name).2
  | .advance nanos => s.advance nanos
  | .update => s.update.2
  | .flush => s.flush.2
  | .importSettings settings => (s.importSettings settings).2
  | .markChanged => s.markChanged
  | .markRendered => s.markRendered
  | .takeScore => s.takeScore.2
  | @Action.render _ _ _ _ device progress cancelled =>
    (s.renderWith (σ := σ) device progress cancelled).session

section Rendering
variable {δ : Type} [NoteDevice δ σ] (s : Session α) (device : δ) (progress : Progress α)
  (cancelled : ℕ → Bool)

theorem renderWith_unchanged (h : s.changed = false) :
    s.renderWith (σ := σ) device progress cancelled = ⟨none, s, device, progress⟩ := by
  unfold renderWith takeScore
  rw [h]
  rfl

theorem renderWith_changed (h : s.changed = true) :
    s.renderWith (σ := σ) device progress cancelled =
      let done : Rendered α δ σ := s.renderer.renderWith s.score device progress cancelled
      let failed := match done.result with
        | .ok _ => false
        | .error _ => true
      ⟨some done.result, { s with renderer := done.renderer, changed := failed }, done.device,
        done.progress⟩ := by
  unfold renderWith takeScore
  rw [if_pos h]
  let done : Rendered α δ σ := s.renderer.renderWith s.score device progress cancelled
  let attempt (changed : Bool) : Attempt α δ σ :=
    ⟨some done.result, { s with renderer := done.renderer, changed := changed }, done.device, done.progress⟩
  exact congrArg attempt (Bool.false_or _)

theorem renderWith_none_iff :
    (s.renderWith (σ := σ) device progress cancelled).result.isNone = true ↔ s.changed = false := by
  cases h : s.changed with
  | false =>
    rw [renderWith_unchanged s device progress cancelled h]
    exact iff_of_true rfl rfl
  | true =>
    rw [renderWith_changed s device progress cancelled h]
    exact iff_of_false Bool.false_ne_true Bool.true_eq_false.mp

end Rendering

def Action.clears (s : Session α) : Action α σ → Bool
  | .markRendered => true
  | .takeScore => s.changed
  | @Action.render _ _ _ _ device progress cancelled =>
    match (s.renderWith (σ := σ) device progress cancelled).result with
    | some (.ok _) => true
    | _ => false
  | _ => false

def Action.recompiles (s : Session α) : Action α σ → Bool
  | .update => s.isDue
  | .flush => true
  | _ => false

theorem perform_of_clears {s : Session α} {a : Action α σ} (h : a.clears s = true) :
    (s.perform a).instruments = s.instruments ∧ (s.perform a).duration = s.duration ∧
      (s.perform a).changed = false := by
  cases a with
  | markRendered => exact ⟨rfl, rfl, rfl⟩
  | takeScore =>
    have changed : s.changed = true := h
    simp only [perform, takeScore, changed, if_true]
    exact ⟨rfl, rfl, rfl⟩
  | render device progress cancelled =>
    cases changed : s.changed with
    | false =>
      rw [Action.clears, renderWith_unchanged s device progress cancelled changed] at h
      exact absurd h Bool.false_ne_true
    | true =>
      rw [Action.clears, renderWith_changed s device progress cancelled changed] at h
      rw [perform, renderWith_changed s device progress cancelled changed]
      refine ⟨rfl, rfl, ?_⟩
      dsimp only at h ⊢
      cases result : (s.renderer.renderWith (σ := σ) s.score device progress cancelled).result with
      | ok buffer => rfl
      | error e =>
        rw [result] at h
        exact absurd h Bool.false_ne_true
  | _ => exact absurd h Bool.false_ne_true

theorem perform_of_recompiles {s : Session α} {a : Action α σ} (h : a.recompiles s = true) :
    s.perform a = s.flush.2 := by
  cases a with
  | update =>
    have due : s.isDue = true := h
    rw [perform, update, if_pos due]
  | flush => rfl
  | _ => exact absurd h Bool.false_ne_true

theorem flush_ids (s : Session α) :
    s.flush.2.instruments.map Instrument.id = s.instruments.map Instrument.id := by
  rw [flush_eq, List.map_map]
  rfl

theorem importSettings_edited (s : Session α) (settings : List (Settings α)) :
    Edited s (s.importSettings settings).2 := by
  refine ⟨rfl, ?_, Or.inl ?_⟩
  · rw [importSettings, flush_ids, List.mapIdx_eq_zipIdx_map, List.map_map]
    have ids : (Instrument.id ∘ fun p : Instrument α × ℕ => configure p.1 (settings.getD p.2 .blank)) =
        Instrument.id ∘ Prod.fst := rfl
    rw [ids, ← List.map_map, List.zipIdx_map_fst]
  · rw [importSettings, flush_eq, Bool.true_or]

theorem render_edited {δ : Type} [NoteDevice δ σ] (s : Session α) (device : δ) (progress : Progress α)
    (cancelled : ℕ → Bool)
    (clears : Action.clears s (.render (σ := σ) device progress cancelled) = false) :
    Edited s (s.perform (.render (σ := σ) device progress cancelled)) := by
  cases changed : s.changed with
  | false =>
    rw [perform, renderWith_unchanged s device progress cancelled changed]
    exact .same rfl rfl rfl
  | true =>
    rw [Action.clears, renderWith_changed s device progress cancelled changed] at clears
    rw [perform, renderWith_changed s device progress cancelled changed]
    refine ⟨rfl, rfl, Or.inl ?_⟩
    dsimp only at clears ⊢
    cases result : (s.renderer.renderWith (σ := σ) s.score device progress cancelled).result with
    | ok buffer =>
      rw [result] at clears
      exact absurd clears.symm Bool.false_ne_true
    | error e => rfl

theorem perform_edited {s : Session α} {a : Action α σ} (clears : a.clears s = false)
    (recompiles : a.recompiles s = false) : Edited s (s.perform a) := by
  cases a with
  | setFormula id text =>
    refine editText_edited ?_ s id
    exact fun _ => rfl
  | setPeriod id text =>
    refine editText_edited ?_ s id
    exact fun _ => rfl
  | setEnabled id on =>
    refine onInstrument_edited ?_ s id
    exact fun _ => rfl
  | setVolume id volume =>
    refine onInstrument_edited ?_ s id
    exact fun _ => rfl
  | setVoice id index => exact setVoice_edited s id index
  | setVoiceNamed id name =>
    rw [perform, setVoiceNamed]
    split
    · exact setVoice_edited s id _
    · exact .same rfl rfl rfl
  | advance nanos => exact .same rfl rfl rfl
  | update =>
    have early : s.isDue = false := recompiles
    rw [perform, update, early]
    exact .same rfl rfl rfl
  | flush => exact absurd recompiles.symm Bool.false_ne_true
  | importSettings settings => exact importSettings_edited s settings
  | markChanged => exact ⟨rfl, rfl, Or.inl rfl⟩
  | markRendered => exact absurd clears.symm Bool.false_ne_true
  | takeScore =>
    have unchanged : s.changed = false := clears
    rw [perform, takeScore, unchanged]
    exact .same rfl rfl rfl
  | render device progress cancelled => exact render_edited s device progress cancelled clears

theorem perform_ids (s : Session α) (a : Action α σ) :
    (s.perform a).instruments.map Instrument.id = s.instruments.map Instrument.id := by
  cases clears : a.clears s with
  | true => rw [(perform_of_clears clears).1]
  | false =>
    cases recompiles : a.recompiles s with
    | true =>
      rw [perform_of_recompiles recompiles]
      exact flush_ids s
    | false => exact (perform_edited clears recompiles).ids

end FormulaSynth.Session
