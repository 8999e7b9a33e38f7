import FormulaSynth.Proofs.Channels

/-!
# What an action does to a session

Seen from one place of a session, an action makes a few edits of the instrument there, and then it may recompile
it along with all the others. An import makes five edits everywhere. The deadline and the clock move with the
action and do not look at the instruments.
-/

set_option autoImplicit false
namespace FormulaSynth.Session
open Number Sound Audio

inductive Edit (α : Type)
  | formula (text : String)
  | period (text : String)
  | enabled (on : Bool)
  | volume (amount : α)
  | voice (index : Fin catalog.length)

section Editing
variable {α : Type} [Number α]

def Edit.apply : Edit α → Instrument α → Instrument α
  | .formula text, i => i.setFormula text
  | .period text, i => i.setPeriod text
  | .enabled on, i => i.setEnabled on
  | .volume amount, i => i.setVolume amount
  | .voice index, i => i.setVoice index

def Instrument.edited (i : Instrument α) (edits : List (Edit α)) : Instrument α :=
  edits.foldl (fun i e => e.apply i) i

theorem voiceIndex?_lt {name : String} {index : ℕ} (h : voiceIndex? name = some index) :
    index < catalog.length := by
  obtain ⟨inside, -, -⟩ := List.findIdx?_eq_some_iff_getElem.mp h
  exact inside

theorem voiceOrFirst_lt (name : String) : voiceOrFirst name < catalog.length := by
  unfold voiceOrFirst
  cases h : voiceIndex? name with
  | none => decide
  | some index => exact voiceIndex?_lt h

def Settings.edits (s : Settings α) : List (Edit α) :=
  [.formula s.formula, .period s.period, .volume s.volume, .enabled s.enabled,
    .voice ⟨voiceOrFirst s.voice, voiceOrFirst_lt s.voice⟩]

theorem configure_eq (i : Instrument α) (s : Settings α) : configure i s = i.edited s.edits := rfl

/-- A text or a setting of the mixer has nothing to do with what is compiled. -/
structure Retouched (i j : Instrument α) : Prop where
  id : j.id = i.id
  seenFormula : j.seenFormula = i.seenFormula
  program : j.program = i.program
  seenPeriod : j.seenPeriod = i.seenPeriod
  period : j.period = i.period

omit [Number α] in
theorem Retouched.refl (i : Instrument α) : Retouched i i := ⟨rfl, rfl, rfl, rfl, rfl⟩

theorem Edit.retouched (e : Edit α) (i : Instrument α) : Retouched i (e.apply i) := by
  cases e <;> exact ⟨rfl, rfl, rfl, rfl, rfl⟩

theorem Instrument.edited_retouched (i : Instrument α) (edits : List (Edit α)) :
    Retouched i (i.edited edits) := by
  induction edits generalizing i with
  | nil => exact .refl i
  | cons e edits ih =>
    have first := e.retouched i
    have rest := ih (e.apply i)
    exact ⟨rest.id.trans first.id, rest.seenFormula.trans first.seenFormula,
      rest.program.trans first.program, rest.seenPeriod.trans first.seenPeriod,
      rest.period.trans first.period⟩

end Editing

namespace Action
variable {α σ : Type} [Number α]

def voiceEdits (index : ℕ) : List (Edit α) :=
  if h : index < catalog.length then [.voice ⟨index, h⟩] else []

def editsAt (place : ℕ) : Action α σ → List (Edit α)
  | .setFormula id text => if id = place then [.formula text] else []
  | .setPeriod id text => if id = place then [.period text] else []
  | .setEnabled id on => if id = place then [.enabled on] else []
  | .setVolume id volume => if id = place then [.volume volume] else []
  | .setVoice id index => if id = place then voiceEdits index else []
  | .setVoiceNamed id name => if id = place then (voiceIndex? name).elim [] voiceEdits else []
  | .importSettings settings => (settings.getD place .blank).edits
  | _ => []

def isPass (s : Session α) : Action α σ → Bool
  | .importSettings _ => true
  | a => a.recompiles s

def retypes (s : Session α) : Action α σ → Bool
  | .setFormula id _ | .setPeriod id _ => id < s.instruments.length
  | _ => false

def nanos : Action α σ → ℕ
  | .advance nanos => nanos
  | _ => 0

def updates (s : Session α) : Action α σ → List PlotUpdate
  | .update => s.update.1
  | .flush => s.flush.1
  | .importSettings settings => (s.importSettings settings).1
  | _ => []

/-- What the action leaves at a place where there was `i`. -/
def leaves (s : Session α) (a : Action α σ) (place : ℕ) (i : Instrument α) : Instrument α :=
  if a.isPass s then (i.edited (a.editsAt place)).recompiled else i.edited (a.editsAt place)

end Action

variable {α σ : Type} [Number α]

theorem Clock.advance_zero (c : Clock) : c.advance 0 = c := by
  simp [Clock.advance]

theorem getElem?_modify_edited (is : List (Instrument α)) (id place : ℕ) (edits : List (Edit α)) :
    (is.modify id (·.edited edits))[place]? =
      is[place]?.map fun i => i.edited (if id = place then edits else []) := by
  rw [List.getElem?_modify]
  by_cases here : id = place <;> simp [here, Instrument.edited]

structure Performed (s : Session α) (a : Action α σ) (t : Session α) : Prop where
  instruments (place : ℕ) : t.instruments[place]? = s.instruments[place]?.map (a.leaves s place)
  clock : t.clock = s.clock.advance a.nanos
  debounce : t.debounce = s.debounce
  deadline : t.deadline =
    if a.isPass s then none else if a.retypes s then some (s.clock.now + s.debounce) else s.deadline

theorem performed_of_stay {s t : Session α} {a : Action α σ} (stays : a.isPass s = false)
    (instruments : ∀ place : ℕ, t.instruments[place]? = s.instruments[place]?.map (·.edited (a.editsAt place)))
    (clock : t.clock = s.clock.advance a.nanos) (debounce : t.debounce = s.debounce)
    (deadline : t.deadline = if a.retypes s then some (s.clock.now + s.debounce) else s.deadline) :
    Performed s a t := by
  refine ⟨fun place => ?_, clock, debounce, by simp [stays, deadline]⟩
  have leaves : a.leaves s place = (·.edited (a.editsAt place)) := by
    funext i
    simp [Action.leaves, stays]
  rw [instruments, leaves]

theorem performed_of_same {s : Session α} {a : Action α σ} (stays : a.isPass s = false)
    (silent : ∀ place, a.editsAt place = []) (types : a.retypes s = false) (still : a.nanos = 0) (changed : Bool)
    (renderer : Renderer α) : Performed s a { s with changed := changed, renderer := renderer } := by
  refine performed_of_stay stays ?_ (by rw [still, Clock.advance_zero]) rfl (by simp [types])
  intro place
  simp [silent, Instrument.edited]

theorem performed_of_modify {s t : Session α} {a : Action α σ} {id : ℕ} {edits : List (Edit α)}
    (stays : a.isPass s = false) (places : ∀ place, a.editsAt place = if id = place then edits else [])
    (still : a.nanos = 0) (instruments : t.instruments = s.instruments.modify id (·.edited edits))
    (clock : t.clock = s.clock) (debounce : t.debounce = s.debounce)
    (deadline : t.deadline = if a.retypes s then some (s.clock.now + s.debounce) else s.deadline) :
    Performed s a t := by
  refine performed_of_stay stays ?_ (by rw [still, Clock.advance_zero, clock]) debounce deadline
  intro place
  rw [instruments, getElem?_modify_edited, places]

omit [Number α] in
theorem onInstrument_eq (s : Session α) (id : ℕ) (f : Instrument α → Instrument α) :
    s.onInstrument id f = { s with
      instruments := s.instruments.modify id f
      changed := s.changed || decide (id < s.instruments.length) } := by
  unfold onInstrument
  split
  · simp [*]
  · rename_i outside
    simp [outside, List.modify_eq_self (Nat.le_of_not_lt outside)]

omit [Number α] in
theorem editText_eq (s : Session α) (id : ℕ) (f : Instrument α → Instrument α) :
    s.editText id f = { s.onInstrument id f with
      deadline := if id < s.instruments.length then some (s.clock.now + s.debounce) else s.deadline } := by
  unfold editText
  rw [onInstrument_eq]
  split
  · rfl
  · rename_i outside
    simp [outside, List.modify_eq_self (Nat.le_of_not_lt outside)]

theorem setVoice_eq (s : Session α) (id index : ℕ) :
    s.setVoice id index =
      if index < catalog.length then s.onInstrument id (·.edited (Action.voiceEdits index)) else s := by
  unfold setVoice voice?
  by_cases known : index < catalog.length
  · simp [known, Action.voiceEdits, Instrument.edited, Edit.apply]
  · simp [known]

theorem setVoice_performed {s : Session α} {a : Action α σ} {id index : ℕ} (stays : a.isPass s = false)
    (places : ∀ place, a.editsAt place = if id = place then Action.voiceEdits index else [])
    (types : a.retypes s = false) (still : a.nanos = 0) : Performed s a (s.setVoice id index) := by
  rw [setVoice_eq]
  split
  · rw [onInstrument_eq]
    exact performed_of_modify stays places still rfl rfl rfl (by simp [types])
  · rename_i unknown
    refine performed_of_same stays ?_ types still _ _
    simp [places, Action.voiceEdits, unknown]

variable [Silence σ]

theorem render_performed (s : Session α) {δ : Type} [NoteDevice δ σ] (device : δ) (progress : Progress α)
    (cancelled : ℕ → Bool) :
    Performed s (.render (σ := σ) device progress cancelled)
      (s.renderWith (σ := σ) device progress cancelled).session := by
  cases changed : s.changed with
  | false =>
    rw [renderWith_unchanged s device progress cancelled changed]
    exact performed_of_same rfl (fun _ => rfl) rfl rfl _ _
  | true =>
    rw [renderWith_changed s device progress cancelled changed]
    exact performed_of_same rfl (fun _ => rfl) rfl rfl _ _

structure Meets (s : Session α) (a : Action α σ) (met : Session α) : Prop where
  performs : s.perform a = met.flush.2
  tells : a.updates s = met.flush.1
  instruments (place : ℕ) : met.instruments[place]? = s.instruments[place]?.map (·.edited (a.editsAt place))
  clock : met.clock = s.clock.advance a.nanos
  debounce : met.debounce = s.debounce

theorem exists_meets {s : Session α} {a : Action α σ} (passes : a.isPass s = true) :
    ∃ met : Session α, Meets s a met := by
  cases a with
  | importSettings settings =>
    refine ⟨_, rfl, rfl, fun place => ?_, s.clock.advance_zero.symm, rfl⟩
    rw [List.getElem?_mapIdx]
    rfl
  | update =>
    have due : s.isDue = true := passes
    refine ⟨s, ?_, ?_, fun _ => Option.map_id_apply.symm, s.clock.advance_zero.symm, rfl⟩
    · simp [perform, update, due]
    · simp [Action.updates, update, due]
  | flush => exact ⟨s, rfl, rfl, fun _ => Option.map_id_apply.symm, s.clock.advance_zero.symm, rfl⟩
  | _ => exact absurd passes Bool.false_ne_true

theorem Meets.ids {s met : Session α} {a : Action α σ} (h : Meets s a met) :
    met.instruments.map Instrument.id = s.instruments.map Instrument.id := by
  refine List.ext_getElem? fun place => ?_
  rw [List.getElem?_map, List.getElem?_map, h.instruments, Option.map_map]
  refine congrFun (congrArg Option.map ?_) _
  funext i
  exact (i.edited_retouched _).id

theorem Meets.length {s met : Session α} {a : Action α σ} (h : Meets s a met) :
    met.instruments.length = s.instruments.length := by
  simpa using congrArg List.length h.ids

theorem performed_of_pass {s : Session α} {a : Action α σ} (passes : a.isPass s = true) :
    Performed s a (s.perform a) := by
  obtain ⟨met, meets⟩ := exists_meets passes
  rw [meets.performs, flush_eq]
  refine ⟨fun place => ?_, meets.clock, meets.debounce, by simp [passes]⟩
  have leaves : a.leaves s place = Instrument.recompiled ∘ (·.edited (a.editsAt place)) := by
    funext i
    simp [Action.leaves, passes]
  rw [List.getElem?_map, meets.instruments, leaves, Option.map_map]

theorem performed (s : Session α) (a : Action α σ) : Performed s a (s.perform a) := by
  by_cases passes : a.isPass s = true
  · exact performed_of_pass passes
  have stays : a.isPass s = false := Bool.eq_false_iff.mpr passes
  cases a with
  | setFormula id text =>
    rw [perform, setFormula, editText_eq, onInstrument_eq]
    exact performed_of_modify rfl (fun _ => rfl) rfl rfl rfl rfl (by simp [Action.retypes])
  | setPeriod id text =>
    rw [perform, setPeriod, editText_eq, onInstrument_eq]
    exact performed_of_modify rfl (fun _ => rfl) rfl rfl rfl rfl (by simp [Action.retypes])
  | setEnabled id on =>
    rw [perform, setEnabled, onInstrument_eq]
    exact performed_of_modify rfl (fun _ => rfl) rfl rfl rfl rfl rfl
  | setVolume id volume =>
    rw [perform, setVolume, onInstrument_eq]
    exact performed_of_modify rfl (fun _ => rfl) rfl rfl rfl rfl rfl
  | setVoice id index => exact setVoice_performed rfl (fun _ => rfl) rfl rfl
  | setVoiceNamed id name =>
    rw [perform, setVoiceNamed]
    cases named : voiceIndex? name with
    | none =>
      refine performed_of_same rfl ?_ rfl rfl _ _
      simp [Action.editsAt, named]
    | some index =>
      refine setVoice_performed rfl ?_ rfl rfl
      simp [Action.editsAt, named]
  | advance nanos => exact performed_of_stay rfl (fun _ => Option.map_id_apply.symm) rfl rfl rfl
  | update =>
    have early : s.isDue = false := stays
    rw [perform, update, early]
    exact performed_of_same (s := s) stays (fun _ => rfl) rfl rfl _ _
  | flush => exact absurd rfl passes
  | importSettings settings => exact absurd rfl passes
  | markChanged => exact performed_of_same rfl (fun _ => rfl) rfl rfl _ _
  | markRendered => exact performed_of_same rfl (fun _ => rfl) rfl rfl _ _
  | takeScore =>
    rw [perform, takeScore]
    split
    · exact performed_of_same rfl (fun _ => rfl) rfl rfl _ _
    · exact performed_of_same rfl (fun _ => rfl) rfl rfl _ _
  | render device progress cancelled => exact render_performed s device progress cancelled

theorem comes_of_pass {s : Session α} {a : Action α σ} (passes : a.isPass s = true) {place : ℕ} {j : Instrument α}
    (found : (s.perform a).instruments[place]? = some j) :
    ∃ i, s.instruments[place]? = some i ∧ j = (i.edited (a.editsAt place)).recompiled := by
  rw [(performed s a).instruments, Option.map_eq_some_iff] at found
  obtain ⟨i, there, rfl⟩ := found
  exact ⟨i, there, by simp [Action.leaves, passes]⟩

theorem comes_of_stay {s : Session α} {a : Action α σ} (stays : a.isPass s = false) {place : ℕ} {j : Instrument α}
    (found : (s.perform a).instruments[place]? = some j) :
    ∃ i, s.instruments[place]? = some i ∧ j = i.edited (a.editsAt place) := by
  rw [(performed s a).instruments, Option.map_eq_some_iff] at found
  obtain ⟨i, there, rfl⟩ := found
  exact ⟨i, there, by simp [Action.leaves, stays]⟩

section Invariants
variable {P : Instrument α → Prop}

theorem Instrument.edited_keeps (edit : ∀ (e : Edit α) (i : Instrument α), P i → P (e.apply i)) {i : Instrument α}
    (h : P i) (edits : List (Edit α)) : P (i.edited edits) :=
  List.foldlRecOn edits _ h fun i h e _ => edit e i h

theorem Built.forall_instruments (new : ∀ id, P (.new id)) {s : Session α} (h : Built s) :
    ∀ i ∈ s.instruments, P i := by
  have fresh (count : ℕ) : ∀ i ∈ (List.range count).map (Instrument.new (α := α)), P i := by
    intro i mem
    obtain ⟨id, -, rfl⟩ := List.mem_map.mp mem
    exact new id
  induction h with
  | new count => exact fresh count
  | ofConfig c => exact fresh c.instrumentCount
  | withDebounce _ _ ih => exact ih
  | withDuration _ _ ih => exact ih
  | withRenderer _ _ ih => exact ih

variable (edit : ∀ (e : Edit α) (i : Instrument α), P i → P (e.apply i))
  (recompile : ∀ i : Instrument α, P i → P i.recompiled)
include edit recompile

theorem perform_forall {s : Session α} (all : ∀ i ∈ s.instruments, P i) (a : Action α σ) :
    ∀ i ∈ (s.perform a).instruments, P i := by
  intro j mem
  obtain ⟨place, found⟩ := List.mem_iff_getElem?.mp mem
  cases passes : a.isPass s with
  | true =>
    obtain ⟨i, there, rfl⟩ := comes_of_pass passes found
    exact recompile _ (Instrument.edited_keeps edit (all i (List.mem_of_getElem? there)) _)
  | false =>
    obtain ⟨i, there, rfl⟩ := comes_of_stay passes found
    exact Instrument.edited_keeps edit (all i (List.mem_of_getElem? there)) _

/-- What holds of a new instrument and outlives edits and recompilations holds of every instrument there is. -/
theorem Reachable.forall_instruments (new : ∀ id, P (.new id)) {s : Session α} (h : Reachable σ s) :
    ∀ i ∈ s.instruments, P i := by
  obtain ⟨start, built, actions, rfl⟩ := h
  exact List.foldlRecOn (motive := fun s : Session α => ∀ i ∈ s.instruments, P i) actions perform
    (built.forall_instruments new) fun _ all a _ => perform_forall edit recompile all a

end Invariants

end FormulaSynth.Session
