import FormulaSynth.Document.Config
import FormulaSynth.Proofs.Artifacts
import FormulaSynth.Proofs.Restoring

set_option autoImplicit false
namespace FormulaSynth
open Number Device Score

section Clamping
variable {α : Type} [Number α] {x lo hi : α}

theorem clamp_finite (hx : isFinite x = true) (hlo : isFinite lo = true) (hhi : isFinite hi = true) :
    isFinite (clamp x lo hi) = true := by
  unfold clamp
  split_ifs <;> assumption

theorem clamp_bounds [Ordered α] (hx : isFinite x = true) (hlo : isFinite lo = true) (hhi : isFinite hi = true)
    (bounds : le lo hi = true) : le lo (clamp x lo hi) = true ∧ le (clamp x lo hi) hi = true := by
  have x_self := Ordered.le_self hx
  have lo_self := Ordered.le_self hlo
  have hi_self := Ordered.le_self hhi
  unfold clamp
  split_ifs with low high
  · exact ⟨lo_self, bounds⟩
  · exact ⟨bounds, hi_self⟩
  · exact ⟨Ordered.le_of_not_lt lo_self x_self (Bool.eq_false_iff.mpr low),
      Ordered.le_of_not_lt x_self hi_self (Bool.eq_false_iff.mpr high)⟩

end Clamping

/-- What the clean-up of a configuration makes sure of. -/
structure Config.Clean (c : Config Float) : Prop where
  rate : 0 < c.rate
  finite : isFinite c.duration = true
  positive : lt 0 c.duration = true
  slots : 1 ≤ c.instrumentCount ∧ c.instrumentCount ≤ channelCount
  master : le 0 c.master = true ∧ le c.master 1 = true
  velocity : c.velocity ≤ 127

theorem Config.clean_default : (Config.default : Config Float).Clean where
  rate := by decide
  finite := by decide +kernel
  positive := by decide +kernel
  slots := by decide
  master := by decide +kernel
  velocity := by decide

theorem Config.clean_sanitized (raw : Config Float) : raw.sanitized.Clean := by
  have standard := Config.clean_default
  have zero : le (0 : Float) 0 = true := by decide +kernel
  refine ⟨?_, ?_, ?_, ?_, ?_, min_le_right _ _⟩
  · change 0 < if raw.rate = 0 then _ else raw.rate
    split_ifs with none
    · exact standard.rate
    · exact Nat.pos_of_ne_zero none
  · change isFinite (if _ then _ else raw.duration) = true
    split_ifs with wrong
    · exact standard.finite
    · simp only [Bool.or_eq_true, Bool.not_eq_true', not_or, Bool.not_eq_false] at wrong
      exact wrong.1
  · change lt 0 (if _ then _ else raw.duration) = true
    split_ifs with wrong
    · exact standard.positive
    · simp only [Bool.or_eq_true, Bool.not_eq_true', not_or, Bool.not_eq_false] at wrong
      exact Ordered.lt_of_not_le (Ordered.le_self wrong.1) zero (Bool.eq_false_iff.mpr wrong.2)
  · change 1 ≤ min (max raw.instrumentCount 1) channelCount ∧
      min (max raw.instrumentCount 1) channelCount ≤ channelCount
    exact ⟨le_min (le_max_right _ _) (by decide), min_le_right _ _⟩
  · change le 0 (if _ then clamp raw.master 0 1 else _) = true ∧ le (if _ then clamp raw.master 0 1 else _) 1 = true
    split_ifs with finite
    · exact clamp_bounds finite (by decide +kernel) (by decide +kernel) (by decide +kernel)
    · exact standard.master

theorem Document.readConfig?_sanitized {text : String} {c : Config Float} (h : readConfig? text = some c) :
    ∃ raw : Config Float, raw.sanitized = c := by
  obtain ⟨raw, -, eq⟩ := Option.bind_eq_some_iff.mp h
  exact ⟨raw, Option.some.inj eq⟩

namespace Session
open Audio

structure Instrument.Tuned (i : Instrument Float) : Prop where
  program : ∀ p, i.program = some p → ∃ text, Text.allBlank text = false ∧ Formula.compile text = .ok p
  period : ∀ q, i.period = some q → isFinite q = true ∧ le 0.1 q = true ∧ le q Number.tau = true

theorem Instrument.tuned_new (id : ℕ) : (Instrument.new id : Instrument Float).Tuned :=
  ⟨fun _ h => (nomatch h), fun _ h => (nomatch h)⟩

theorem compiled_of_programOf {text : String} {p : Formula.Program} (h : programOf text = .ok (some p)) :
    Text.allBlank text = false ∧ Formula.compile text = .ok p := by
  unfold programOf at h
  split at h
  · cases h
  · rename_i written
    refine ⟨Bool.eq_false_iff.mpr written, ?_⟩
    cases compiled : Formula.compile text with
    | error fault =>
      rw [compiled] at h
      cases h
    | ok program =>
      rw [compiled] at h
      cases h
      rfl

theorem clampPeriod_bounds {value q : Float} (h : clampPeriod value = some q) :
    isFinite q = true ∧ le 0.1 q = true ∧ le q Number.tau = true := by
  rw [clampPeriod_eq] at h
  split at h
  · rename_i sound
    cases h
    have finite : isFinite value = true := (Bool.and_eq_true_iff.mp sound).1
    have low : isFinite (0.1 : Float) = true := by decide +kernel
    have high : isFinite (Number.tau : Float) = true := by decide +kernel
    exact ⟨clamp_finite finite low high, clamp_bounds finite low high (by decide +kernel)⟩
  · cases h

theorem bounds_of_periodOf {text : String} {q : Float} (h : periodOf text = .ok (some q)) :
    isFinite q = true ∧ le 0.1 q = true ∧ le q Number.tau = true := by
  unfold periodOf at h
  split at h
  · cases h
  · unfold compilePeriod at h
    cases compiled : Formula.compile text with
    | error fault =>
      rw [compiled] at h
      cases h
    | ok program =>
      rw [compiled] at h
      exact clampPeriod_bounds (Except.ok.inj h)

theorem getD_toOption_cases {β : Type} {r : Except Formula.Fault (Option β)} {old : Option β} {b : β}
    (h : r.toOption.getD old = some b) : old = some b ∨ r = .ok (some b) := by
  cases r with
  | error fault => exact Or.inl h
  | ok v =>
    have eq : v = some b := h
    exact Or.inr (congrArg Except.ok eq)

theorem Instrument.Tuned.recompiled {i : Instrument Float} (h : i.Tuned) : i.recompiled.Tuned := by
  constructor
  · intro p found
    change i.nextProgram = some p at found
    unfold nextProgram at found
    split at found
    · exact h.program p found
    · rcases getD_toOption_cases found with old | new
      · exact h.program p old
      · exact ⟨i.formula, compiled_of_programOf new⟩
  · intro q found
    change i.nextPeriod = some q at found
    unfold nextPeriod at found
    split at found
    · exact h.period q found
    · rcases getD_toOption_cases found with old | new
      · exact h.period q old
      · exact bounds_of_periodOf new

variable {σ : Type} [Silence σ]

theorem Reachable.tuned {s : Session Float} (h : Reachable σ s) : ∀ i ∈ s.instruments, i.Tuned := by
  refine h.forall_instruments ?_ (fun _ tuned => tuned.recompiled) Instrument.tuned_new
  intro e i tuned
  have kept := e.retouched i
  refine ⟨fun p => ?_, fun q => ?_⟩
  · rw [kept.program]
    exact tuned.program p
  · rw [kept.period]
    exact tuned.period q

section Actions
variable {α : Type} [Number α] (s : Session α) (a : Action α σ)

theorem perform_duration : (s.perform a).duration = s.duration := by
  cases clears : a.clears s with
  | true => exact (perform_of_clears clears).2.1
  | false =>
    cases recompiles : a.recompiles s with
    | true => rw [perform_of_recompiles recompiles, flush_eq]
    | false => exact (perform_edited clears recompiles).duration

theorem perform_length : (s.perform a).instruments.length = s.instruments.length := by
  simpa using congrArg List.length (perform_ids s a)

theorem renderWith_rate {δ : Type} [NoteDevice δ σ] (r : Renderer α) (score : Score α) (device : δ)
    (progress : Progress α) (cancelled : ℕ → Bool) :
    (r.renderWith (σ := σ) score device progress cancelled).renderer.rate = r.rate := by
  rcases r.renderWith_cases (σ := σ) score device progress cancelled with ⟨error, eq⟩ | ⟨g, eq⟩ | eq
  · rw [eq]
  · rw [eq]
    rfl
  · rw [eq]
    rfl

omit [Silence σ] in
theorem setVoice_rate (id index : ℕ) : (s.setVoice id index).renderer.rate = s.renderer.rate := by
  rw [setVoice_eq]
  split
  · rw [onInstrument_eq]
  · rfl

theorem perform_rate : (s.perform a).renderer.rate = s.renderer.rate := by
  cases a with
  | render device progress cancelled =>
    cases changed : s.changed with
    | false => rw [perform, renderWith_unchanged s device progress cancelled changed]
    | true =>
      rw [perform, renderWith_changed s device progress cancelled changed]
      exact renderWith_rate s.renderer s.score device progress cancelled
  | setFormula id text => rw [perform, setFormula, editText_eq, onInstrument_eq]
  | setPeriod id text => rw [perform, setPeriod, editText_eq, onInstrument_eq]
  | setEnabled id on => rw [perform, setEnabled, onInstrument_eq]
  | setVolume id volume => rw [perform, setVolume, onInstrument_eq]
  | setVoice id index => exact setVoice_rate s id index
  | setVoiceNamed id name =>
    rw [perform, setVoiceNamed]
    split
    · exact setVoice_rate s id _
    · rfl
  | update =>
    rw [perform, update]
    split <;> rfl
  | takeScore =>
    rw [perform, takeScore]
    split <;> rfl
  | _ => rfl

theorem run_kept (actions : List (Action α σ)) :
    (actions.foldl perform s).duration = s.duration ∧
      (actions.foldl perform s).instruments.length = s.instruments.length ∧
      (actions.foldl perform s).renderer.rate = s.renderer.rate :=
  List.foldlRecOn (motive := fun t : Session α => t.duration = s.duration ∧
      t.instruments.length = s.instruments.length ∧ t.renderer.rate = s.renderer.rate) actions perform ⟨rfl, rfl, rfl⟩
    fun t kept a _ => ⟨(perform_duration t a).trans kept.1, (perform_length t a).trans kept.2.1,
      (perform_rate t a).trans kept.2.2⟩

end Actions

section Parts
variable {α : Type} [Number α] {s : Session α}

theorem index_of_part {k : ℕ} {part : VoicedPart α} (found : s.score.parts[k]? = some part) : part.index = k := by
  -- for all places at once, because every push moves the end of the list
  have placed : ∀ (k : ℕ) (part : VoicedPart α), s.score.parts[k]? = some part → part.index = k := by
    rw [score_eq]
    refine List.foldlRecOn (motive := fun score : Score α => ∀ (k : ℕ) (part : VoicedPart α),
      score.parts[k]? = some part → part.index = k) _ _ (fun _ _ found => (nomatch found)) ?_
    intro score ih v _ k part found
    rw [pushVoiced, Score.push, List.getElem?_append] at found
    split at found
    · exact ih k part found
    · obtain ⟨last, value⟩ := List.getElem?_eq_some_iff.mp found
      rw [List.length_singleton] at last
      rw [List.getElem_singleton] at value
      rw [← value]
      change score.parts.length = k
      omega
  exact placed k part found

theorem mem_voiced_iff {v : Score.Part α × Sound.Voice × ℕ} :
    (∃ part ∈ s.score.parts, (part.toPart, part.voice, part.volume) = v) ↔ ∃ i ∈ s.instruments, i.voiced = some v := by
  have parts := parts_foldl_push (s.instruments.filterMap Instrument.voiced) (.empty s.duration)
  rw [← score_eq] at parts
  change _ = s.instruments.filterMap Instrument.voiced at parts
  rw [← List.mem_map, parts, List.mem_filterMap]

/-- The part is what the instrument adds to the score. -/
structure PlayedBy (part : VoicedPart α) (i : Instrument α) : Prop where
  enabled : i.enabled = true
  written : Text.allBlank i.formula = false
  program : i.program = some part.formula
  period : i.period = some part.period
  voice : part.voice = i.voice
  volume : part.volume = i.level

theorem playedBy_of_voiced {part : VoicedPart α} {i : Instrument α}
    (voiced : i.voiced = some (part.toPart, part.voice, part.volume)) : part.id = i.id ∧ PlayedBy part i := by
  unfold Instrument.voiced at voiced
  split at voiced
  · rename_i wanted
    obtain ⟨p, q, program, period, eq⟩ := Instrument.entry_eq_some.mp voiced
    obtain ⟨toPart, voice, volume⟩ : part.toPart = ⟨i.id, p, q⟩ ∧ part.voice = i.voice ∧ part.volume = i.level := by
      simpa using eq
    obtain ⟨enabled, written⟩ := Bool.and_eq_true_iff.mp wanted
    refine ⟨congrArg Part.id toPart, enabled, by simpa using written, ?_, ?_, voice, volume⟩
    · rw [program, congrArg Part.formula toPart]
    · rw [period, congrArg Part.period toPart]
  · cases voiced

omit [Number α] in
theorem Placed.getElem?_id {is : List (Instrument α)} (placed : Placed is) {i : Instrument α} (mem : i ∈ is) :
    is[i.id]? = some i := by
  obtain ⟨place, found⟩ := List.mem_iff_getElem?.mp mem
  rw [placed.id_eq found]
  exact found

theorem instrument_of_part (placed : Placed s.instruments) {part : VoicedPart α} (mem : part ∈ s.score.parts) :
    ∃ i, s.instruments[part.id]? = some i ∧ PlayedBy part i := by
  obtain ⟨i, inside, voiced⟩ := mem_voiced_iff.mp ⟨part, mem, rfl⟩
  obtain ⟨id, played⟩ := playedBy_of_voiced voiced
  exact ⟨i, by rw [id]; exact placed.getElem?_id inside, played⟩

theorem mem_ids_iff (placed : Placed s.instruments) {id : ℕ} {i : Instrument α} (found : s.instruments[id]? = some i) :
    id ∈ s.score.parts.map (·.id) ↔ i.isPlayable = true := by
  rw [← Instrument.voiced_isSome, List.mem_map]
  constructor
  · rintro ⟨part, mem, rfl⟩
    obtain ⟨j, inside, voiced⟩ := mem_voiced_iff.mp ⟨part, mem, rfl⟩
    have same := placed.getElem?_id inside
    rw [← (playedBy_of_voiced voiced).1, found] at same
    rw [Option.some.inj same, voiced]
    rfl
  · intro playable
    obtain ⟨v, voiced⟩ := Option.isSome_iff_exists.mp playable
    obtain ⟨part, mem, rfl⟩ := mem_voiced_iff.mpr ⟨i, List.mem_of_getElem? found, voiced⟩
    exact ⟨part, mem, (playedBy_of_voiced voiced).1.trans (placed.id_eq found)⟩

theorem ids_ascending (placed : Placed s.instruments) : (s.score.parts.map (·.id)).Pairwise (· < ·) := by
  have sublist := ids_scheduleInput s
  rw [placed, Score.scheduleInput, List.map_map] at sublist
  exact List.pairwise_lt_range.sublist sublist

end Parts

theorem level_le {i : Instrument Float} (h : IsVolume i.volume) : i.level ≤ 127 := by
  have one : Doubles.Holds (Number.ofNat 1) (1 : ℕ) := Doubles.holds_ofNat (by decide)
  have full : Doubles.Holds (Number.ofNat 127) (127 : ℕ) := Doubles.holds_ofNat (by decide)
  rcases Doubles.holds_or_infinite h.nonneg with ⟨q, nonneg, holds⟩ | infinite
  · have small : q ≤ (1 : ℕ) := holds.le one (by norm_num) h.full
    have product := full.mul holds
    have below : le (127 * i.volume) 127 = true := by
      refine (product.le_iff full.ranks).mpr (Doubles.code_le (by positivity) ?_)
      push_cast at small ⊢
      linarith
    have rounded := Doubles.roundToNat_le product.nonneg below
    have top : roundToNat (127 : Float) = 127 := by decide +kernel
    rw [top] at rounded
    exact (Nat.min_le_left _ _).trans rounded
  · have finite := Doubles.isFinite_of_holds one
    have contradiction : isFinite (Number.ofNat 1 : Float) = false :=
      Doubles.infinity_not_finite (Doubles.infinite_of_le infinite h.full)
    rw [finite] at contradiction
    cases contradiction

section Configuration
variable {c : Config Float}

theorem reachable_ofConfig (c : Config Float) (actions : List (Action Float σ)) :
    Reachable σ (actions.foldl perform (ofConfig c)) :=
  ⟨ofConfig c, .ofConfig c, actions, rfl⟩

theorem renderable_of_clean (clean : c.Clean) (actions : List (Action Float σ)) :
    let s := actions.foldl perform (ofConfig c)
    Renderable s.renderer.rate s.score := by
  intro s
  have kept : s.duration = c.duration ∧ s.instruments.length = (ofConfig c).instruments.length ∧
      s.renderer.rate = c.rate := run_kept (ofConfig c) actions
  obtain ⟨duration, length, rate⟩ := kept
  have slots : (ofConfig c).instruments.length = c.instrumentCount := by
    change ((List.range c.instrumentCount).map Instrument.new).length = _
    rw [List.length_map, List.length_range]
  refine renderable_score (reachable_ofConfig c actions).placed ?_ ?_ ?_ ?_
  · rw [length, slots]
    exact clean.slots.2
  · rw [duration]
    exact clean.finite
  · rw [duration]
    exact Ordered.le_of_lt clean.positive
  · rw [rate]
    exact clean.rate

end Configuration

theorem error_of_renderable {δ : Type} [NoteDevice δ σ] {s : Session Float}
    (renderable : Renderable s.renderer.rate s.score) {device : δ} {progress : Progress Float} {cancelled : ℕ → Bool}
    {error : RenderError Float}
    (failed : (s.renderWith (σ := σ) device progress cancelled).result = some (.error error)) :
    error = .cancelled ∧ ∃ g, cancelled g = true := by
  cases changed : s.changed with
  | false =>
    rw [renderWith_unchanged s device progress cancelled changed] at failed
    cases failed
  | true =>
    rw [renderWith_changed s device progress cancelled changed] at failed
    have result := Option.some.inj failed
    have asked : ∃ g, cancelled g = true := by
      by_contra quiet
      rw [Renderer.renderWith_of_quiet s.renderer s.score device progress cancelled renderable.valid
        fun k _ => Bool.eq_false_iff.mpr fun up => quiet ⟨k, up⟩] at result
      cases result
    refine ⟨?_, asked⟩
    obtain ⟨st, ended, plays⟩ : ∃ st ended, (s.renderer.ready s.score device progress : Stage Float δ σ).playAll
        cancelled 0 (s.renderer.scoreSections s.score) = (st, ended) := ⟨_, _, rfl⟩
    rw [Renderer.renderWith_of_playAll s.renderer s.score device progress cancelled renderable.valid plays] at result
    cases ended with
    | false =>
      cases result
      rfl
    | true => cases result

/-- A session that is built from a configuration, whatever stood in the file, and used in any way has a score in
    which every part is sound and has its place, and which consists of the instruments that can be heard. A render
    answers nothing when nothing has changed, and fails only when it is cancelled. -/
theorem configured_fails_by_cancellation {c : Config Float} (read : ∃ raw : Config Float, raw.sanitized = c)
    (actions : List (Action Float σ)) :
    let s := actions.foldl perform (ofConfig c)
    (s.score.parts.map (·.id)).Pairwise (· < ·) ∧
    (∀ (k : ℕ) (part : VoicedPart Float), s.score.parts[k]? = some part →
      part.index = k ∧ part.id < channelCount ∧ part.isSchedulable = true ∧ isFinite part.period = true ∧
        le 0.1 part.period = true ∧ le part.period Number.tau = true ∧ part.volume ≤ 127 ∧
        (∃ text, Text.allBlank text = false ∧ Formula.compile text = .ok part.formula) ∧
        ∃ i, s.instruments[part.id]? = some i ∧ PlayedBy part i) ∧
    (∀ (id : ℕ) (i : Instrument Float), s.instruments[id]? = some i →
      (id ∈ s.score.parts.map (·.id) ↔
        i.enabled = true ∧ i.program.isSome = true ∧ i.period.isSome = true ∧ Text.allBlank i.formula = false)) ∧
    ∀ {δ : Type} [NoteDevice δ σ] (device : δ) (progress : Progress Float) (cancelled : ℕ → Bool),
      let result := (s.renderWith (σ := σ) device progress cancelled).result
      (result.isNone = true ↔ s.changed = false) ∧
        ∀ error, result = some (.error error) → error = .cancelled ∧ ∃ g, cancelled g = true := by
  intro s
  obtain ⟨raw, rfl⟩ := read
  have reachable := reachable_ofConfig raw.sanitized actions
  have renderable := renderable_of_clean raw.clean_sanitized actions
  refine ⟨ids_ascending reachable.placed, ?_, ?_, ?_⟩
  · intro k part found
    have mem := List.mem_of_getElem? found
    obtain ⟨i, there, played⟩ := instrument_of_part reachable.placed mem
    have inside := List.mem_of_getElem? there
    have tuned := reachable.tuned i inside
    obtain ⟨finite, low, high⟩ := tuned.period _ played.period
    have volume := level_le (reachable.inRange i inside).volume
    rw [← played.volume] at volume
    exact ⟨index_of_part found, renderable.channels part mem, Bool.and_eq_true_iff.mpr ⟨finite, low⟩, finite, low, high,
      volume, tuned.program _ played.program, i, there, played⟩
  · intro id i found
    rw [mem_ids_iff reachable.placed found]
    unfold Instrument.isPlayable
    simp [and_assoc]
  · intro δ _ device progress cancelled
    exact ⟨renderWith_none_iff .., fun error failed => error_of_renderable renderable failed⟩

/-- Every value in the file is out of its range. The last of the slots that are left plays with the period and the
    volume that remain of its own, a slot with no texts and one that does not exist do not, and a render that is asked
    to stop stops. -/
theorem configured_from_faulty_file :
    let text := "sample_rate: 0\nduration_secs: -.inf\ninstrument_count: 99\nmaster_volume: .nan\nnote_velocity: 200\n"
    let c : Config Float := (Document.readConfig? text).getD .default
    let actions : List (Action Float Sample) := [.setFormula 15 "x", .setPeriod 15 "0.01", .setVolume 15 7,
      .setEnabled 15 true, .setEnabled 3 true, .setEnabled 16 true, .flush]
    let s := actions.foldl perform (ofConfig c)
    let attempt : Attempt Float Recorder Sample := s.renderWith .new .new (fun _ => true)
    Document.readConfig? text = some c ∧ c.instrumentCount = 16 ∧ s.score.parts.map (·.id) = [15] ∧
      (∀ part, s.score.parts[0]? = some part → le 0.1 part.period = true ∧ part.volume ≤ 127) ∧
      attempt.result.isNone = false ∧ ∀ error, attempt.result = some (.error error) → error = .cancelled := by
  intro text c actions s attempt
  have something : (Document.readConfig? text : Option (Config Float)).isSome = true := by decide +kernel
  have read : Document.readConfig? text = some c := by
    obtain ⟨d, eq⟩ := Option.isSome_iff_exists.mp something
    rw [eq]
    exact congrArg some (congrArg (Option.getD · Config.default) eq).symm
  obtain ⟨-, parts, -, render⟩ :=
    configured_fails_by_cancellation (σ := Sample) (Document.readConfig?_sanitized read) actions
  obtain ⟨quiet, failure⟩ := render Recorder.new Progress.new fun _ => true
  have changed : s.changed = true := by decide +kernel
  refine ⟨read, by decide +kernel, by decide +kernel, ?_, ?_, fun error failed => (failure error failed).1⟩
  · intro part found
    obtain ⟨-, -, -, -, low, -, volume, -⟩ := parts 0 part found
    exact ⟨low, volume⟩
  · refine Bool.eq_false_iff.mpr fun none => ?_
    rw [quiet.mp none] at changed
    cases changed

end Session
end FormulaSynth
