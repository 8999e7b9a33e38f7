import FormulaSynth.Proofs.Artifacts
import FormulaSynth.Proofs.Restoring

set_option autoImplicit false
namespace FormulaSynth.Session
open Number Formula Sound

namespace Settings
variable {α : Type} [Number α]

/-- The program of an instrument that gets these settings. Only a faulty formula leaves what there was. -/
def programOver (g : Settings α) (i : Instrument α) : Option Program :=
  if sound g.formula then compiled? g.formula else i.program

def periodOver (g : Settings α) (i : Instrument α) : Option α :=
  if sound g.period then measured? g.period else i.period

/-- What a score holds of it, the mixer aside. -/
def heardOver (g : Settings α) (i : Instrument α) : Option (Program × α) :=
  if g.enabled && !Text.allBlank g.formula then
    (g.programOver i).bind fun program => (g.periodOver i).map (program, ·)
  else none

theorem heardOver_eq {g : Settings α} (faultless : g.enabled = true → Text.allBlank g.formula = false →
    sound g.formula = true ∧ sound g.period = true) (i j : Instrument α) : g.heardOver i = g.heardOver j := by
  unfold heardOver
  split
  · rename_i wanted
    obtain ⟨enabled, written⟩ := Bool.and_eq_true_iff.mp wanted
    obtain ⟨formula, period⟩ := faultless enabled (by simpa using written)
    simp [programOver, periodOver, formula, period]
  · rfl

end Settings

section Configured
variable {α : Type} [Number α] {i : Instrument α}

theorem Settled.configure (h : Settled i) (g : Settings α) : Settled (configure i g) := by
  rw [configure_eq]
  exact Instrument.edited_keeps (fun e _ h => h.apply e) h g.edits

theorem Settled.configured_program (h : Settled i) (g : Settings α) :
    (Session.configure i g).recompiled.program = g.programOver i := by
  change (Session.configure i g).nextProgram = _
  rw [(h.configure g).nextProgram]
  change (programOf g.formula).toOption.getD i.program = _
  rw [programOf_toOption, Settings.programOver]
  cases sound g.formula <;> rfl

theorem Settled.configured_period (h : Settled i) (g : Settings α) :
    (Session.configure i g).recompiled.period = g.periodOver i := by
  change (Session.configure i g).nextPeriod = _
  rw [(h.configure g).nextPeriod]
  change (periodOf g.period).toOption.getD i.period = _
  rw [periodOf_toOption, Settings.periodOver]
  cases sound g.period <;> rfl

theorem Settled.configured_voiced (h : Settled i) (g : Settings α) :
    (Session.configure i g).recompiled.voiced = (g.heardOver i).map fun heard =>
      (⟨i.id, heard.1, heard.2⟩, (voice? (voiceOrFirst g.voice)).getD .first,
        Nat.min (roundToNat (127 * tidyVolume g.volume)) 255) := by
  have wanted : (Session.configure i g).recompiled.wanted = (g.enabled && !Text.allBlank g.formula) := rfl
  rw [Instrument.voiced, wanted, h.configured_program, h.configured_period, Settings.heardOver]
  split
  · unfold Instrument.entry
    cases g.programOver i with
    | none => rfl
    | some program => cases g.periodOver i <;> rfl
  · rfl

theorem configured_voiced_iff {j : Instrument α} (hi : Settled i) (hj : Settled j) (id : i.id = j.id) (g : Settings α) :
    (configure i g).recompiled.voiced = (configure j g).recompiled.voiced ↔ g.heardOver i = g.heardOver j := by
  rw [hi.configured_voiced, hj.configured_voiced, id]
  refine (Option.map_injective ?_).eq_iff
  intro one other same
  simp only [Prod.mk.injEq, Score.Part.mk.injEq, and_true, true_and] at same
  exact Prod.ext same.1 same.2

end Configured

section Scores
variable {α : Type} [Number α]

theorem filterMap_voiced_iff_places {is js : List (Instrument α)} (hi : Placed is) (hj : Placed js)
    (slots : js.length = is.length) :
    is.filterMap Instrument.voiced = js.filterMap Instrument.voiced ↔
      ∀ (place : ℕ) (i j : Instrument α), is[place]? = some i → js[place]? = some j → i.voiced = j.voiced := by
  let across (i : Instrument α) : Instrument α := (js[i.id]?).getD i
  have keeps (i : Instrument α) : (across i).id = i.id := by
    change ((js[i.id]?).getD i).id = i.id
    cases found : js[i.id]? with
    | none => rfl
    | some j => exact hj.id_eq found
  have across_at {place : ℕ} {i : Instrument α} (found : is[place]? = some i) : js[place]? = some (across i) := by
    have inside : place < js.length := slots ▸ (List.getElem?_eq_some_iff.mp found).1
    simp [across, hi.id_eq found, inside]
  have image : is.map across = js := by
    refine List.ext_getElem? fun place => ?_
    rw [List.getElem?_map]
    cases found : is[place]? with
    | none =>
      rw [List.getElem?_eq_none_iff, ← slots] at found
      exact (List.getElem?_eq_none_iff.mpr found).symm
    | some i => exact (across_at found).symm
  have pairwise := filterMap_voiced_iff keeps hi.nodup
  rw [image] at pairwise
  rw [pairwise]
  constructor
  · intro same place i j found there
    rw [across_at found] at there
    cases there
    exact same i (List.mem_of_getElem? found)
  · intro same i mem
    obtain ⟨place, found⟩ := List.mem_iff_getElem?.mp mem
    exact same place i (across i) found (across_at found)

theorem importSettings_placed {s : Session α} (placed : Placed s.instruments) (settings : List (Settings α)) :
    Placed (s.importSettings settings).2.instruments :=
  placed_of_ids_eq (importSettings_edited s settings).ids placed

theorem importSettings_length (s : Session α) (settings : List (Settings α)) :
    (s.importSettings settings).2.instruments.length = s.instruments.length := by
  simp [importSettings, flush_eq]

end Scores

variable {α σ : Type} [Number α] [Silence σ]

theorem Reachable.settled {s : Session α} (h : Reachable σ s) : ∀ i ∈ s.instruments, Settled i :=
  h.forall_instruments (fun e _ h => h.apply e) (fun _ h => h.recompiled) settled_new

theorem imported_score_iff {s t : Session α} (hs : Reachable σ s) (ht : Reachable σ t)
    (slots : t.instruments.length = s.instruments.length) (duration : t.duration = s.duration)
    (settings : List (Settings α)) :
    (s.importSettings settings).2.score = (t.importSettings settings).2.score ↔
      ∀ (place : ℕ) (i j : Instrument α), s.instruments[place]? = some i → t.instruments[place]? = some j →
        (settings.getD place .blank).heardOver i = (settings.getD place .blank).heardOver j := by
  have same {place : ℕ} {i j : Instrument α} (here : s.instruments[place]? = some i)
      (there : t.instruments[place]? = some j) :=
    configured_voiced_iff (hs.settled i (List.mem_of_getElem? here)) (ht.settled j (List.mem_of_getElem? there))
      ((hs.placed.id_eq here).trans (ht.placed.id_eq there).symm) (settings.getD place .blank)
  have lasts : (t.importSettings settings).2.duration = (s.importSettings settings).2.duration := duration
  rw [score_eq_iff lasts, filterMap_voiced_iff_places (importSettings_placed hs.placed settings)
    (importSettings_placed ht.placed settings) (by simpa only [importSettings_length] using slots)]
  constructor
  · intro voiced place i j here there
    refine (same here there).mp (voiced place _ _ ?_ ?_)
    · rw [importSettings_at, here, Option.map_some]
    · rw [importSettings_at, there, Option.map_some]
  · intro heard place i' j' here there
    rw [importSettings_at, Option.map_eq_some_iff] at here there
    obtain ⟨i, here, rfl⟩ := here
    obtain ⟨j, there, rfl⟩ := there
    exact (same here there).mpr (heard place i j here there)

/-- After an import nothing is left of the session before but what faulty texts leave: the program of an instrument
    that gets a faulty formula, and the period of one that gets a faulty period. Two sessions export the same, and
    they play the same unless an instrument is heard of which they leave something else. -/
theorem import_replaces {s t : Session α} (hs : Reachable σ s) (ht : Reachable σ t)
    (slots : t.instruments.length = s.instruments.length) (duration : t.duration = s.duration)
    (settings : List (Settings α)) :
    let imported := (s.importSettings settings).2
    let other := (t.importSettings settings).2
    imported.exportSettings = other.exportSettings ∧
    imported.instruments.length = s.instruments.length ∧
    (∀ (place : ℕ) (i j : Instrument α), s.instruments[place]? = some i → imported.instruments[place]? = some j →
      j.program = (settings.getD place .blank).programOver i ∧
        j.period = (settings.getD place .blank).periodOver i) ∧
    (imported.score = other.score ↔
      ∀ (place : ℕ) (i j : Instrument α), s.instruments[place]? = some i → t.instruments[place]? = some j →
        (settings.getD place .blank).heardOver i = (settings.getD place .blank).heardOver j) ∧
    ((∀ g ∈ settings.take s.instruments.length, g.enabled = true → Text.allBlank g.formula = false →
        sound g.formula = true ∧ sound g.period = true) →
      imported.score = other.score) := by
  intro imported other
  have score := imported_score_iff hs ht slots duration settings
  refine ⟨?_, importSettings_length s settings, ?_, score, ?_⟩
  · rw [exportSettings_imported, exportSettings_imported, slots]
  · intro place i j here there
    rw [importSettings_at, here, Option.map_some, Option.some.injEq] at there
    subst there
    have settled := hs.settled i (List.mem_of_getElem? here)
    exact ⟨settled.configured_program _, settled.configured_period _⟩
  · intro faultless
    refine score.mpr fun place i j here _ => Settings.heardOver_eq ?_ i j
    have inside : place < s.instruments.length := (List.getElem?_eq_some_iff.mp here).1
    cases given : settings[place]? with
    | none =>
      intro enabled
      simp [List.getD, given, Settings.blank] at enabled
    | some g =>
      have listed : g ∈ settings.take s.instruments.length := by
        refine List.mem_of_getElem? (i := place) ?_
        rw [List.getElem?_take_of_lt inside, given]
      simpa [List.getD, given] using faultless g listed

/-- A new session plays nothing after an import of a faulty formula, and a session in use goes on with its own. -/
theorem import_keeps_program :
    let edits : List (Action Float Sample) := [.setFormula 0 "x", .setPeriod 0 "1", .flush]
    let used := edits.foldl perform (new 1)
    let fresh : Session Float := new 1
    let settings : List (Settings Float) := [⟨"x+", "1", 1, "", true⟩]
    Reachable Sample used ∧ Reachable Sample fresh ∧ fresh.instruments.length = used.instruments.length ∧
      fresh.duration = used.duration ∧
      (used.importSettings settings).2.score ≠ (fresh.importSettings settings).2.score := by
  intro edits used fresh settings
  refine ⟨⟨_, .new 1, edits, rfl⟩, ⟨_, .new 1, [], rfl⟩, by decide +kernel, rfl, ?_⟩
  intro same
  have counts := congrArg (fun score : Score Float => score.parts.length) same
  exact absurd counts (by decide +kernel)

/-- A session in use and a new one, and settings whose only faulty texts are where nothing is heard. -/
theorem import_replaces_used_session :
    let edits : List (Action Float Sample) := [.setFormula 0 "x", .setPeriod 0 "1", .flush, .setFormula 1 "2"]
    let used := edits.foldl perform (new 2)
    let fresh : Session Float := new 2
    let settings : List (Settings Float) := [⟨"x*2", "0.5", 1, "", true⟩, ⟨"x+", "1", 3, "Tuba", false⟩]
    Reachable Sample used ∧ Reachable Sample fresh ∧ fresh.instruments.length = used.instruments.length ∧
      fresh.duration = used.duration ∧
      (used.importSettings settings).2.score = (fresh.importSettings settings).2.score := by
  intro edits used fresh settings
  have reachable : Reachable Sample used := ⟨_, .new 2, edits, rfl⟩
  have reached : Reachable Sample fresh := ⟨_, .new 2, [], rfl⟩
  have slots : fresh.instruments.length = used.instruments.length := by decide +kernel
  obtain ⟨-, -, -, -, faultless⟩ := import_replaces reachable reached slots rfl settings
  exact ⟨reachable, reached, slots, rfl, faultless (by decide +kernel)⟩

end FormulaSynth.Session
