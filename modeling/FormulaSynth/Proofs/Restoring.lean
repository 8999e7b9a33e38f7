import FormulaSynth.Number.Machine
import FormulaSynth.Proofs.Doubles
import FormulaSynth.Proofs.Edits

set_option autoImplicit false
namespace FormulaSynth

section Volumes
variable {α : Type} [Number α]
open Number

structure IsVolume (v : α) : Prop where
  number : isNaN v = false
  nonneg : le 0 v = true
  full : le v 1 = true

def tidyVolume (v : α) : α := if isNaN v then 0 else clamp v 0 1

variable [Ordered α]

theorem isVolume_ofNat {n : ℕ} (h : n ≤ 1) : IsVolume (Number.ofNat n : α) where
  number := by
    have self : le (Number.ofNat n : α) (Number.ofNat n) = true := Ordered.ofNat_le le_rfl
    simp [isNaN, self]
  nonneg := Ordered.zero_le_ofNat n
  full := Ordered.ofNat_le h

theorem tidyVolume_of_isVolume {v : α} (h : IsVolume v) : tidyVolume v = v := by
  simp [tidyVolume, clamp, h.number, Ordered.not_lt_of_le h.nonneg, Ordered.not_lt_of_le h.full]

theorem isVolume_tidy (v : α) : IsVolume (tidyVolume v) := by
  have zero : IsVolume (0 : α) := isVolume_ofNat (Nat.zero_le 1)
  have one : IsVolume (1 : α) := isVolume_ofNat le_rfl
  have self {u : α} (h : IsVolume u) : le u u = true := by simpa [isNaN] using h.number
  unfold tidyVolume clamp
  cases number : isNaN v with
  | true => exact zero
  | false =>
    have here : le v v = true := by simpa [isNaN] using number
    cases low : lt v 0 with
    | true => exact zero
    | false =>
      cases high : lt 1 v with
      | true => exact one
      | false => exact ⟨number, Ordered.le_of_not_lt (self zero) here low, Ordered.le_of_not_lt here (self one) high⟩

end Volumes

namespace Sound

def tidyVoice (name : String) : String := if name ∈ catalog.map Voice.name then name else Voice.first.name

theorem names_nodup : (catalog.map Voice.name).Nodup := by decide +kernel

theorem voiceIndex?_name {index : ℕ} (h : index < catalog.length) :
    voiceIndex? catalog[index].name = some index := by
  refine List.findIdx?_eq_some_iff_getElem.mpr ⟨h, beq_self_eq_true _, ?_⟩
  intro j before same
  have listed : index < (catalog.map Voice.name).length := by simpa using h
  have earlier : j < (catalog.map Voice.name).length := before.trans listed
  have names : (catalog.map Voice.name)[j] = (catalog.map Voice.name)[index] := by simpa using same
  exact before.ne (names_nodup.getElem_inj_iff.mp names)

theorem tidyVoice_of_mem {v : Voice} (h : v ∈ catalog) : tidyVoice v.name = v.name :=
  if_pos (List.mem_map_of_mem h)

theorem tidyVoice_mem (name : String) : tidyVoice name ∈ catalog.map Voice.name := by
  unfold tidyVoice
  split
  · assumption
  · exact List.mem_map_of_mem List.mem_cons_self

theorem voiceIndex?_of_not_mem {name : String} (h : name ∉ catalog.map Voice.name) : voiceIndex? name = none := by
  refine List.findIdx?_eq_none_iff.mpr ?_
  intro v mem
  exact beq_eq_false_iff_ne.mpr fun eq => h (eq ▸ List.mem_map_of_mem mem)

end Sound

namespace Session
open Number Sound

theorem voice_mem {α : Type} (i : Instrument α) : i.voice ∈ catalog := by
  unfold Instrument.voice voice?
  cases found : catalog[i.voiceIndex]? with
  | none => exact List.mem_cons_self
  | some v => exact List.mem_of_getElem? found

theorem voiceOrFirst_name (name : String) : ((voice? (voiceOrFirst name)).getD .first).name = tidyVoice name := by
  by_cases known : name ∈ catalog.map Voice.name
  · obtain ⟨v, mem, rfl⟩ := List.mem_map.mp known
    obtain ⟨index, h, rfl⟩ := List.mem_iff_getElem.mp mem
    rw [voiceOrFirst, voiceIndex?_name h, tidyVoice_of_mem mem, voice?, Option.getD_some,
      List.getElem?_eq_getElem h, Option.getD_some]
  · rw [voiceOrFirst, voiceIndex?_of_not_mem known, tidyVoice, if_neg known]
    rfl

variable {α : Type} [Number α]

def Settings.tidied (s : Settings α) : Settings α :=
  { s with volume := tidyVolume s.volume, voice := tidyVoice s.voice }

theorem importSettings_at (s : Session α) (settings : List (Settings α)) (place : ℕ) :
    (s.importSettings settings).2.instruments[place]? =
      s.instruments[place]?.map fun i => (configure i (settings.getD place .blank)).recompiled := by
  rw [importSettings, flush_eq, List.getElem?_map, List.getElem?_mapIdx, Option.map_map]
  rfl

theorem exportInstrument_configured (i : Instrument α) (s : Settings α) :
    exportInstrument (configure i s).recompiled = s.tidied :=
  congrArg (fun voice => (⟨s.formula, s.period, tidyVolume s.volume, voice, s.enabled⟩ : Settings α))
    (voiceOrFirst_name s.voice)

theorem exportSettings_imported (s : Session α) (settings : List (Settings α)) :
    (s.importSettings settings).2.exportSettings =
      (List.range s.instruments.length).map fun place => (settings.getD place .blank).tidied := by
  refine List.ext_getElem? fun place => ?_
  rw [exportSettings, List.getElem?_map, importSettings_at, Option.map_map, List.getElem?_map]
  by_cases inside : place < s.instruments.length
  · simp [inside, exportInstrument_configured]
  · simp [inside]

theorem tidied_tidied [Ordered α] (s : Settings α) : s.tidied.tidied = s.tidied := by
  have volume := tidyVolume_of_isVolume (isVolume_tidy s.volume)
  have voice : tidyVoice (tidyVoice s.voice) = tidyVoice s.voice := if_pos (tidyVoice_mem s.voice)
  rw [Settings.tidied, Settings.tidied, volume, voice]

theorem tidied_exportInstrument [Ordered α] {i : Instrument α} (h : IsVolume i.volume) :
    (exportInstrument i).tidied = exportInstrument i := by
  rw [exportInstrument, Settings.tidied, tidyVolume_of_isVolume h, tidyVoice_of_mem (voice_mem i)]

theorem exportSettings_imported_tidy {s : Session α} {settings : List (Settings α)}
    (slots : settings.length = s.instruments.length) (tidy : ∀ g ∈ settings, g.tidied = g) :
    (s.importSettings settings).2.exportSettings = settings := by
  rw [exportSettings_imported, ← slots]
  refine List.ext_getElem (by simp) ?_
  intro place _ inside
  simp [inside, tidy _ (List.getElem_mem inside)]

/-- What the catalog and the mixer can do with an instrument. -/
structure InRange (i : Instrument α) : Prop where
  volume : IsVolume i.volume
  voice : i.voiceIndex < catalog.length

theorem InRange.voiceOrFirst {i : Instrument α} (h : InRange i) : voiceOrFirst i.voice.name = i.voiceIndex := by
  rw [Instrument.voice, voice?, List.getElem?_eq_getElem h.voice, Option.getD_some, Session.voiceOrFirst,
    voiceIndex?_name h.voice, Option.getD_some]

variable {σ : Type} [Silence σ] [Ordered α]

theorem inRange_new (id : ℕ) : InRange (Instrument.new (α := α) id) :=
  ⟨isVolume_ofNat le_rfl, Nat.succ_pos _⟩

theorem Reachable.inRange {s : Session α} (h : Reachable σ s) : ∀ i ∈ s.instruments, InRange i := by
  refine h.forall_instruments ?_ (fun _ h => ⟨h.volume, h.voice⟩) inRange_new
  intro e i h
  cases e with
  | volume amount => exact ⟨isVolume_tidy amount, h.voice⟩
  | voice index => exact ⟨h.volume, index.isLt⟩
  | _ => exact ⟨h.volume, h.voice⟩

theorem Reachable.exportSettings_tidy {s : Session α} (h : Reachable σ s) : ∀ g ∈ s.exportSettings, g.tidied = g := by
  intro g mem
  obtain ⟨i, there, rfl⟩ := List.mem_map.mp mem
  exact tidied_exportInstrument (h.inRange i there).volume

theorem Reachable.restored_voices {s t : Session α} (h : Reachable σ s)
    (slots : t.instruments.length = s.instruments.length) :
    (t.importSettings s.exportSettings).2.instruments.map Instrument.voiceIndex =
      s.instruments.map Instrument.voiceIndex := by
  refine List.ext_getElem? fun place => ?_
  rw [List.getElem?_map, importSettings_at, Option.map_map, List.getElem?_map]
  by_cases inside : place < s.instruments.length
  · have voice := (h.inRange _ (List.getElem_mem inside)).voiceOrFirst
    have given : s.exportSettings.getD place .blank = exportInstrument s.instruments[place] := by
      simp [exportSettings, inside]
    rw [given, List.getElem?_eq_getElem (slots ▸ inside), List.getElem?_eq_getElem inside]
    exact congrArg some voice
  · simp [inside, slots]

/-- What a session exports comes back from any other one of as many instruments, down to the places of the voices in
    the catalog. Other settings are tidied up by an import, and a second one has nothing left to do. -/
theorem settings_restored :
    (∀ s t : Session α, Reachable σ s → Reachable σ t → t.instruments.length = s.instruments.length →
      let restored := (t.importSettings s.exportSettings).2
      restored.exportSettings = s.exportSettings ∧
        restored.instruments.map Instrument.voiceIndex = s.instruments.map Instrument.voiceIndex) ∧
    (∀ (s : Session α) (settings : List (Settings α)),
      let exported := (s.importSettings settings).2.exportSettings
      exported = ((List.range s.instruments.length).map fun place => (settings.getD place .blank).tidied) ∧
        ∀ t : Session α, t.instruments.length = s.instruments.length →
          (t.importSettings exported).2.exportSettings = exported) ∧
    (Settings.blank : Settings α).tidied = ⟨"", "", 1, Voice.first.name, false⟩ ∧
    ∀ g : Settings α,
      IsVolume g.tidied.volume ∧ (IsVolume g.volume → g.tidied.volume = g.volume) ∧
      (g.voice ∈ catalog.map Voice.name → g.tidied.voice = g.voice) ∧
      (g.voice ∉ catalog.map Voice.name → g.tidied.voice = Voice.first.name) := by
  refine ⟨?_, ?_, ?_, ?_⟩
  · intro s t reachable _ slots restored
    refine ⟨?_, reachable.restored_voices slots⟩
    exact exportSettings_imported_tidy (by simp [exportSettings, slots]) reachable.exportSettings_tidy
  · intro s settings exported
    have imported : exported = _ := exportSettings_imported s settings
    refine ⟨imported, fun t slots => ?_⟩
    have tidy : ∀ g ∈ exported, g.tidied = g := by
      intro g mem
      rw [imported] at mem
      obtain ⟨place, -, rfl⟩ := List.mem_map.mp mem
      exact tidied_tidied _
    exact exportSettings_imported_tidy (by simp [imported, slots]) tidy
  · have first : tidyVoice "" = Voice.first.name := if_neg (by decide +kernel)
    have full : tidyVolume (1 : α) = 1 := tidyVolume_of_isVolume (isVolume_ofNat le_rfl)
    simp only [Settings.tidied, Settings.blank, first, full]
  · intro g
    exact ⟨isVolume_tidy g.volume, fun h => tidyVolume_of_isVolume h, fun known => if_pos known,
      fun unknown => if_neg unknown⟩

/-- A session with a volume that was no number and a voice chosen by name is restored in one that is in use. -/
theorem settings_restored_in_used_session :
    let edits : List (Action Float Sample) := [.setFormula 0 "sin(x", .setVolume 0 (0 / 0), .setVoiceNamed 0 "Tuba",
      .setEnabled 0 true, .setVolume 1 3, .setVoice 1 42, .setVoice 1 43]
    let other : List (Action Float Sample) := [.setFormula 1 "x", .setPeriod 1 "1", .flush]
    let s := edits.foldl perform (new 2)
    let t := other.foldl perform (new 2)
    let restored := (t.importSettings s.exportSettings).2
    Reachable Sample s ∧ Reachable Sample t ∧ t.instruments.length = s.instruments.length ∧
      restored.exportSettings = s.exportSettings ∧ restored.instruments.map Instrument.voiceIndex = [22, 42] := by
  intro edits other s t restored
  have reachable : Reachable Sample s := ⟨_, .new 2, edits, rfl⟩
  have reached : Reachable Sample t := ⟨_, .new 2, other, rfl⟩
  have slots : t.instruments.length = s.instruments.length := by decide +kernel
  obtain ⟨same, voices⟩ := (settings_restored (σ := Sample)).1 s t reachable reached slots
  refine ⟨reachable, reached, slots, same, ?_⟩
  rw [voices]
  decide +kernel

end Session
end FormulaSynth
