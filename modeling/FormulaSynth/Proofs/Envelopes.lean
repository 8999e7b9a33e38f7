import FormulaSynth.Proofs.Exact
import FormulaSynth.Sound.Note

set_option autoImplicit false
namespace FormulaSynth
open Number Exact

/-- The same numbers with other quotients. -/
@[reducible] def Number.withQuotient {α : Type} [Number α] (quotient : α → α → α) : Number α :=
  { (inferInstance : Number α) with div := quotient }

namespace Exact
variable {α : Type} [Number α] [Exact α]

/-- These quotients are the usual ones but by zero. -/
def SameNonzero (quotient : α → α → α) : Prop :=
  ∀ a b, isFinite b = true → value b ≠ 0 → quotient a b = a / b

theorem stands_one : Stands value (1 : α) 1 := by
  have h := Exact.ofNat (α := α) 1
  rw [Nat.cast_one] at h
  exact h

end Exact

namespace Sound.Envelope

section Release

/-- The share of the level that is left `d` seconds into a release of `r` seconds. -/
noncomputable def share (r d : ℝ) : ℝ := if r ≤ d then 0 else 1 - d / r

variable {r d d' : ℝ}

theorem share_ended (ended : r ≤ d) : share r d = 0 := if_pos ended

theorem share_start (pos : 0 < r) : share r 0 = 1 := by
  rw [share, if_neg (not_le.mpr pos), zero_div, sub_zero]

theorem share_nonneg (later : 0 ≤ d) : 0 ≤ share r d := by
  unfold share
  split_ifs with ended
  · exact le_rfl
  · have pos : 0 < r := later.trans_lt (not_le.mp ended)
    rw [sub_nonneg, div_le_one pos]
    exact (not_le.mp ended).le

theorem share_le (later : 0 ≤ d) (h : d ≤ d') : share r d' ≤ share r d := by
  by_cases ended : r ≤ d'
  · rw [share_ended ended]
    exact share_nonneg later
  · have pos : 0 < r := (later.trans h).trans_lt (not_le.mp ended)
    rw [share, share, if_neg ended, if_neg fun past => ended (past.trans h)]
    gcongr

theorem share_le_one (nonneg : 0 ≤ r) (later : 0 ≤ d) : share r d ≤ 1 := by
  rcases nonneg.lt_or_eq with pos | rfl
  · exact (share_le le_rfl later).trans_eq (share_start pos)
  · rw [share_ended later]
    exact zero_le_one

end Release

variable {α : Type} [Number α] [Exact α]

structure Proper (e : Envelope α) : Prop where
  finite_attack : isFinite e.attack = true
  finite_decay : isFinite e.decay = true
  finite_sustain : isFinite e.sustain = true
  finite_release : isFinite e.release = true
  attack : 0 ≤ value e.attack
  decay : 0 ≤ value e.decay
  sustain : 0 ≤ value e.sustain ∧ value e.sustain ≤ 1
  release : 0 ≤ value e.release

namespace Proper
variable {e : Envelope α} (h : e.Proper) {t u level off : α} {x d y : ℝ}
include h

theorem attack_pos (time : Stands value t x) (begun : ¬lt t 0 = true) (rising : lt t e.attack = true) :
    0 ≤ x ∧ x < value e.attack := by
  rw [lt_iff time stands_zero] at begun
  rw [lt_iff time (stands h.finite_attack)] at rising
  exact ⟨not_lt.mp begun, rising⟩

theorem decay_pos (time : Stands value t x) (risen : ¬lt t e.attack = true)
    (falling : lt t (e.attack + e.decay) = true) : 0 ≤ x - value e.attack ∧ x - value e.attack < value e.decay := by
  rw [lt_iff time (stands h.finite_attack)] at risen
  rw [lt_iff time (add (stands h.finite_attack) (stands h.finite_decay))] at falling
  constructor <;> linarith

theorem release_pos (since : Stands value u d) (lasting : ¬le e.release u = true) : d < value e.release := by
  rw [le_iff (stands h.finite_release) since] at lasting
  exact not_le.mp lasting

theorem held_stands (time : Stands value t x) : ∃ y, Stands value (e.held t) y ∧ 0 ≤ y ∧ y ≤ 1 := by
  obtain ⟨low, high⟩ := h.sustain
  unfold held
  split_ifs with early rising falling
  · exact ⟨0, stands_zero, le_rfl, zero_le_one⟩
  · obtain ⟨begun, within⟩ := h.attack_pos time early rising
    have pos := begun.trans_lt within
    exact ⟨x / value e.attack, div time (stands h.finite_attack) pos.ne', div_nonneg begun pos.le,
      (div_le_one pos).mpr within.le⟩
  · obtain ⟨begun, within⟩ := h.decay_pos time rising falling
    have pos := begun.trans_lt within
    have fallen := div (sub time (stands h.finite_attack)) (stands h.finite_decay) pos.ne'
    have below := sub stands_one (stands h.finite_sustain)
    refine ⟨1 - (x - value e.attack) / value e.decay * (1 - value e.sustain), sub stands_one (mul fallen below), ?_⟩
    have least := div_nonneg begun pos.le
    have most := (div_le_one pos).mpr within.le
    constructor <;> nlinarith
  · exact ⟨value e.sustain, stands h.finite_sustain, low, high⟩

theorem released_stands (start : Stands value level y) (since : Stands value u d) (later : 0 ≤ d) :
    Stands value (e.released level u) (y * share (value e.release) d) := by
  unfold released share
  by_cases ended : le e.release u = true
  · rw [if_pos ended, if_pos ((le_iff (stands h.finite_release) since).mp ended), mul_zero]
    exact stands_zero
  · have within := h.release_pos since ended
    rw [if_neg ended, if_neg (not_le.mpr within)]
    exact mul start (sub stands_one (div since (stands h.finite_release) (later.trans_lt within).ne'))

theorem amplitude_released (time : Stands value t x) (up : Stands value off d) (since : d ≤ x) :
    ∃ y, Stands value (e.held off) y ∧ 0 ≤ y ∧ y ≤ 1 ∧
      Stands value (e.amplitude t (some off)) (y * share (value e.release) (x - d)) := by
  obtain ⟨y, start, low, high⟩ := h.held_stands up
  refine ⟨y, start, low, high, ?_⟩
  rw [amplitude, if_pos ((le_iff up time).mpr since)]
  exact h.released_stands start (sub time up) (sub_nonneg.mpr since)

omit h in
theorem amplitude_before (time : Stands value t x) (up : Stands value off d) (before : x < d) :
    e.amplitude t (some off) = e.held t := by
  rw [amplitude, if_neg]
  rw [le_iff up time]
  exact not_le.mpr before

theorem amplitude_stands (time : Stands value t x) (gate : Option α) (finite : ∀ off ∈ gate, isFinite off = true) :
    ∃ y, Stands value (e.amplitude t gate) y ∧ 0 ≤ y ∧ y ≤ 1 := by
  cases gate with
  | none => exact h.held_stands time
  | some off =>
    have up := stands (finite off rfl)
    rcases lt_or_ge x (value off) with before | since
    · rw [amplitude_before time up before]
      exact h.held_stands time
    · obtain ⟨y, -, low, high, level⟩ := h.amplitude_released time up since
      have nonneg : 0 ≤ share (value e.release) (x - value off) := share_nonneg (sub_nonneg.mpr since)
      have atMost : share (value e.release) (x - value off) ≤ 1 := share_le_one h.release (sub_nonneg.mpr since)
      exact ⟨_, level, mul_nonneg low nonneg, mul_le_one₀ high nonneg atMost⟩

theorem isFinished_iff (time : Stands value t x) (up : Stands value off d) :
    e.isFinished t (some off) = true ↔ value e.release ≤ x - d :=
  le_iff (stands h.finite_release) (sub time up)

section Quotients
variable {quotient : α → α → α} (same : SameNonzero quotient)
include same

theorem held_withQuotient (time : Stands value t x) :
    @held α (Number.withQuotient quotient) e t = e.held t := by
  unfold held
  change (if lt t 0 then (0 : α) else if lt t e.attack then quotient t e.attack
    else if lt t (e.attack + e.decay) then 1 - quotient (t - e.attack) e.decay * (1 - e.sustain)
    else e.sustain) = _
  split_ifs with early rising falling
  · rfl
  · obtain ⟨begun, within⟩ := h.attack_pos time early rising
    exact same _ _ h.finite_attack (begun.trans_lt within).ne'
  · obtain ⟨begun, within⟩ := h.decay_pos time rising falling
    rw [same _ _ h.finite_decay (begun.trans_lt within).ne']
  · rfl

theorem released_withQuotient (since : Stands value u d) (later : 0 ≤ d) :
    @released α (Number.withQuotient quotient) e level u = e.released level u := by
  unfold released
  change (if le e.release u then (0 : α) else level * (1 - quotient u e.release)) = _
  split_ifs with ended
  · rfl
  · have within := h.release_pos since ended
    rw [same _ _ h.finite_release (later.trans_lt within).ne']

theorem amplitude_withQuotient (time : Stands value t x) (gate : Option α)
    (finite : ∀ off ∈ gate, isFinite off = true) :
    @amplitude α (Number.withQuotient quotient) e t gate = e.amplitude t gate := by
  cases gate with
  | none => exact h.held_withQuotient same time
  | some off =>
    have up := stands (finite off rfl)
    change (if le off t then @released α (Number.withQuotient quotient) e
        (@held α (Number.withQuotient quotient) e off) (t - off)
      else @held α (Number.withQuotient quotient) e t) =
        if le off t then e.released (e.held off) (t - off) else e.held t
    split_ifs with since
    · rw [le_iff up time] at since
      rw [h.held_withQuotient same up, h.released_withQuotient same (sub time up) (sub_nonneg.mpr since)]
    · exact h.held_withQuotient same time

end Quotients

end Proper

/-- At every time and wherever the key goes up, a level is a number between zero and one, and no quotient by zero is
    taken, for it would not matter what it is. A level falls from the moment at which the key goes up, where it is the
    level that was held if the release has a length. A note that is over stays so, without a level. -/
theorem amplitude_bounded_and_falling {e : Envelope α} (proper : e.Proper) {t : α} (time : isFinite t = true) :
    (∀ gate : Option α, (∀ off ∈ gate, isFinite off = true) →
      isFinite (e.amplitude t gate) = true ∧ 0 ≤ value (e.amplitude t gate) ∧ value (e.amplitude t gate) ≤ 1 ∧
      ∀ quotient : α → α → α, SameNonzero quotient →
        @amplitude α (Number.withQuotient quotient) e t gate = e.amplitude t gate) ∧
    ∀ off : α, isFinite off = true →
      (0 < value e.release → value (e.amplitude off (some off)) = value (e.held off)) ∧
      ∀ later : α, isFinite later = true → value t ≤ value later →
        (value off ≤ value t → value (e.amplitude later (some off)) ≤ value (e.amplitude t (some off))) ∧
        (e.isFinished t (some off) = true →
          e.isFinished later (some off) = true ∧ value (e.amplitude later (some off)) = 0) := by
  have now := stands time
  refine ⟨fun gate finite => ?_, fun off finite => ?_⟩
  · obtain ⟨y, level, low, high⟩ := proper.amplitude_stands now gate finite
    rw [level.value_eq]
    exact ⟨level.finite, low, high, fun quotient same => proper.amplitude_withQuotient same now gate finite⟩
  have up := stands finite
  refine ⟨fun lasting => ?_, fun later finite' order => ⟨fun since => ?_, fun finished => ?_⟩⟩
  · obtain ⟨y, start, -, -, level⟩ := proper.amplitude_released up up le_rfl
    rw [level.value_eq, start.value_eq, sub_self, share_start lasting, mul_one]
  · have after := stands finite'
    obtain ⟨y, start, low, -, level⟩ := proper.amplitude_released now up since
    obtain ⟨y', start', -, -, level'⟩ := proper.amplitude_released after up (since.trans order)
    have same : y' = y := start'.value_eq.symm.trans start.value_eq
    rw [level.value_eq, level'.value_eq, same]
    exact mul_le_mul_of_nonneg_left (share_le (sub_nonneg.mpr since) (sub_le_sub_right order _)) low
  · have after := stands finite'
    rw [proper.isFinished_iff now up] at finished
    have ended : value e.release ≤ value later - value off := finished.trans (sub_le_sub_right order _)
    have since : value off ≤ value later := sub_nonneg.mp (proper.release.trans ended)
    obtain ⟨y, -, -, -, level⟩ := proper.amplitude_released after up since
    refine ⟨(proper.isFinished_iff after up).mpr ended, ?_⟩
    rw [level.value_eq, share_ended ended, mul_zero]

/-- Without a rise, and with a key that goes up within the fall: the release of two seconds begins at three quarters
    and is over at two and a half. -/
theorem amplitude_falls_from_decay :
    let e : Envelope Ideal := ⟨.real 0, .real 1, .real (1 / 2), .real 2⟩
    let off : Ideal := .real (1 / 2)
    e.Proper ∧ value (e.amplitude off (some off)) = value (e.held off) ∧
      e.isFinished (.real (5 / 2)) (some off) = true ∧ value (e.amplitude (.real 3) (some off)) = 0 := by
  intro e off
  have proper : e.Proper := by
    refine ⟨rfl, rfl, rfl, rfl, le_rfl, ?_, ⟨?_, ?_⟩, ?_⟩
    · exact zero_le_one
    · exact one_half_pos.le
    · exact one_half_lt_one.le
    · exact zero_le_two
  have finished : e.isFinished (.real (5 / 2)) (some off) = true := by
    refine (proper.isFinished_iff (Ideal.stands_real _) (Ideal.stands_real _)).mpr ?_
    change (2 : ℝ) ≤ 5 / 2 - 1 / 2
    norm_num
  obtain ⟨start, falls⟩ := (amplitude_bounded_and_falling proper (t := .real (5 / 2)) rfl).2 off rfl
  have later : value (Ideal.real (5 / 2)) ≤ value (Ideal.real 3) := by
    change (5 / 2 : ℝ) ≤ 3
    norm_num
  exact ⟨proper, start zero_lt_two, finished, ((falls (.real 3) rfl later).2 finished).2⟩

end Sound.Envelope
end FormulaSynth
