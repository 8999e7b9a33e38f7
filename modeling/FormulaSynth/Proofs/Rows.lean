import FormulaSynth.Cli.Run
import FormulaSynth.Proofs.Sums

/-!
# Rows of values

A table is written by a loop with a counter of the width of a machine word. It breaks off at the first place behind the
last one. Places of higher numbers lie further on, so whether there is such a place can be read off the last number the
counter reaches.
-/

set_option autoImplicit false
namespace FormulaSynth.Cli
open Number

namespace Sampling

structure Rows where
  counter : UInt64
  lines : List String

section Loop
variable {α : Type} [Number α] (s : Sampling α) (line : α → String)

/-- One round breaks off at a place behind the last one and writes a line at any other. -/
def round (rows : Rows) : Option Rows :=
  let k := rows.counter.toNat
  if s.isPast k then none else some ⟨rows.counter + 1, rows.lines ++ [line (s.place k)]⟩

def rounds : ℕ → Option Rows
  | 0 => some ⟨0, []⟩
  | n + 1 => (rounds n).bind (s.round line)

def Ends : Prop := ∃ n, s.rounds line n = none

variable {s}

omit line in
theorem first_past {n : ℕ} (past : s.isPast n = true) :
    ∃ k ≤ n, (∀ j < k, s.isPast j = false) ∧ s.isPast k = true := by
  have found : ∃ n, s.isPast n = true := ⟨n, past⟩
  classical
  exact ⟨Nat.find found, Nat.find_min' found past, fun j low => Bool.eq_false_iff.mpr (Nat.find_min found low),
    Nat.find_spec found⟩

theorem rounds_of_going {n : ℕ} (going : ∀ k < n, s.isPast (k % 2 ^ 64) = false) :
    s.rounds line n = some ⟨UInt64.ofNat n, (List.range n).map fun k => line (s.place (k % 2 ^ 64))⟩ := by
  induction n with
  | zero => rfl
  | succ n ih =>
    have counter : (UInt64.ofNat n).toNat = n % 2 ^ 64 := UInt64.toNat_ofNat'
    have next : UInt64.ofNat n + 1 = UInt64.ofNat (n + 1) := (UInt64.ofNat_add n 1).symm
    rw [rounds, ih fun k small => going k (Nat.lt_succ_of_lt small), Option.bind_some, round]
    simp only [counter, going n (Nat.lt_succ_self n), next, List.range_succ, List.map_append, List.map_singleton]
    rfl

theorem rounds_of_before {n : ℕ} (small : n < 2 ^ 64) (before : ∀ k < n, s.isPast k = false) :
    s.rounds line n = some ⟨UInt64.ofNat n, (List.range n).map fun k => line (s.place k)⟩ := by
  have low : ∀ k < n, k % 2 ^ 64 = k := fun k inside => Nat.mod_eq_of_lt (inside.trans small)
  have same : ((List.range n).map fun k => line (s.place (k % 2 ^ 64))) = (List.range n).map fun k => line (s.place k) :=
    List.map_congr_left fun k inside => by rw [low k (List.mem_range.mp inside)]
  rw [rounds_of_going line fun k inside => by rw [low k inside]; exact before k inside, same]

theorem round_of_past {n : ℕ} (small : n < 2 ^ 64) (past : s.isPast n = true) (lines : List String) :
    s.round line ⟨UInt64.ofNat n, lines⟩ = none := by
  have counter : (UInt64.ofNat n).toNat = n := UInt64.toNat_ofNat_of_lt' small
  unfold round
  simp only [counter, past]
  rfl

theorem ends_iff : s.Ends line ↔ ∃ n < 2 ^ 64, (∀ k < n, s.isPast k = false) ∧ s.isPast n = true := by
  constructor
  · rintro ⟨n, ended⟩
    have some : ∃ n, s.isPast (n % 2 ^ 64) = true := by
      by_contra! going
      rw [rounds_of_going line fun k _ => Bool.eq_false_iff.mpr (going k)] at ended
      cases ended
    obtain ⟨n, past⟩ := some
    obtain ⟨k, low, first⟩ := first_past past
    exact ⟨k, low.trans_lt (Nat.mod_lt n (Nat.two_pow_pos 64)), first⟩
  · rintro ⟨n, small, before, past⟩
    refine ⟨n + 1, ?_⟩
    rw [rounds, rounds_of_before line small before]
    exact round_of_past line small past _

theorem placesFrom_eq {fuel n : ℕ} (k : ℕ) (found : List α) (enough : n < fuel)
    (before : ∀ j, k ≤ j → j < k + n → s.isPast j = false) (past : s.isPast (k + n) = true) :
    s.placesFrom fuel k found = found.reverse ++ (List.range' k n).map s.place := by
  induction fuel generalizing n k found with
  | zero => exact absurd enough (Nat.not_lt_zero n)
  | succ fuel ih =>
    cases n with
    | zero =>
      have here : s.isPast k = true := past
      rw [placesFrom, if_pos here, List.range'_zero, List.map_nil, List.append_nil]
    | succ n =>
      have here : ¬s.isPast k = true := Bool.eq_false_iff.mp (before k le_rfl (by omega))
      have rest := ih (k + 1) (s.place k :: found) (Nat.lt_of_succ_lt_succ enough)
        (fun j low high => before j (by omega) (by omega)) (by rw [Nat.add_right_comm]; exact past)
      rw [placesFrom, if_neg here, rest, List.reverse_cons, List.append_assoc, List.range'_succ, List.map_cons]
      rfl

theorem places_eq {n : ℕ} (small : n < 2 ^ 64) (before : ∀ k < n, s.isPast k = false) (past : s.isPast n = true) :
    s.places = (List.range n).map s.place := by
  rw [List.range_eq_range']
  refine placesFrom_eq 0 [] small (fun j _ high => before j ?_) ?_
  · rwa [Nat.zero_add] at high
  · rwa [Nat.zero_add]

end Loop

section Doubles
open FormulaSynth.Doubles

def wholeLimit : Float := 9007199254740992

/-- As many such steps as a word counts lead twice as far as from the lowest of these whole numbers to the highest. -/
def smallStep : Float := 0.001953125

variable {s : Sampling Float} {j k : ℕ}

theorem numbers_of_past (past : s.isPast k = true) :
    IsNumber (s.last + epsilon).toBits.toNat ∧ IsNumber (s.place k).toBits.toNat := by
  obtain ⟨limit, place, -⟩ := (lt_iff _ _).mp past
  exact ⟨limit, place⟩

theorem first_of_past (past : s.isPast k = true) :
    IsNumber s.first.toBits.toNat ∧ s.first.toModel.unpack ≠ .infinity .negative := by
  have place : IsNumber (s.first + Number.ofNat k * s.step).toBits.toNat := (numbers_of_past past).2
  refine ⟨?_, fun bottom => ?_⟩
  · by_contra nan
    exact not_number_add (fun both => nan both.1) place
  · have never : s.isPast k = false := not_lt_bottom (infinity_add bottom place)
    rw [past] at never
    cases never

theorem not_past_of_first (infinite : isFinite s.first = false) (low : lt 0 s.first = false) (k : ℕ) :
    s.isPast k = false := by
  rw [Bool.eq_false_iff]
  intro past
  obtain ⟨number, high⟩ := first_of_past past
  exact high (bottom_of_not_finite number infinite low)

theorem not_past_of_last (infinite : isFinite s.last = false) (high : lt s.last 0 = false) (k : ℕ) :
    s.isPast k = false := by
  rw [Bool.eq_false_iff]
  intro past
  have limit : IsNumber (s.last + epsilon).toBits.toNat := (numbers_of_past past).1
  have number : IsNumber s.last.toBits.toNat := by
    by_contra nan
    exact not_number_add (fun both => nan both.1) limit
  have top := infinity_add (top_of_not_finite number infinite high) limit
  have never : s.isPast k = false := top_not_lt top
  rw [past] at never
  cases never

variable (valid : s.isValid = true)
include valid

theorem multiple_le (jk : j ≤ k) : le (Number.ofNat j * s.step) (Number.ofNat k * s.step) = true := by
  obtain ⟨finite, positive⟩ := Bool.and_eq_true_iff.mp valid
  exact mul_le (ofNat_le (Nat.zero_le j)) (ofNat_le jk) positive (Or.inl finite)

theorem multiple_nonneg (k : ℕ) : le 0 (Number.ofNat k * s.step) = true := by
  obtain ⟨finite, positive⟩ := Bool.and_eq_true_iff.mp valid
  exact mul_nonneg (ofNat_le (Nat.zero_le k)) positive (Or.inl finite)

theorem place_number (past : s.isPast j = true) (k : ℕ) : IsNumber (s.place k).toBits.toNat := by
  obtain ⟨number, low⟩ := first_of_past past
  exact number_add_of_nonneg number low (multiple_nonneg valid k)

theorem past_of_past (past : s.isPast j = true) (jk : j ≤ k) : s.isPast k = true := by
  have further : le (s.place j) (s.place k) = true :=
    add_le (multiple_le valid jk) (place_number valid past j) (place_number valid past k)
  exact Ordered.lt_of_lt_of_le past further

/-- The loop ends exactly if the last place it can count to lies behind. -/
theorem ends_iff_past (line : Float → String) : s.Ends line ↔ s.isPast (2 ^ 64 - 1) = true := by
  rw [ends_iff]
  constructor
  · rintro ⟨n, small, -, past⟩
    exact past_of_past valid past (Nat.le_pred_of_lt small)
  · intro past
    obtain ⟨n, low, first⟩ := first_past past
    exact ⟨n, low.trans_lt (Nat.sub_one_lt (Nat.two_pow_pos 64).ne'), first⟩

theorem ends_of_ordinary (line : Float → String) (first : le (-wholeLimit) s.first = true)
    (last : le s.last wholeLimit = true) (step : le smallStep s.step = true) : s.Ends line := by
  rw [ends_iff_past valid]
  let count : Float := Number.ofNat (2 ^ 64 - 1)
  have slack : isFinite (epsilon : Float) = true := by decide +kernel
  have start : isFinite (-wholeLimit) = true := by decide +kernel
  have limit : le (s.last + epsilon) (wholeLimit + epsilon) = true := by
    obtain ⟨number, number', -⟩ := (le_iff _ _).mp last
    rw [sum_comm s.last, sum_comm wholeLimit]
    exact add_le last (number_add_of_finite slack number) (number_add_of_finite slack number')
  have multiple : le (count * smallStep) (count * s.step) = true := by
    rw [product_comm count, product_comm count]
    exact mul_le (by decide +kernel) step (by decide +kernel) (Or.inl (by decide +kernel))
  have place : IsNumber (s.first + count * s.step).toBits.toNat := by
    refine number_add_of_nonneg ((le_iff _ _).mp first).2.1 (fun bottom => ?_) (multiple_nonneg valid _)
    exact finite_unpack start (infinite_of_ge bottom first)
  have reached : le (-wholeLimit + count * smallStep) (s.first + count * s.step) = true :=
    sum_le first multiple start place
  have apart : lt (wholeLimit + epsilon) (-wholeLimit + count * smallStep) = true := by decide +kernel
  exact Ordered.lt_of_lt_of_le (Ordered.lt_of_le_of_lt limit apart) reached

theorem place_le (past : s.isPast k = true) (before : s.isPast j = false) :
    le (s.place j) (s.last + epsilon) = true :=
  Ordered.le_of_not_lt (le_self_of_number (place_number valid past j))
    (le_self_of_number (numbers_of_past past).1) before

end Doubles
end Sampling

section Printing
open Sampling Document
variable (files : Files) {formula : String} {program : Formula.Program} {s : Sampling Float}

theorem runEval_of_past (compiled : Formula.compile formula = .ok program) (valid : s.isValid = true) {n : ℕ}
    (small : n < 2 ^ 64) (before : ∀ k < n, s.isPast k = false) (past : s.isPast n = true) :
    runEval files formula s =
      ⟨usesLine program ++ (List.range n).map fun k => valueLine program (s.place k), files, none⟩ := by
  have rows : s.places.map (valueLine program) = (List.range n).map fun k => valueLine program (s.place k) := by
    rw [places_eq small before past, List.map_map]
    rfl
  unfold runEval
  rw [valid, compiled, ← rows]
  rfl

/-- Whether the loop of a table ends depends on its bounds, which nothing checks. It ends exactly if the last place its
    counter reaches lies behind the upper bound, as doubles add up, and then the rows are those of the places up to this
    bound. Every ordinary table ends. With a bound that is no number, with one that is infinitely far away and with a
    step that is lost beside the bounds there is always another row. -/
theorem runEval_ends_iff (compiled : Formula.compile formula = .ok program) (valid : s.isValid = true) :
    let line := valueLine program
    let limit := s.last + epsilon
    (s.Ends line ↔ lt limit (s.place (2 ^ 64 - 1)) = true) ∧
    (s.Ends line → ∃ n rows, s.rounds line n = some rows ∧ s.round line rows = none ∧
      rows.lines = (List.range n).map (fun k => line (s.place k)) ∧
      (∀ k < n, le (s.place k) limit = true) ∧ lt limit (s.place n) = true ∧
      runEval files formula s = ⟨usesLine program ++ rows.lines, files, none⟩) ∧
    (le (-wholeLimit) s.first = true → le s.last wholeLimit = true → le smallStep s.step = true → s.Ends line) ∧
    (isFinite s.first = false ∧ lt 0 s.first = false ∨ isFinite s.last = false ∧ lt s.last 0 = false →
      ¬s.Ends line) ∧
    (¬s.Ends line → ∀ n, ∃ rows, s.rounds line n = some rows ∧
      rows.lines = (List.range n).map fun k => line (s.place (k % 2 ^ 64))) := by
  intro line limit
  refine ⟨ends_iff_past valid line, fun ends => ?_, ends_of_ordinary valid line, fun special => ?_, fun endless n => ?_⟩
  · obtain ⟨n, small, before, past⟩ := (ends_iff line).mp ends
    refine ⟨n, _, rounds_of_before line small before, round_of_past line small past _, rfl, fun k inside => ?_, past, ?_⟩
    · exact place_le valid past (before k inside)
    · exact runEval_of_past files compiled valid small before past
  · rw [ends_iff_past valid]
    refine Bool.eq_false_iff.mp ?_
    rcases special with ⟨infinite, low⟩ | ⟨infinite, high⟩
    · exact not_past_of_first infinite low _
    · exact not_past_of_last infinite high _
  · refine ⟨_, rounds_of_going line fun k _ => ?_, rfl⟩
    rw [Bool.eq_false_iff]
    intro past
    obtain ⟨m, low, first⟩ := first_past past
    exact endless ((ends_iff line).mpr ⟨m, low.trans_lt (Nat.mod_lt k (Nat.two_pow_pos 64)), first⟩)

/-- From zero to one the rows end, to what is no number they do not, and neither where a step of one is lost. -/
theorem runEval_ends_at_one :
    let program : Formula.Program := ⟨#[.arg], #[], [], 1⟩
    let line := valueLine program
    let table (last : Float) : Sampling Float := ⟨0, last, 0.5⟩
    let nan : Float := 0 / 0
    let lost : Sampling Float := ⟨1e300, 1e300, 1⟩
    Formula.compile "x" = .ok program ∧ (table 1).isValid = true ∧ (table nan).isValid = true ∧ lost.isValid = true ∧
      (table 1).Ends line ∧ ¬(table nan).Ends line ∧ ¬lost.Ends line := by
  intro program line table nan lost
  have compiled : Formula.compile "x" = .ok program := by decide +kernel
  have valid : (table 1).isValid = true := by decide +kernel
  have valid' : (table nan).isValid = true := by decide +kernel
  have valid'' : lost.isValid = true := by decide +kernel
  obtain ⟨-, -, ordinary, -⟩ := runEval_ends_iff .empty compiled valid
  obtain ⟨-, -, -, special, -⟩ := runEval_ends_iff .empty compiled valid'
  obtain ⟨ends, -⟩ := runEval_ends_iff .empty compiled valid''
  refine ⟨compiled, valid, valid', valid'', ordinary ?_ ?_ ?_, special (Or.inr ⟨?_, ?_⟩), ends.not.mpr ?_⟩
  · decide +kernel
  · decide +kernel
  · decide +kernel
  · decide +kernel
  · decide +kernel
  · decide +kernel

end Printing

end FormulaSynth.Cli
