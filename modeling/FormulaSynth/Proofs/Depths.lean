import FormulaSynth.Proofs.Visits
import Mathlib

set_option autoImplicit false
namespace FormulaSynth.Formula

def Op.depth (n : ℕ) (op : Op) : ℕ := n - op.pops + 1

/-- Every instruction finds its operands on a stack of depth `n` at first. -/
def Supplied : ℕ → List Op → Prop
  | _, [] => True
  | n, op :: rest => op.pops ≤ n ∧ Supplied (op.depth n) rest

namespace Program

/-- The depths between the instructions, from the empty stack on. -/
def depths (p : Program) : List ℕ := p.code.toList.scanl Op.depth 0

def trace {α : Type} [Number α] (p : Program) (x : α) : List (List α) :=
  p.code.toList.scanl (Op.step p.constants x) []

def slots (p : Program) : List ℕ := slotsOf p.code.toList

structure WellFormed (p : Program) : Prop where
  operands : ∀ step ∈ p.depths.zip p.code.toList, step.2.pops ≤ step.1
  single : p.depths.getLast? = some 1
  deepest : p.depths.max? = some p.maxStack
  capacity : p.constants.size ≤ 256
  distinct : p.constants.toList.Nodup
  inPool : ∀ slot ∈ p.slots, slot < p.constants.size
  firstUse : p.slots.eraseDups = List.range p.constants.size

end Program

theorem supplied_append {n : ℕ} {a b : List Op} :
    Supplied n (a ++ b) ↔ Supplied n a ∧ Supplied (a.foldl Op.depth n) b := by
  induction a generalizing n with
  | nil => exact (and_iff_right trivial).symm
  | cons op a ih =>
    rw [List.cons_append, Supplied, ih, Supplied, List.foldl_cons, and_assoc]

/-- On a stack of any depth, the code finds its operands and leaves that many more values. -/
def Lifts (code : List Op) (more : ℕ) : Prop :=
  ∀ n, Supplied n code ∧ code.foldl Op.depth n = n + more

theorem Lifts.nil : Lifts [] 0 := fun _ => ⟨trivial, rfl⟩

theorem Lifts.append {a b : List Op} {m k : ℕ} (ha : Lifts a m) (hb : Lifts b k) : Lifts (a ++ b) (m + k) := by
  intro n
  rw [supplied_append, List.foldl_append, (ha n).2, (hb (n + m)).2]
  exact ⟨⟨(ha n).1, (hb (n + m)).1⟩, Nat.add_assoc n m k⟩

theorem Lifts.concat {a : List Op} {op : Op} (ha : Lifts a op.pops) : Lifts (a ++ [op]) 1 := by
  intro n
  rw [supplied_append, List.foldl_append, (ha n).2]
  refine ⟨⟨(ha n).1, Nat.le_add_left _ n, trivial⟩, ?_⟩
  change n + op.pops - op.pops + 1 = n + 1
  rw [Nat.add_sub_cancel]

structure Stacks (d : Draft) (more : ℕ) (d' : Draft) : Prop where
  bounded : d'.Bounded
  lifts : ∃ code, d.Grows code d' ∧ Lifts code more

namespace Stacks

theorem nil {d : Draft} (hd : d.Bounded) : Stacks d 0 d := ⟨hd, [], .nil d, .nil⟩

theorem append {d₁ d₂ d₃ : Draft} {m k : ℕ} (h : Stacks d₁ m d₂) (h' : Stacks d₂ k d₃) :
    Stacks d₁ (m + k) d₃ := by
  obtain ⟨a, ga, ha⟩ := h.lifts
  obtain ⟨b, gb, hb⟩ := h'.lifts
  exact ⟨h'.bounded, a ++ b, ga.trans gb, ha.append hb⟩

theorem push {d d' : Draft} {op : Op} (h : Stacks d op.pops d') : Stacks d 1 (d'.push op) := by
  obtain ⟨a, ga, ha⟩ := h.lifts
  exact ⟨h.bounded, a ++ [op], ga.trans (.push d' op), ha.concat⟩

theorem constant {d d' : Draft} {value : Binary64} {position : Position}
    (h : d.constant value position = .ok d') (hd : d.Bounded) : Stacks d 1 d' := by
  obtain ⟨slot, grows, bounded, -⟩ := Draft.constant_grows h hd
  have none : Lifts [] (Op.const slot).pops := .nil
  exact ⟨bounded, [.const slot], grows, none.concat⟩

theorem ident {d d' : Draft} {name : String} {position : Position} (h : d.ident name position = .ok d')
    (hd : d.Bounded) : Stacks d 1 d' := by
  unfold Draft.ident at h
  split at h
  · cases h
    exact (nil hd).push
  · split at h
    · exact constant h hd
    · cases h

theorem of_functions {d d' : Draft} {names : List String} {more : ℕ}
    (h : Stacks { d with functions := names } more d') : Stacks d more d' := by
  obtain ⟨code, grows, lifts⟩ := h.lifts
  exact ⟨h.bounded, code, grows.of_functions, lifts⟩

end Stacks

mutual

theorem emit_stacks {d d' : Draft} (t : Tree) (h : emit d t = .ok d') (hd : d.Bounded) : Stacks d 1 d' := by
  cases t with
  | number value position => exact .constant h hd
  | ident name position => exact .ident h hd
  | neg operand =>
    rw [emit] at h
    obtain ⟨d₁, h₁, h⟩ := bind_eq_ok h
    cases h
    exact (emit_stacks operand h₁ hd).push
  | binary op left right =>
    rw [emit] at h
    obtain ⟨d₁, h₁, h⟩ := bind_eq_ok h
    obtain ⟨d₂, h₂, h⟩ := bind_eq_ok h
    cases h
    have first := emit_stacks left h₁ hd
    have both := first.append (emit_stacks right h₂ first.bounded)
    cases op <;> exact both.push
  | call name args position =>
    rw [emit] at h
    obtain ⟨f, hf, h⟩ := bind_eq_ok h
    obtain ⟨d₁, h₁, h⟩ := bind_eq_ok h
    cases h
    obtain ⟨mem, -, given⟩ := callee_mem hf
    have all := (emitAll_stacks args h₁ hd).of_functions
    rw [given, builtins_arity f mem] at all
    change Stacks d (Op.call f.builtin).pops d₁ at all
    exact all.push

theorem emitAll_stacks {d d' : Draft} (args : List Tree) (h : emit.emitAll d args = .ok d') (hd : d.Bounded) :
    Stacks d args.length d' := by
  cases args with
  | nil =>
    cases h
    exact .nil hd
  | cons t rest =>
    rw [emit.emitAll] at h
    obtain ⟨d₁, h₁, h⟩ := bind_eq_ok h
    have first := emit_stacks t h₁ hd
    have both := first.append (emitAll_stacks rest h first.bounded)
    rw [Nat.add_comm] at both
    exact both

end

section Runs
variable {α : Type} [Number α]

theorem length_popped1 (f : α → α) (stack : List α) : (popped1 f stack).length = stack.length - 1 + 1 := by
  cases stack <;> rfl

theorem length_popped2 (f : α → α → α) : ∀ stack, (popped2 f stack).length = stack.length - 2 + 1
  | [] | [_] | _ :: _ :: _ => rfl

theorem length_popped3 (f : α → α → α → α) : ∀ stack, (popped3 f stack).length = stack.length - 3 + 1
  | [] | [_] | [_, _] | _ :: _ :: _ :: _ => rfl

theorem length_step (pool : Array Binary64) (x : α) (stack : List α) (op : Op) :
    (Op.step pool x stack op).length = op.depth stack.length := by
  cases op with
  | const slot => rfl
  | arg => rfl
  | neg => exact length_popped1 _ stack
  | add => exact length_popped2 _ stack
  | sub => exact length_popped2 _ stack
  | mul => exact length_popped2 _ stack
  | div => exact length_popped2 _ stack
  | call f =>
    cases f with
    | unary f => exact length_popped1 f.apply stack
    | binary f => exact length_popped2 f.apply stack
    | ternary f => exact length_popped3 f.apply stack

theorem map_length_scanl (pool : Array Binary64) (x : α) (stack : List α) (code : List Op) :
    (code.scanl (Op.step pool x) stack).map List.length = code.scanl Op.depth stack.length := by
  induction code generalizing stack with
  | nil => rfl
  | cons op code ih =>
    rw [List.scanl_cons, List.scanl_cons, List.map_cons, ih, length_step]

theorem Program.map_length_trace (p : Program) (x : α) : (p.trace x).map List.length = p.depths :=
  map_length_scanl p.constants x [] p.code.toList

theorem Program.getLast?_trace (p : Program) (x : α) (e : Evaluator α) :
    (p.trace x).getLast? = some (e.run p x).2.stack := by
  have some := List.scanl_ne_nil (f := Op.step p.constants x) (b := []) (l := p.code.toList)
  unfold Program.trace
  rw [List.getLast?_eq_getLast_of_ne_nil some, List.getLast_scanl]
  exact congrArg Option.some (Array.foldl_toList (Op.step p.constants x))

end Runs

theorem Supplied.pops_le {n : ℕ} {code : List Op} (h : Supplied n code) :
    ∀ step ∈ (code.scanl Op.depth n).zip code, step.2.pops ≤ step.1 := by
  induction code generalizing n with
  | nil => exact fun _ mem => absurd mem List.not_mem_nil
  | cons op code ih =>
    rw [List.scanl_cons, List.zip_cons_cons]
    intro step mem
    rcases List.mem_cons.mp mem with rfl | mem
    · exact h.1
    · exact ih h.2 step mem

theorem scanl_depth (n : ℕ) (code : List Op) :
    code.scanl Op.depth n = n :: (code.scanl Op.depth n).tail := by
  cases code with
  | nil => rfl
  | cons op code => rw [List.scanl_cons, List.tail_cons]

/-- The depth is counted by net changes of an integer. With the operands at hand it never falls below zero. -/
theorem foldl_depthStep {n m : ℕ} {code : List Op} (h : Supplied n code) :
    code.foldl depthStep ((n : ℤ), (m : ℤ)) =
      (((code.foldl Op.depth n : ℕ) : ℤ), (((code.scanl Op.depth n).tail.foldl max m : ℕ) : ℤ)) := by
  induction code generalizing n m with
  | nil => rfl
  | cons op code ih =>
    have depth : (n : ℤ) + op.effect = (op.depth n : ℕ) := by
      have operands := h.1
      unfold Op.effect Op.depth
      omega
    have next : depthStep ((n : ℤ), (m : ℤ)) op = (((op.depth n : ℕ) : ℤ), ((max m (op.depth n) : ℕ) : ℤ)) := by
      unfold depthStep
      rw [depth, Nat.cast_max]
    rw [List.foldl_cons, next, ih h.2, List.foldl_cons, List.scanl_cons, List.tail_cons]
    conv_rhs => rw [scanl_depth, List.foldl_cons]

theorem max?_depths {code : List Op} (h : Supplied 0 code) :
    (code.scanl Op.depth 0).max? = some (deepest code.toArray) := by
  have counted := foldl_depthStep (m := 0) h
  unfold deepest
  rw [← Array.foldl_toList]
  change _ = some (code.foldl depthStep (((0 : ℕ) : ℤ), ((0 : ℕ) : ℤ))).2.toNat
  rw [counted, Int.toNat_natCast, scanl_depth, List.max?_cons', List.tail_cons]

theorem getLast?_depths (n : ℕ) (code : List Op) :
    (code.scanl Op.depth n).getLast? = some (code.foldl Op.depth n) := by
  have some := List.scanl_ne_nil (f := Op.depth) (b := n) (l := code)
  rw [List.getLast?_eq_getLast_of_ne_nil some, List.getLast_scanl]

/-- A compiled program never misses an operand, ends with one value and notes its greatest depth, which is the one of
    every run. Its pool has each constant once, its code reads the whole pool and nothing outside it, first uses in
    the order of the slots, and what it reads are the constants of the text in their order. -/
theorem compile_wellFormed {source : String} {p : Program} (h : compile source = .ok p) :
    p.WellFormed ∧
    (∀ {α : Type} [Number α] (x : α) (e : Evaluator α),
      (p.trace x).getLast? = some (e.run p x).2.stack ∧ (p.trace x).map List.length = p.depths) ∧
    ∃ t, parse source = .ok t ∧ p.slots.map (p.constants.toList[·]?) = (constantsOf t.visits).map some := by
  unfold compile at h
  obtain ⟨t, parsed, h⟩ := bind_eq_ok h
  unfold compileTree at h
  obtain ⟨d, emitted, h⟩ := bind_eq_ok h
  cases h
  have reflects : Reflects t.visits d := by
    have outcome := emit_outcome t Reflects.empty
    rw [emitted] at outcome
    exact outcome
  obtain ⟨code, grows, lifts⟩ := (emit_stacks t emitted Draft.bounded_empty).lifts
  have same : d.code.toList = code := grows.code
  have supplied : Supplied 0 d.code.toList := same ▸ (lifts 0).1
  have single : (d.code.toList.scanl Op.depth 0).getLast? = some 1 := by rw [getLast?_depths, same, (lifts 0).2]
  have wellFormed : d.program.WellFormed :=
    ⟨supplied.pops_le, single, max?_depths supplied, reflects.bounded, reflects.nodup,
      fun slot mem => reflects.mem_slots_iff.mp mem, reflects.firstUse⟩
  exact ⟨wellFormed, fun x e => ⟨d.program.getLast?_trace x e, d.program.map_length_trace x⟩,
    t, parsed, reflects.values⟩

/-- The greatest depth is reached within the arguments, and the second 2 finds the slot of the first. -/
theorem compile_wellFormed_nested_calls :
    let p : Program :=
      ⟨#[.arg, .const 0, .arg, .const 0, .const 1, .call (.binary .min), .call (.ternary .clamp), .sub],
        #[⟨0x4000000000000000⟩, ⟨0x400921fb54442d18⟩], ["clamp", "min"], 5⟩
    compile "x - clamp(2, x, min(2, pi))" = .ok p ∧ p.WellFormed := by
  intro p
  have h : compile "x - clamp(2, x, min(2, pi))" = .ok p := by decide +kernel
  exact ⟨h, (compile_wellFormed h).1⟩

end FormulaSynth.Formula
