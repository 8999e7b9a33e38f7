import FormulaSynth.Formula.Machine
import FormulaSynth.Number.Machine
import FormulaSynth.Proofs.Emission

set_option autoImplicit false
namespace FormulaSynth.Formula
variable {α : Type} [Number α]

def at1 (f : α → α) : List α → Option α
  | [a] => some (f a)
  | _ => none

def at2 (f : α → α → α) : List α → Option α
  | [a, b] => some (f a b)
  | _ => none

def at3 (f : α → α → α → α) : List α → Option α
  | [a, b, c] => some (f a b c)
  | _ => none

def applied? : String → List α → Option α
  | "abs" => at1 Number.abs
  | "sin" => at1 Number.sin
  | "cos" => at1 Number.cos
  | "tan" => at1 Number.tan
  | "asin" => at1 Number.asin
  | "acos" => at1 Number.acos
  | "atan" => at1 Number.atan
  | "exp" => at1 Number.exp
  | "log" => at1 Number.log
  | "log2" => at1 Number.log2
  | "sqrt" => at1 Number.sqrt
  | "inversesqrt" => at1 Number.invSqrt
  | "sign" => at1 Number.sign
  | "floor" => at1 Number.floor
  | "ceil" => at1 Number.ceil
  | "round" => at1 Number.round
  | "fract" => at1 Number.fract
  | "atan2" => at2 fun y x => Number.atan2 y x
  | "pow" => at2 fun x y => Number.pow x y
  | "mod" => at2 fun x y => Number.mod x y
  | "min" => at2 fun x y => Number.min x y
  | "max" => at2 fun x y => Number.max x y
  | "step" => at2 fun edge x => Number.step edge x
  | "clamp" => at3 fun x min max => Number.clamp x min max
  | "smoothstep" => at3 fun edge0 edge1 x => Number.smoothstep edge0 edge1 x
  | "until" => at3 fun x v threshold => Number.untilGate x v threshold
  | "after" => at3 fun x v threshold => Number.afterGate x v threshold
  | _ => fun _ => none

def named? (x : α) : String → Option α
  | "x" => some x
  | "pi" => some Number.pi
  | "phi" => some Number.goldenRatio
  | "e" => some Number.euler
  | "eps" => some Number.epsilon
  | _ => none

def BinaryOp.apply : BinaryOp → α → α → α
  | .add, a, b => a + b
  | .sub, a, b => a - b
  | .mul, a, b => a * b
  | .div, a, b => a / b

/-- The value of a tree at `x`. -/
def Tree.value? (x : α) : Tree → Option α
  | .number value _ => some (Number.ofBinary64 value)
  | .ident name _ => named? x name
  | .neg operand => do return -(← operand.value? x)
  | .binary op left right => do return op.apply (← left.value? x) (← right.value? x)
  | .call name args _ => do applied? name (← values? x args)
where
  values? (x : α) : List Tree → Option (List α)
    | [] => some []
    | t :: rest => do return (← t.value? x) :: (← values? x rest)

theorem lookup_cons_eq {name key : String} {value v : Binary64} {rest : List (String × Binary64)}
    (h : ((key, v) :: rest).lookup name = some value) :
    (name = key ∧ v = value) ∨ rest.lookup name = some value := by
  rw [List.lookup_cons] at h
  split at h
  · rename_i heq
    exact .inl ⟨eq_of_beq heq, Option.some.inj h⟩
  · exact .inr h

theorem named?_constant {name : String} {value : Binary64} (x : α)
    (h : namedConstant? name = some value) : named? x name = some (Number.ofBinary64 value) := by
  have hpi : Binary64.ofDecimal 3141592653589793 (-15) = ⟨0x400921fb54442d18⟩ := by decide +kernel
  have hphi : Binary64.ofDecimal 1618033988749895 (-15) = ⟨0x3ff9e3779b97f4a8⟩ := by decide +kernel
  have he : Binary64.ofDecimal 2718281828459045 (-15) = ⟨0x4005bf0a8b145769⟩ := by decide +kernel
  have heps : Binary64.ofDecimal 1 (-9) = ⟨0x3e112e0be826d695⟩ := by decide +kernel
  unfold namedConstant? namedConstants at h
  rcases lookup_cons_eq h with ⟨rfl, rfl⟩ | h
  · exact congrArg (fun b => some (Number.ofBinary64 b)) hpi
  rcases lookup_cons_eq h with ⟨rfl, rfl⟩ | h
  · exact congrArg (fun b => some (Number.ofBinary64 b)) hphi
  rcases lookup_cons_eq h with ⟨rfl, rfl⟩ | h
  · exact congrArg (fun b => some (Number.ofBinary64 b)) he
  rcases lookup_cons_eq h with ⟨rfl, rfl⟩ | h
  · exact congrArg (fun b => some (Number.ofBinary64 b)) heps
  · cases h

def Builtin.apply? : Builtin → List α → Option α
  | .unary f => at1 f.apply
  | .binary f => at2 f.apply
  | .ternary f => at3 f.apply

theorem applied?_builtin {f : BuiltinEntry} (hf : f ∈ builtins) :
    applied? (α := α) f.name = f.builtin.apply? := by
  unfold builtins at hf
  fin_cases hf <;> rfl

theorem callee_mem {name : String} {given : ℕ} {position : Position} {f : BuiltinEntry}
    (h : Draft.callee name given position = .ok f) : f ∈ builtins ∧ f.name = name ∧ given = f.arity := by
  unfold Draft.callee at h
  split at h
  · cases h
  · rename_i g hg
    split at h
    · rename_i harity
      cases h
      exact ⟨List.mem_of_find?_eq_some hg, by simpa using List.find?_some hg, harity⟩
    · cases h

/-- From any stack, the code leaves the values on top of it, the last one uppermost. -/
def Pushes (pool : Array Binary64) (x : α) (code : List Op) (values : List α) : Prop :=
  ∀ stack, code.foldl (Op.step pool x) stack = values.reverse ++ stack

theorem Pushes.nil (pool : Array Binary64) (x : α) : Pushes pool x [] [] := fun _ => rfl

theorem Pushes.append {pool : Array Binary64} {x : α} {a b : List Op} {u v : List α}
    (ha : Pushes pool x a u) (hb : Pushes pool x b v) : Pushes pool x (a ++ b) (u ++ v) := by
  intro stack
  rw [List.foldl_append, ha, hb, List.reverse_append, List.append_assoc]

theorem Pushes.concat {pool : Array Binary64} {x : α} {a : List Op} {u : List α} {op : Op} {v : α}
    (ha : Pushes pool x a u) (hop : ∀ stack, Op.step pool x (u.reverse ++ stack) op = v :: stack) :
    Pushes pool x (a ++ [op]) [v] := by
  intro stack
  rw [List.foldl_append, ha]
  exact hop stack

theorem pushes_const {pool : Array Binary64} {slot : UInt8} {value : Binary64} (x : α)
    (h : pool.toList[slot.toNat]? = some value) :
    Pushes pool x [.const slot] [Number.ofBinary64 value] := by
  intro stack
  have hget : pool.getD slot.toNat Binary64.nan = value := by
    rw [Array.getD_eq_getD_getElem?, ← Array.getElem?_toList, h]
    rfl
  change Number.ofBinary64 (pool.getD slot.toNat Binary64.nan) :: stack = _
  rw [hget]
  rfl

theorem step_instruction (pool : Array Binary64) (x : α) (op : BinaryOp) (a b : α) (stack : List α) :
    Op.step pool x ([a, b].reverse ++ stack) op.instruction = op.apply a b :: stack := by
  cases op <;> rfl

theorem step_call (x : α) {f : Builtin} {args : List α} (h : args.length = f.arity) :
    ∃ v, f.apply? args = some v ∧
      ∀ pool stack, Op.step pool x (args.reverse ++ stack) (.call f) = v :: stack := by
  cases f with
  | unary f =>
    obtain ⟨a, rfl⟩ := List.length_eq_one_iff.mp h
    exact ⟨f.apply a, rfl, fun _ _ => rfl⟩
  | binary f =>
    obtain ⟨a, b, rfl⟩ := List.length_eq_two.mp h
    exact ⟨f.apply a b, rfl, fun _ _ => rfl⟩
  | ternary f =>
    obtain ⟨a, b, c, rfl⟩ := List.length_eq_three.mp h
    exact ⟨f.apply a b c, rfl, fun _ _ => rfl⟩

/-- What was added to `d` pushes `values`, over every pool that begins with the one of `d'`. -/
structure Emits (x : α) (d : Draft) (values : List α) (d' : Draft) : Prop where
  bounded : d'.Bounded
  pushes : ∃ code, d.Grows code d' ∧
    ∀ pool : Array Binary64, d'.constants.toList <+: pool.toList → Pushes pool x code values

namespace Emits

theorem nil {x : α} {d : Draft} (hd : d.Bounded) : Emits x d [] d :=
  ⟨hd, [], .nil d, fun pool _ => .nil pool x⟩

theorem append {x : α} {d₁ d₂ d₃ : Draft} {u v : List α} (h : Emits x d₁ u d₂) (h' : Emits x d₂ v d₃) :
    Emits x d₁ (u ++ v) d₃ := by
  obtain ⟨a, ga, ha⟩ := h.pushes
  obtain ⟨b, gb, hb⟩ := h'.pushes
  refine ⟨h'.bounded, a ++ b, ga.trans gb, fun pool hpool => ?_⟩
  exact (ha pool (gb.pool.trans hpool)).append (hb pool hpool)

theorem push {x : α} {d d' : Draft} {u : List α} {op : Op} {v : α} (h : Emits x d u d')
    (hop : ∀ pool stack, Op.step pool x (u.reverse ++ stack) op = v :: stack) :
    Emits x d [v] (d'.push op) := by
  obtain ⟨a, ga, ha⟩ := h.pushes
  refine ⟨h.bounded, a ++ [op], ga.trans (.push d' op), fun pool hpool => ?_⟩
  exact (ha pool hpool).concat (hop pool)

theorem constant {x : α} {d d' : Draft} {value : Binary64} {position : Position}
    (h : d.constant value position = .ok d') (hd : d.Bounded) :
    Emits x d [Number.ofBinary64 value] d' := by
  obtain ⟨slot, hgrows, hbounded, hget⟩ := Draft.constant_grows h hd
  refine ⟨hbounded, [.const slot], hgrows, fun pool hpool => pushes_const x ?_⟩
  obtain ⟨more, hmore⟩ := hpool
  rw [← hmore]
  exact List.getElem?_append_left (List.getElem?_eq_some_iff.mp hget).choose ▸ hget

theorem of_functions {x : α} {d d' : Draft} {names : List String} {values : List α}
    (h : Emits x { d with functions := names } values d') : Emits x d values d' := by
  obtain ⟨code, hgrows, hpushes⟩ := h.pushes
  exact ⟨h.bounded, code, hgrows.of_functions, hpushes⟩

end Emits

theorem emit_ident_value (x : α) {d d' : Draft} {name : String} {position : Position}
    (h : d.ident name position = .ok d') (hd : d.Bounded) :
    ∃ v, named? x name = some v ∧ Emits x d [v] d' := by
  unfold Draft.ident at h
  split at h
  · rename_i hx
    cases h
    subst hx
    exact ⟨x, rfl, (Emits.nil hd).push fun _ _ => rfl⟩
  · split at h
    · rename_i value hvalue
      exact ⟨Number.ofBinary64 value, named?_constant x hvalue, .constant h hd⟩
    · cases h

theorem bind_eq_ok {ε β γ : Type} {m : Except ε β} {f : β → Except ε γ} {c : γ} (h : m >>= f = .ok c) :
    ∃ b, m = .ok b ∧ f b = .ok c := by
  cases m with
  | error e => cases h
  | ok b => exact ⟨b, rfl, h⟩

mutual

/-- Emitted code computes the value of the tree, which it therefore has. -/
theorem emit_value (x : α) {d d' : Draft} (t : Tree) (h : emit d t = .ok d') (hd : d.Bounded) :
    ∃ v, t.value? x = some v ∧ Emits x d [v] d' := by
  cases t with
  | number value position => exact ⟨_, rfl, .constant h hd⟩
  | ident name position => exact emit_ident_value x h hd
  | neg operand =>
    rw [emit] at h
    obtain ⟨d₁, h₁, h⟩ := bind_eq_ok h
    cases h
    obtain ⟨a, ha, e⟩ := emit_value x operand h₁ hd
    refine ⟨-a, ?_, e.push fun _ _ => rfl⟩
    simp only [Tree.value?, ha]
    rfl
  | binary op left right =>
    rw [emit] at h
    obtain ⟨d₁, h₁, h⟩ := bind_eq_ok h
    obtain ⟨d₂, h₂, h⟩ := bind_eq_ok h
    cases h
    obtain ⟨a, ha, ea⟩ := emit_value x left h₁ hd
    obtain ⟨b, hb, eb⟩ := emit_value x right h₂ ea.bounded
    refine ⟨op.apply a b, ?_, (ea.append eb).push fun pool stack => step_instruction pool x op a b stack⟩
    simp only [Tree.value?, ha, hb]
    rfl
  | call name args position =>
    rw [emit] at h
    obtain ⟨f, hf, h⟩ := bind_eq_ok h
    obtain ⟨d₁, h₁, h⟩ := bind_eq_ok h
    cases h
    obtain ⟨hmem, rfl, hgiven⟩ := callee_mem hf
    obtain ⟨values, hvalues, hlength, e⟩ := emitAll_values x args h₁ hd
    have harity : values.length = f.builtin.arity := by
      rw [hlength, hgiven]
      exact builtins_arity f hmem
    obtain ⟨v, hv, hop⟩ := step_call x harity
    refine ⟨v, ?_, e.of_functions.push hop⟩
    simp only [Tree.value?, hvalues, applied?_builtin hmem]
    exact hv

theorem emitAll_values (x : α) {d d' : Draft} (args : List Tree) (h : emit.emitAll d args = .ok d')
    (hd : d.Bounded) : ∃ values, Tree.value?.values? x args = some values ∧
      values.length = args.length ∧ Emits x d values d' := by
  cases args with
  | nil =>
    cases h
    exact ⟨[], rfl, rfl, .nil hd⟩
  | cons t rest =>
    rw [emit.emitAll] at h
    obtain ⟨d₁, h₁, h⟩ := bind_eq_ok h
    obtain ⟨v, hv, ev⟩ := emit_value x t h₁ hd
    obtain ⟨values, hvalues, hlength, e⟩ := emitAll_values x rest h ev.bounded
    refine ⟨v :: values, ?_, congrArg Nat.succ hlength, ev.append e⟩
    simp only [Tree.value?.values?, hv, hvalues]
    rfl

end

/-- Compilation preserves meaning: a compiled tree has a value at every argument, and running its program gives
    that value, whatever the evaluator did before. -/
theorem run_compileTree {t : Tree} {p : Program} (h : compileTree t = .ok p) (x : α)
    (e : Evaluator α) : t.value? x = some (e.run p x).1 := by
  unfold compileTree at h
  obtain ⟨d, hd, h⟩ := bind_eq_ok h
  cases h
  obtain ⟨v, hv, emits⟩ := emit_value x t hd Draft.bounded_empty
  obtain ⟨code, hgrows, hpushes⟩ := emits.pushes
  have hcode : d.code.toList = code := hgrows.code
  have hexec : d.program.exec x [] = [v] := by
    unfold Program.exec
    rw [← Array.foldl_toList]
    change d.code.toList.foldl (Op.step d.constants x) [] = [v]
    rw [hcode, hpushes d.constants (List.prefix_refl _) []]
    rfl
  rw [hv]
  unfold Evaluator.run
  rw [hexec]
  rfl

/-- `clamp(x, pi, 3) - atan2(x, 3)` on a stack that is not empty: the literal takes one slot, and the operands
    come in source order. -/
theorem run_clamp_sub_atan2 :
    let three : Binary64 := ⟨0x4008000000000000⟩
    let t : Tree := .binary .sub
      (.call "clamp" [.ident "x" ⟨1, 7⟩, .ident "pi" ⟨1, 10⟩, .number three ⟨1, 14⟩] ⟨1, 1⟩)
      (.call "atan2" [.ident "x" ⟨1, 25⟩, .number three ⟨1, 28⟩] ⟨1, 19⟩)
    let p : Program :=
      ⟨#[.arg, .const 0, .const 1, .call (.ternary .clamp), .arg, .const 1, .call (.binary .atan2), .sub],
        #[⟨0x400921fb54442d18⟩, three], ["atan2", "clamp"], 3⟩
    compileTree t = .ok p ∧
      t.value? (2.5 : Float) = some ((⟨[7.0, 1.0]⟩ : Evaluator Float).run p 2.5).1 := by
  intro three t p
  have h : compileTree t = .ok p := by cbv
  exact ⟨h, run_compileTree h _ _⟩

end FormulaSynth.Formula
