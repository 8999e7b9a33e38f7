import FormulaSynth.Formula.Parse
import Mathlib

/-!
# The grammar of formulas

    sum       := product (('+' | '-') product)*
    product   := unary (('*' | '/') unary)*
    unary     := '-' unary | primary
    primary   := number | name | name '(' arguments? ')' | '(' sum ')'
    arguments := sum (',' sum)*

A derivation counts how often its most enclosed point is enclosed by groups, calls and unary minuses. Groups leave
no trace in the tree, so the tree alone does not tell that number.
-/

set_option autoImplicit false
namespace FormulaSynth.Formula

inductive Rank
  | sum
  | product
  | unary
  | primary

inductive Joins : Rank → Lexeme → BinaryOp → Prop
  | add : Joins .sum .plus .add
  | sub : Joins .sum .minus .sub
  | mul : Joins .product .star .mul
  | div : Joins .product .slash .div

mutual

/-- The tokens form the tree at the given rank, and their most enclosed point is enclosed `n` times. Chains lean to
    the left. -/
inductive Derives : Rank → List Token → Tree → ℕ → Prop
  | product {ts t n} : Derives .product ts t n → Derives .sum ts t n
  | sum {ts us t u m n o op} : Derives .sum ts t m → Joins .sum o.lexeme op → Derives .product us u n →
      Derives .sum (ts ++ o :: us) (.binary op t u) (max m n)
  | unary {ts t n} : Derives .unary ts t n → Derives .product ts t n
  | factor {ts us t u m n o op} : Derives .product ts t m → Joins .product o.lexeme op →
      Derives .unary us u n → Derives .product (ts ++ o :: us) (.binary op t u) (max m n)
  | primary {ts t n} : Derives .primary ts t n → Derives .unary ts t n
  | neg {o ts t n} : o.lexeme = .minus → Derives .unary ts t n → Derives .unary (o :: ts) (.neg t) (n + 1)
  | number {o value} : o.lexeme = .number value → Derives .primary [o] (.number value o.position) 0
  | ident {o name} : o.lexeme = .ident name → Derives .primary [o] (.ident name o.position) 0
  | emptyCall {o l r name} : o.lexeme = .ident name → l.lexeme = .openParen → r.lexeme = .closeParen →
      Derives .primary [o, l, r] (.call name [] o.position) 1
  | call {o l r ts name args n} : o.lexeme = .ident name → l.lexeme = .openParen → Arguments ts args n →
      r.lexeme = .closeParen → Derives .primary (o :: l :: (ts ++ [r])) (.call name args o.position) (n + 1)
  | group {l r ts t n} : l.lexeme = .openParen → Derives .sum ts t n → r.lexeme = .closeParen →
      Derives .primary (l :: (ts ++ [r])) t (n + 1)

inductive Arguments : List Token → List Tree → ℕ → Prop
  | last {ts t n} : Derives .sum ts t n → Arguments ts [t] n
  | more {ts us t args m n o} : Derives .sum ts t m → o.lexeme = .comma → Arguments us args n →
      Arguments (ts ++ o :: us) (t :: args) (max m n)

end

/-- No sum or product is taller than `maxHeight`. -/
def Tree.Low : Tree → Prop
  | .number _ _ => True
  | .ident _ _ => True
  | .neg operand => operand.Low
  | .binary op left right =>
    left.Low ∧ right.Low ∧ (Tree.binary op left right).height ≤ maxHeight
  | .call _ args _ => AllLow args
where
  AllLow : List Tree → Prop
    | [] => True
    | t :: rest => t.Low ∧ AllLow rest

/-- The tokens form the tree, within both limits. -/
def Forms (tokens : List Token) (t : Tree) : Prop := t.Low ∧ ∃ n ≤ maxDepth, Derives .sum tokens t n

inductive Chain (operator? : Lexeme → Option BinaryOp) (Operand : List Token → Tree → ℕ → Prop) :
    List Token → Tree → ℕ → Prop
  | one {ts t n} : Operand ts t n → Chain operator? Operand ts t n
  | join {ts us t u m n o op} : Chain operator? Operand ts t m → operator? o.lexeme = some op →
      Operand us u n → Chain operator? Operand (ts ++ o :: us) (.binary op t u) (max m n)

theorem joins_sum_iff {l : Lexeme} {op : BinaryOp} : Joins .sum l op ↔ sumOperator? l = some op := by
  constructor
  · rintro (_ | _) <;> rfl
  · intro h
    cases l <;> cases h <;> constructor

theorem joins_product_iff {l : Lexeme} {op : BinaryOp} :
    Joins .product l op ↔ productOperator? l = some op := by
  constructor
  · rintro (_ | _) <;> rfl
  · intro h
    cases l <;> cases h <;> constructor

theorem chain_of_product {ts : List Token} {t : Tree} {n : ℕ} :
    Derives .product ts t n → Chain productOperator? (Derives .unary) ts t n
  | .unary h => .one h
  | .factor h ho hu => .join (chain_of_product h) (joins_product_iff.mp ho) hu

theorem chain_of_sum {ts : List Token} {t : Tree} {n : ℕ} :
    Derives .sum ts t n → Chain sumOperator? (Derives .product) ts t n
  | .product h => .one h
  | .sum h ho hu => .join (chain_of_sum h) (joins_sum_iff.mp ho) hu

theorem product_of_chain {ts : List Token} {t : Tree} {n : ℕ}
    (h : Chain productOperator? (Derives .unary) ts t n) : Derives .product ts t n := by
  induction h with
  | one h => exact .unary h
  | join _ ho hu ih => exact .factor ih (joins_product_iff.mpr ho) hu

theorem sum_of_chain {ts : List Token} {t : Tree} {n : ℕ}
    (h : Chain sumOperator? (Derives .product) ts t n) : Derives .sum ts t n := by
  induction h with
  | one h => exact .product h
  | join _ ho hu ih => exact .sum ih (joins_sum_iff.mpr ho) hu

inductive MoreArguments : List Token → List Tree → ℕ → Prop
  | close {r} : r.lexeme = .closeParen → MoreArguments [r] [] 0
  | cons {o ts us t args m n} : o.lexeme = .comma → Derives .sum ts t m → MoreArguments us args n →
      MoreArguments (o :: (ts ++ us)) (t :: args) (max m n)

inductive Closing : List Token → List Tree → ℕ → Prop
  | empty {r} : r.lexeme = .closeParen → Closing [r] [] 0
  | filled {ts us t args m n} : Derives .sum ts t m → MoreArguments us args n →
      Closing (ts ++ us) (t :: args) (max m n)

theorem arguments_of_more {us : List Token} {args : List Tree} {n : ℕ} (h : MoreArguments us args n) :
    ∃ vs r, us = vs ++ [r] ∧ r.lexeme = .closeParen ∧
      ∀ {ts t m}, Derives .sum ts t m → Arguments (ts ++ vs) (t :: args) (max m n) := by
  induction h with
  | @close r hr =>
    refine ⟨[], r, rfl, hr, fun ht => ?_⟩
    rw [List.append_nil, Nat.max_zero]
    exact .last ht
  | @cons o ts _ _ _ _ _ ho hu _ ih =>
    obtain ⟨vs, r, rfl, hr, hargs⟩ := ih
    refine ⟨o :: (ts ++ vs), r, ?_, hr, fun ht => .more ht ho (hargs hu)⟩
    rw [List.cons_append, List.append_assoc]

theorem more_of_arguments {ts : List Token} {args : List Tree} {k : ℕ} {r : Token}
    (hr : r.lexeme = .closeParen) : Arguments ts args k → ∃ first us t more m n, ts ++ [r] = first ++ us ∧
      args = t :: more ∧ k = max m n ∧ Derives .sum first t m ∧ MoreArguments us more n
  | .last h => ⟨_, [r], _, [], _, 0, rfl, rfl, (Nat.max_zero _).symm, h, .close hr⟩
  | .more (o := o) h ho rest => by
    obtain ⟨first, us, t, more, m, n, hsplit, rfl, rfl, ht, hmore⟩ := more_of_arguments hr rest
    refine ⟨_, o :: (first ++ us), _, _, _, _, ?_, rfl, rfl, h, .cons ho ht hmore⟩
    rw [List.append_assoc, List.cons_append, hsplit]

theorem closing_of_arguments {ts : List Token} {args : List Tree} {n : ℕ} {r : Token}
    (h : Arguments ts args n) (hr : r.lexeme = .closeParen) : Closing (ts ++ [r]) args n := by
  obtain ⟨first, us, t, more, m, k, hsplit, rfl, rfl, ht, hmore⟩ := more_of_arguments hr h
  rw [hsplit]
  exact .filled ht hmore

theorem call_of_closing {o l : Token} {us : List Token} {name : String} {args : List Tree} {n : ℕ}
    (ho : o.lexeme = .ident name) (hl : l.lexeme = .openParen) (h : Closing us args n) :
    Derives .primary (o :: l :: us) (.call name args o.position) (n + 1) := by
  cases h with
  | empty hr => exact .emptyCall ho hl hr
  | filled ht hmore =>
    obtain ⟨vs, r, rfl, hr, hargs⟩ := arguments_of_more hmore
    rw [← List.append_assoc]
    exact .call ho hl (hargs ht) hr

def Starts (ts : List Token) : Prop := ∃ o rest, ts = o :: rest ∧ o.lexeme ≠ .closeParen

theorem primary_starts {ts : List Token} {t : Tree} {n : ℕ} (h : Derives .primary ts t n) : Starts ts := by
  cases h with
  | number ho => exact ⟨_, _, rfl, by rw [ho]; nofun⟩
  | ident ho => exact ⟨_, _, rfl, by rw [ho]; nofun⟩
  | emptyCall ho => exact ⟨_, _, rfl, by rw [ho]; nofun⟩
  | call ho => exact ⟨_, _, rfl, by rw [ho]; nofun⟩
  | group hl => exact ⟨_, _, rfl, by rw [hl]; nofun⟩

theorem unary_starts {ts : List Token} {t : Tree} {n : ℕ} (h : Derives .unary ts t n) : Starts ts := by
  cases h with
  | primary h => exact primary_starts h
  | neg ho => exact ⟨_, _, rfl, by rw [ho]; nofun⟩

theorem Chain.starts {operator? : Lexeme → Option BinaryOp} {Operand : List Token → Tree → ℕ → Prop}
    (hoperand : ∀ {ts t n}, Operand ts t n → Starts ts) {ts : List Token} {t : Tree} {n : ℕ}
    (h : Chain operator? Operand ts t n) : Starts ts := by
  induction h with
  | one h => exact hoperand h
  | join _ _ _ ih =>
    obtain ⟨o, rest, rfl, ho⟩ := ih
    exact ⟨o, _, List.cons_append, ho⟩

theorem sum_starts {ts : List Token} {t : Tree} {n : ℕ} (h : Derives .sum ts t n) : Starts ts :=
  (chain_of_sum h).starts fun h => (chain_of_product h).starts unary_starts

end FormulaSynth.Formula
