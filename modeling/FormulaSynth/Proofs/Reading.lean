import FormulaSynth.Formula.Parse
import Mathlib

set_option autoImplicit false
namespace FormulaSynth.Formula

def next? (tokens : List Token) : Option Lexeme := tokens.head?.map Token.lexeme

def Reads {β : Type} (m : TokenReader β) (c : Cursor) (b : β) (c' : Cursor) : Prop :=
  m.run.run c = (.ok b, c')

theorem run_bind {β γ : Type} (m : TokenReader β) (f : β → TokenReader γ) (c : Cursor) :
    (m >>= f).run.run c = match m.run.run c with
      | (.ok a, c₁) => (f a).run.run c₁
      | (.error e, c₁) => (.error e, c₁) := by
  change (match m.run.run c with | (r, c₁) => (ExceptT.bindCont f r).run c₁) = _
  rcases m.run.run c with ⟨_ | a, c₁⟩ <;> rfl

section
variable {β γ : Type} {c c' : Cursor}

theorem Reads.unique {m : TokenReader β} {a b : β} {c₁ : Cursor} (h : Reads m c a c₁)
    (h' : Reads m c b c') : a = b ∧ c₁ = c' := by
  have heq := h.symm.trans h'
  cases heq
  exact ⟨rfl, rfl⟩

theorem reads_pure {a b : β} : Reads (pure a) c b c' ↔ b = a ∧ c' = c := by
  constructor
  · intro h
    cases h
    exact ⟨rfl, rfl⟩
  · rintro ⟨rfl, rfl⟩
    rfl

theorem reads_bind {m : TokenReader β} {f : β → TokenReader γ} {b : γ} :
    Reads (m >>= f) c b c' ↔ ∃ a c₁, Reads m c a c₁ ∧ Reads (f a) c₁ b c' := by
  unfold Reads
  rw [run_bind]
  rcases m.run.run c with ⟨e | a, c₁⟩
  · constructor
    · intro h
      cases h
    · rintro ⟨_, _, h, _⟩
      cases h
  · constructor
    · intro h
      exact ⟨a, c₁, rfl, h⟩
    · rintro ⟨_, _, h, h'⟩
      cases h
      exact h'

theorem reads_fail {cause : Fault.Cause} {position : Position} {b : β} :
    ¬ Reads (TokenReader.fail cause position) c b c' := by
  intro h
  cases h

theorem reads_failHere {cause : Fault.Cause} {b : β} : ¬ Reads (TokenReader.failHere cause) c b c' := by
  intro h
  obtain ⟨_, _, -, h⟩ := reads_bind.mp h
  exact reads_fail h

theorem reads_get {b : Cursor} : Reads (get : TokenReader Cursor) c b c' ↔ b = c ∧ c' = c := by
  constructor
  · intro h
    cases h
    exact ⟨rfl, rfl⟩
  · rintro ⟨rfl, rfl⟩
    rfl

theorem reads_modify {f : Cursor → Cursor} {u : Unit} :
    Reads (modify f : TokenReader Unit) c u c' ↔ c' = f c := by
  constructor
  · intro h
    cases h
    rfl
  · rintro rfl
    rfl

theorem reads_peek {l : Option Lexeme} : Reads TokenReader.peek c l c' ↔ l = next? c.rest ∧ c' = c := by
  unfold TokenReader.peek next?
  simp only [reads_bind, reads_get, reads_pure, exists_and_left, exists_eq_left, and_assoc]

theorem reads_remaining {l : List Token} : Reads TokenReader.remaining c l c' ↔ l = c.rest ∧ c' = c := by
  unfold TokenReader.remaining
  simp only [reads_bind, reads_get, reads_pure, exists_and_left, exists_eq_left, and_assoc]

theorem reads_advance {u : Unit} :
    Reads TokenReader.advance c u c' ↔ c' = { c with rest := c.rest.tail } := reads_modify

/-- Where the next token begins, or else the text ends. -/
def Cursor.place (c : Cursor) : Position :=
  match c.rest with
  | token :: _ => token.position
  | [] => c.stop

theorem reads_here {p : Position} : Reads TokenReader.here c p c' ↔ p = c.place ∧ c' = c := by
  unfold TokenReader.here
  simp only [reads_bind, reads_get, exists_and_left, exists_eq_left, and_assoc]
  exact reads_pure

theorem reads_ite {q : Prop} [Decidable q] {m m' : TokenReader β} {b : β} :
    Reads (if q then m else m') c b c' ↔ (q ∧ Reads m c b c') ∨ (¬ q ∧ Reads m' c b c') := by
  split <;> simp_all

theorem reads_expect {wanted : Lexeme} {u : Unit} : Reads (TokenReader.expect wanted) c u c' ↔
    next? c.rest = some wanted ∧ c' = { c with rest := c.rest.tail } := by
  unfold TokenReader.expect
  simp only [reads_bind, reads_peek, reads_ite, reads_advance, reads_failHere, exists_and_left,
    exists_eq_left, and_assoc, and_false, or_false]

theorem reads_enter {p : Position} {u : Unit} : Reads (TokenReader.enter p) c u c' ↔
    c.depth < maxDepth ∧ c' = { c with depth := c.depth + 1 } := by
  unfold TokenReader.enter
  simp only [reads_bind, reads_get, reads_ite, reads_fail, reads_modify, exists_and_left,
    exists_eq_left, and_assoc, false_and, and_false, false_or, exists_false, ge_iff_le, not_le]

theorem reads_enclosed {p : Position} {inner : TokenReader β} {b : β} :
    Reads (TokenReader.enclosed p inner) c b c' ↔ c.depth < maxDepth ∧
      ∃ c₁, Reads inner { c with depth := c.depth + 1 } b c₁ ∧ c' = { c₁ with depth := c₁.depth - 1 } := by
  unfold TokenReader.enclosed
  simp only [reads_bind, reads_enter, exists_and_left, exists_eq_left, and_assoc, exists_const]
  refine and_congr_right fun _ => ?_
  generalize ({ c with depth := c.depth + 1 } : Cursor) = deeper
  change ((inner.run.run deeper).1, { (inner.run.run deeper).2 with
    depth := (inner.run.run deeper).2.depth - 1 }) = (Except.ok b, c') ↔ _
  unfold Reads
  rcases inner.run.run deeper with ⟨outcome, c₁⟩
  constructor
  · intro h
    cases h
    exact ⟨c₁, rfl, rfl⟩
  · rintro ⟨_, h, rfl⟩
    cases h
    rfl

end

section
variable {c c' : Cursor}

def Node.join (op : BinaryOp) (left right : Node) : Node :=
  ⟨.binary op left.tree right.tree, max left.height right.height + 1⟩

theorem reads_joined {op : BinaryOp} {left right node : Node} {p : Position} :
    Reads (joined op left right p) c node c' ↔
      (Node.join op left right).height ≤ maxHeight ∧ node = .join op left right ∧ c' = c := by
  unfold joined Node.join
  simp only [reads_ite, reads_fail, reads_pure, and_false, false_or, gt_iff_lt, not_lt]

def chained (operator? : Lexeme → Option BinaryOp) (operand : TokenReader Node) : TokenReader Node := do
  let first ← operand
  chain operator? operand (← TokenReader.remaining) first

section
variable {operator? : Lexeme → Option BinaryOp} {operand : TokenReader Node}

theorem reads_chained {node : Node} :
    Reads (chained operator? operand) c node c' ↔ ∃ first c₁, Reads operand c first c₁ ∧
      Reads (chain operator? operand c₁.rest first) c₁ node c' := by
  unfold chained
  simp only [reads_bind, reads_remaining, exists_and_left, exists_eq_left, and_assoc]

theorem reads_chain_stop (rounds : List Token) (left : Node) (h : (next? c.rest).bind operator? = none) :
    Reads (chain operator? operand rounds left) c left c := by
  cases rounds with
  | nil => exact reads_pure.mpr ⟨rfl, rfl⟩
  | cons _ rounds =>
    unfold chain
    refine reads_bind.mpr ⟨_, c, reads_peek.mpr ⟨rfl, rfl⟩, ?_⟩
    rw [h]
    exact reads_pure.mpr ⟨rfl, rfl⟩

theorem reads_chain_cons {token : Token} {rounds : List Token} {left node : Node} {op : BinaryOp}
    (h : (next? c.rest).bind operator? = some op) :
    Reads (chain operator? operand (token :: rounds) left) c node c' ↔
      ∃ right c₁, Reads operand { c with rest := c.rest.tail } right c₁ ∧
        (Node.join op left right).height ≤ maxHeight ∧
        Reads (chain operator? operand rounds (.join op left right)) c₁ node c' := by
  rw [chain]
  simp only [reads_bind, reads_peek, exists_and_left, exists_eq_left, and_assoc, h, reads_here,
    reads_advance, reads_joined, exists_const]

end

theorem reads_lastArgument {done nodes : List Node} : Reads (lastArgument done) c nodes c' ↔
    next? c.rest = some .closeParen ∧ nodes = done.reverse ∧ c' = { c with rest := c.rest.tail } := by
  unfold lastArgument
  simp only [reads_bind, reads_expect, reads_pure, exists_and_left, exists_eq_left, and_assoc, exists_const]

theorem reads_moreArguments_nil {argument : TokenReader Node} {done nodes : List Node} :
    Reads (moreArguments argument [] done) c nodes c' ↔ Reads (lastArgument done) c nodes c' := by
  rw [moreArguments]

theorem reads_moreArguments_cons {argument : TokenReader Node} {token : Token} {rounds : List Token}
    {done nodes : List Node} : Reads (moreArguments argument (token :: rounds) done) c nodes c' ↔
      (next? c.rest = some .comma ∧ ∃ node c₁, Reads argument { c with rest := c.rest.tail } node c₁ ∧
        Reads (moreArguments argument rounds (node :: done)) c₁ nodes c') ∨
      (next? c.rest ≠ some .comma ∧ Reads (lastArgument done) c nodes c') := by
  rw [moreArguments]
  simp only [reads_bind, reads_peek, exists_and_left, exists_eq_left, and_assoc, reads_ite, reads_advance,
    exists_const, ne_eq]

theorem reads_arguments {argument : TokenReader Node} {nodes : List Node} :
    Reads (arguments argument) c nodes c' ↔
      (next? c.rest = some .closeParen ∧ nodes = [] ∧ c' = { c with rest := c.rest.tail }) ∨
      (next? c.rest ≠ some .closeParen ∧ ∃ first c₁, Reads argument c first c₁ ∧
        Reads (moreArguments argument c₁.rest [first]) c₁ nodes c') := by
  unfold arguments
  simp only [reads_bind, reads_peek, exists_and_left, exists_eq_left, and_assoc, reads_ite, reads_advance,
    reads_pure, reads_remaining, exists_const, ne_eq]

def Node.negated (operand : Node) : Node := ⟨.neg operand.tree, operand.height + 1⟩

def Node.called (name : String) (args : List Node) (position : Position) : Node :=
  ⟨.call name (args.map Node.tree) position, (args.map Node.height).foldr max 0 + 1⟩

section
variable {inner : Layer} {node : Node}

theorem reads_primary_nil (hrest : c.rest = []) : ¬ Reads (primary inner) c node c' := by
  intro h
  unfold primary at h
  simp only [reads_bind, reads_here, reads_peek, exists_and_left, exists_eq_left, and_assoc] at h
  rw [hrest] at h
  exact reads_fail h

theorem reads_primary_cons {token : Token} {rest : List Token} (hrest : c.rest = token :: rest) :
    Reads (primary inner) c node c' ↔ match token.lexeme with
      | .number value => node = ⟨.number value token.position, 1⟩ ∧ c' = { c with rest := rest }
      | .ident name =>
        (next? rest = some .openParen ∧ ∃ args, Reads (TokenReader.enclosed token.position
          (arguments inner.sum)) { c with rest := rest.tail } args c' ∧ node = .called name args token.position) ∨
        (next? rest ≠ some .openParen ∧ node = ⟨.ident name token.position, 1⟩ ∧ c' = { c with rest := rest })
      | .openParen => ∃ c₁, Reads (TokenReader.enclosed token.position inner.sum)
          { c with rest := rest } node c₁ ∧ next? c₁.rest = some .closeParen ∧
          next? c₁.rest.tail ≠ some .openParen ∧ c' = { c₁ with rest := c₁.rest.tail }
      | _ => False := by
  have hplace : c.place = token.position := by
    unfold Cursor.place
    rw [hrest]
  have hnext : next? c.rest = some token.lexeme := by
    rw [hrest]
    rfl
  unfold primary
  simp only [reads_bind, reads_here, reads_peek, exists_and_left, exists_eq_left, and_assoc, hplace, hnext]
  cases token.lexeme with
  | number value =>
    simp only [reads_bind, reads_advance, reads_pure, exists_eq_left, exists_const, hrest, List.tail_cons]
  | ident name =>
    simp only [reads_bind, reads_advance, reads_peek, reads_ite, reads_pure, exists_eq_left, exists_and_left,
      and_assoc, exists_const, exists_eq_right_right', hrest, List.tail_cons, ne_eq, Node.called]
  | openParen =>
    simp only [reads_bind, reads_advance, reads_peek, reads_expect, reads_ite, reads_pure, reads_failHere,
      exists_eq_left, exists_and_left, and_assoc, exists_const, hrest, List.tail_cons, ne_eq, false_and,
      exists_false, and_false, false_or]
    constructor
    · rintro ⟨_, c₁, hread, hclose, hopen, rfl, hc'⟩
      exact ⟨c₁, hread, hclose, hopen, hc'⟩
    · rintro ⟨c₁, hread, hclose, hopen, hc'⟩
      exact ⟨node, c₁, hread, hclose, hopen, rfl, hc'⟩
  | plus | minus | star | slash | closeParen | comma => exact iff_of_false reads_fail not_false

theorem reads_unary_nil (hrest : c.rest = []) : ¬ Reads (unary inner) c node c' := by
  intro h
  unfold unary at h
  simp only [reads_bind, reads_here, reads_peek, exists_and_left, exists_eq_left, and_assoc] at h
  rw [hrest] at h
  exact reads_primary_nil hrest h

theorem reads_unary_cons {token : Token} {rest : List Token} (hrest : c.rest = token :: rest) :
    Reads (unary inner) c node c' ↔ match token.lexeme with
      | .minus => ∃ operand, Reads (TokenReader.enclosed token.position inner.unary)
          { c with rest := rest } operand c' ∧ node = .negated operand
      | .plus => False
      | _ => Reads (primary inner) c node c' := by
  have hplace : c.place = token.position := by
    unfold Cursor.place
    rw [hrest]
  have hnext : next? c.rest = some token.lexeme := by
    rw [hrest]
    rfl
  unfold unary
  simp only [reads_bind, reads_here, reads_peek, exists_and_left, exists_eq_left, and_assoc, hplace, hnext]
  cases token.lexeme with
  | minus =>
    simp only [reads_bind, reads_advance, reads_pure, exists_eq_left, exists_const, exists_eq_right_right',
      hrest, List.tail_cons, Node.negated]
  | plus => exact iff_of_false reads_fail not_false
  | _ => exact Iff.rfl

end
end
end FormulaSynth.Formula
