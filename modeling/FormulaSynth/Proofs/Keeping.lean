import FormulaSynth.Proofs.Reading

/-!
# What readers keep

From a cursor enclosed `d` times in a stream, a reader of the grammar comes back to a cursor enclosed `d` times in
that stream, with an answer as with a fault, and a fault names a place of the stream. Readers are looked at in pairs:
two of them are alike if they cannot be told apart from such a cursor, so that a reader may stand for another where
the grammar calls it.
-/

set_option autoImplicit false
namespace FormulaSynth.Formula

/-- A token begins there, or the text ends there. -/
def TokenStream.IsPlace (stream : TokenStream) (position : Position) : Prop :=
  position = stream.stop ∨ ∃ token ∈ stream.tokens, token.position = position

structure Cursor.Within (stream : TokenStream) (d : ℕ) (c : Cursor) : Prop where
  rest : c.rest <:+ stream.tokens
  stop : c.stop = stream.stop
  depth : c.depth = d

def Expected {β : Type} (stream : TokenStream) (Answers : β → Prop) : Except Fault β → Prop
  | .ok b => Answers b
  | .error fault => fault.kind = .parse ∧ stream.IsPlace fault.position

/-- From each cursor enclosed `d` times, both readers do the same and come back to the depth they started at. -/
def Alike {β : Type} (stream : TokenStream) (d : ℕ) (Answers : β → Prop) (m m' : TokenReader β) : Prop :=
  ∀ c, c.Within stream d →
    m.run.run c = m'.run.run c ∧ Expected stream Answers (m.run.run c).1 ∧ (m.run.run c).2.Within stream d

def Anything {β : Type} (_ : β) : Prop := True

section
variable {β γ : Type} {stream : TokenStream} {d : ℕ} {Answers : β → Prop} {m m' : TokenReader β} {c : Cursor}

theorem Cursor.Within.place (h : c.Within stream d) : stream.IsPlace c.place := by
  unfold Cursor.place
  cases hrest : c.rest with
  | nil => exact .inl h.stop
  | cons token rest =>
    refine .inr ⟨token, h.rest.subset ?_, rfl⟩
    rw [hrest]
    exact List.mem_cons_self

theorem Cursor.Within.tail (h : c.Within stream d) : ({ c with rest := c.rest.tail } : Cursor).Within stream d :=
  ⟨(List.tail_suffix c.rest).trans h.rest, h.stop, h.depth⟩

namespace Alike

theorem of_run {f : Cursor → Except Fault β × Cursor} (hrun : ∀ c, m.run.run c = f c)
    (h : ∀ c, c.Within stream d → Expected stream Answers (f c).1 ∧ (f c).2.Within stream d) :
    Alike stream d Answers m m := by
  intro c hc
  rw [hrun]
  exact ⟨rfl, h c hc⟩

theorem pure {b : β} (h : Answers b) : Alike stream d Answers (pure b) (pure b) :=
  .of_run (fun _ => rfl) fun _ hc => ⟨h, hc⟩

theorem bind {Next : γ → Prop} {f f' : β → TokenReader γ} (h : Alike stream d Answers m m')
    (hf : ∀ b, Answers b → Alike stream d Next (f b) (f' b)) : Alike stream d Next (m >>= f) (m' >>= f') := by
  intro c hc
  obtain ⟨heq, hanswer, hwithin⟩ := h c hc
  rw [run_bind, run_bind, ← heq]
  generalize m.run.run c = reached at hanswer hwithin ⊢
  obtain ⟨fault | b, c₁⟩ := reached
  · exact ⟨rfl, hanswer, hwithin⟩
  · exact hf b hanswer c₁ hwithin

theorem fail {cause : Fault.Cause} {position : Position} (hkind : cause.kind = .parse)
    (hplace : stream.IsPlace position) :
    Alike stream d Answers (TokenReader.fail cause position) (TokenReader.fail cause position) :=
  .of_run (fun _ => rfl) fun _ hc => ⟨⟨hkind, hplace⟩, hc⟩

theorem ite {p : Prop} [Decidable p] {n n' : TokenReader β} (h : Alike stream d Answers m m')
    (h' : Alike stream d Answers n n') :
    Alike stream d Answers (if p then m else n) (if p then m' else n') := by
  split
  · exact h
  · exact h'

theorem peek : Alike stream d Anything TokenReader.peek TokenReader.peek :=
  .of_run (fun _ => rfl) fun _ hc => ⟨trivial, hc⟩

theorem remaining : Alike stream d Anything TokenReader.remaining TokenReader.remaining :=
  .of_run (fun _ => rfl) fun _ hc => ⟨trivial, hc⟩

theorem here : Alike stream d stream.IsPlace TokenReader.here TokenReader.here :=
  .of_run (fun _ => reads_here.mpr ⟨rfl, rfl⟩) fun _ hc => ⟨hc.place, hc⟩

theorem advance : Alike stream d Anything TokenReader.advance TokenReader.advance :=
  .of_run (fun _ => rfl) fun _ hc => ⟨trivial, hc.tail⟩

theorem failHere {cause : Fault.Cause} (hkind : cause.kind = .parse) :
    Alike stream d Answers (TokenReader.failHere cause) (TokenReader.failHere cause) :=
  here.bind fun _ hplace => fail hkind hplace

theorem expect (wanted : Lexeme) : Alike stream d Anything (TokenReader.expect wanted) (TokenReader.expect wanted) :=
  peek.bind fun _ _ => advance.ite (failHere rfl)

end Alike

theorem run_enclosed (position : Position) (inner : TokenReader β) (c : Cursor) :
    (TokenReader.enclosed position inner).run.run c =
      if c.depth < maxDepth then
        let (outcome, c₁) := inner.run.run { c with depth := c.depth + 1 }
        (outcome, { c₁ with depth := c₁.depth - 1 })
      else (.error ⟨.tooDeep, position⟩, c) := by
  unfold TokenReader.enclosed
  rw [run_bind]
  by_cases hlt : c.depth < maxDepth
  · have henter : Reads (TokenReader.enter position) c () { c with depth := c.depth + 1 } :=
      reads_enter.mpr ⟨hlt, rfl⟩
    unfold Reads at henter
    rw [henter, if_pos hlt]
    rfl
  · have henter : (TokenReader.enter position).run.run c = (.error ⟨.tooDeep, position⟩, c) := by
      unfold TokenReader.enter
      rw [run_bind, reads_get.mpr ⟨rfl, rfl⟩]
      simp only [run_bind, ge_iff_le, not_lt.mp hlt, ↓reduceIte]
      rfl
    rw [henter, if_neg hlt]

theorem Alike.enclosed {position : Position} (hplace : stream.IsPlace position)
    (h : d < maxDepth → Alike stream (d + 1) Answers m m') :
    Alike stream d Answers (TokenReader.enclosed position m) (TokenReader.enclosed position m') := by
  intro c hc
  rw [run_enclosed, run_enclosed]
  split
  · rename_i hlt
    rw [hc.depth] at hlt
    have hdeeper : ({ c with depth := c.depth + 1 } : Cursor).Within stream (d + 1) :=
      ⟨hc.rest, hc.stop, congrArg (· + 1) hc.depth⟩
    obtain ⟨heq, hanswer, hwithin⟩ := h hlt _ hdeeper
    refine ⟨by rw [heq], hanswer, hwithin.rest, hwithin.stop, ?_⟩
    exact congrArg (· - 1) hwithin.depth
  · exact ⟨rfl, ⟨rfl, hplace⟩, hc⟩

end

section
variable {stream : TokenStream} {d : ℕ} {operand operand' : TokenReader Node} {inner inner' : Layer}

theorem joined_alike (op : BinaryOp) (left right : Node) {position : Position} (hplace : stream.IsPlace position) :
    Alike stream d Anything (joined op left right position) (joined op left right position) :=
  .ite (.fail rfl hplace) (.pure trivial)

theorem chain_alike {operator? : Lexeme → Option BinaryOp} (hoperand : Alike stream d Anything operand operand')
    (rounds : List Token) (left : Node) :
    Alike stream d Anything (chain operator? operand rounds left) (chain operator? operand' rounds left) := by
  induction rounds generalizing left with
  | nil => exact .pure trivial
  | cons token rounds ih =>
    unfold chain
    refine Alike.peek.bind fun found _ => ?_
    cases found.bind operator? with
    | none => exact .pure trivial
    | some op =>
      refine Alike.here.bind fun position hplace => Alike.advance.bind fun _ _ => hoperand.bind fun right _ => ?_
      exact (joined_alike op left right hplace).bind fun both _ => ih both

theorem product_alike (hoperand : Alike stream d Anything operand operand') :
    Alike stream d Anything (product operand) (product operand') :=
  hoperand.bind fun first _ => Alike.remaining.bind fun rounds _ => chain_alike hoperand rounds first

theorem sum_alike (hoperand : Alike stream d Anything operand operand') :
    Alike stream d Anything (sum operand) (sum operand') :=
  have hproduct := product_alike hoperand
  hproduct.bind fun first _ => Alike.remaining.bind fun rounds _ => chain_alike hproduct rounds first

theorem lastArgument_alike (done : List Node) :
    Alike stream d Anything (lastArgument done) (lastArgument done) :=
  (Alike.expect .closeParen).bind fun _ _ => .pure trivial

theorem moreArguments_alike (hoperand : Alike stream d Anything operand operand') (rounds : List Token)
    (done : List Node) :
    Alike stream d Anything (moreArguments operand rounds done) (moreArguments operand' rounds done) := by
  induction rounds generalizing done with
  | nil => exact lastArgument_alike done
  | cons token rounds ih =>
    unfold moreArguments
    refine Alike.peek.bind fun found _ => .ite ?_ (lastArgument_alike done)
    exact Alike.advance.bind fun _ _ => hoperand.bind fun next _ => ih (next :: done)

theorem arguments_alike (hoperand : Alike stream d Anything operand operand') :
    Alike stream d Anything (arguments operand) (arguments operand') := by
  refine Alike.peek.bind fun found _ => .ite (Alike.advance.bind fun _ _ => .pure trivial) ?_
  exact hoperand.bind fun first _ => Alike.remaining.bind fun rounds _ => moreArguments_alike hoperand rounds [first]

structure Layer.Alike (stream : TokenStream) (d : ℕ) (l l' : Layer) : Prop where
  sum : Formula.Alike stream d Anything l.sum l'.sum
  unary : Formula.Alike stream d Anything l.unary l'.unary

theorem primary_alike (hinner : d < maxDepth → inner.Alike stream (d + 1) inner') :
    Alike stream d Anything (primary inner) (primary inner') := by
  refine Alike.here.bind fun position hplace => Alike.peek.bind fun found _ => ?_
  match found with
  | some (.number value) => exact Alike.advance.bind fun _ _ => .pure trivial
  | some (.ident name) =>
    refine Alike.advance.bind fun _ _ => Alike.peek.bind fun next _ => .ite ?_ (.pure trivial)
    refine Alike.advance.bind fun _ _ => ?_
    exact (Alike.enclosed hplace fun h => arguments_alike (hinner h).sum).bind fun args _ => .pure trivial
  | some .openParen =>
    refine Alike.advance.bind fun _ _ => (Alike.enclosed hplace fun h => (hinner h).sum).bind fun node _ => ?_
    refine (Alike.expect .closeParen).bind fun _ _ => Alike.peek.bind fun next _ => ?_
    let refusal : TokenReader Unit := TokenReader.failHere .calleeNotName
    have hrefusal : Alike stream d Anything refusal refusal := .failHere rfl
    exact .ite (hrefusal.bind fun _ _ => .pure trivial) (.pure trivial)
  | some .plus | some .minus | some .star | some .slash | some .closeParen | some .comma | none =>
    exact .fail rfl hplace

theorem unary_alike (hinner : d < maxDepth → inner.Alike stream (d + 1) inner') :
    Alike stream d Anything (unary inner) (unary inner') := by
  refine Alike.here.bind fun position hplace => Alike.peek.bind fun found _ => ?_
  match found with
  | some .minus =>
    refine Alike.advance.bind fun _ _ => ?_
    exact (Alike.enclosed hplace fun h => (hinner h).unary).bind fun operand _ => .pure trivial
  | some .plus => exact .fail rfl hplace
  | some (.number _) | some (.ident _) | some .star | some .slash | some .openParen | some .closeParen
  | some .comma | none => exact primary_alike hinner

theorem Layer.Alike.around (hinner : d < maxDepth → inner.Alike stream (d + 1) inner') :
    (Layer.around inner).Alike stream d (Layer.around inner') :=
  have hunary := unary_alike hinner
  ⟨sum_alike hunary, hunary⟩

def below : ℕ → Layer
  | 0 => ⟨TokenReader.failHere .tooDeep, TokenReader.failHere .tooDeep⟩
  | n + 1 => layer n

theorem layer_eq (n : ℕ) : layer n = Layer.around (below n) := by
  cases n <;> rfl

/-- Layers that call one another as those of the parser do cannot be told from them, as long as there are enough for
    the depth. -/
theorem layer_alike {other inner : ℕ → Layer} (heq : ∀ n, other n = .around (inner n))
    (hcalls : ∀ d n, d < maxDepth → (layer n).Alike stream (d + 1) (other n) →
      (layer n).Alike stream (d + 1) (inner (n + 1)))
    {n d : ℕ} (h : maxDepth ≤ d + n) : (layer n).Alike stream d (other n) := by
  induction n generalizing d with
  | zero =>
    rw [heq]
    exact .around fun hlt => absurd h (not_le.mpr hlt)
  | succ n ih =>
    rw [heq]
    exact .around fun hlt => hcalls d n hlt (ih (by omega))

end
end FormulaSynth.Formula
