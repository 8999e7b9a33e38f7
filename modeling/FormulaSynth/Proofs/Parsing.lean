import FormulaSynth.Proofs.Grammar
import FormulaSynth.Proofs.Reading

/-!
# The parser reads exactly the grammar

A reader of one rank answers a tree exactly where tokens of that rank stand, within both limits. One layer of
readers is shown right over the next deeper one, so that the recursion is on the layers, and loops are followed
token by token.
-/

set_option autoImplicit false
namespace FormulaSynth.Formula

def Node.of (t : Tree) : Node := ⟨t, t.height⟩

theorem heights_eq_foldr (args : List Tree) :
    Tree.height.heights args = ((args.map Node.of).map Node.height).foldr max 0 := by
  induction args with
  | nil => rfl
  | cons t args ih => exact congrArg (max t.height) ih

theorem called_of (name : String) (args : List Tree) (position : Position) :
    Node.called name (args.map Node.of) position = .of (.call name args position) := by
  have htrees : (args.map Node.of).map Node.tree = args := by
    rw [List.map_map]
    exact List.map_id _
  unfold Node.called
  rw [htrees, ← heights_eq_foldr]
  rfl

theorem next?_eq_some {ts : List Token} {l : Lexeme} (h : next? ts = some l) :
    ∃ o rest, ts = o :: rest ∧ o.lexeme = l := by
  cases ts with
  | nil => cases h
  | cons o rest => exact ⟨o, rest, rfl, Option.some.inj h⟩

/-- The tokens between two cursors form the tree, within both limits. -/
def Spans (Operand : List Token → Tree → ℕ → Prop) (c : Cursor) (t : Tree) (c' : Cursor) : Prop :=
  t.Low ∧ ∃ ts n, Operand ts t n ∧ c.depth + n ≤ maxDepth ∧ c = { c' with rest := ts ++ c'.rest }

section
variable (Operand : List Token → Tree → ℕ → Prop) (d : ℕ)

/-- At depth `d`, the reader answers only what stands there. -/
def Sound (m : TokenReader Node) : Prop :=
  ∀ ⦃c c' : Cursor⦄ ⦃node : Node⦄, c.depth = d → Reads m c node c' →
    ∃ t, node = .of t ∧ Spans Operand c t c'

/-- At depth `d`, the reader answers what stands there, unless it could go on behind it. -/
def Complete (Stop : Option Lexeme → Prop) (m : TokenReader Node) : Prop :=
  ∀ ⦃c c' : Cursor⦄ ⦃t : Tree⦄, c.depth = d → Spans Operand c t c' → Stop (next? c'.rest) →
    Reads m c (.of t) c'

end

/-! ## Chains -/

section
variable {Operand : List Token → Tree → ℕ → Prop} {operator? : Lexeme → Option BinaryOp} {d : ℕ}
  {operand : TokenReader Node}

theorem Spans.depth {c c' : Cursor} {t : Tree} (h : Spans Operand c t c') : c.depth = c'.depth := by
  obtain ⟨-, _, _, -, -, hc⟩ := h
  rw [hc]

theorem Spans.one {c c' : Cursor} {t : Tree} (h : Spans Operand c t c') :
    Spans (Chain operator? Operand) c t c' := by
  obtain ⟨hlow, ts, n, ht, hdepth, hc⟩ := h
  exact ⟨hlow, ts, n, .one ht, hdepth, hc⟩

theorem Spans.join {start c c' : Cursor} {t u : Tree} {op : BinaryOp}
    (h : Spans (Chain operator? Operand) start t c) (hop : (next? c.rest).bind operator? = some op)
    (hu : Spans Operand { c with rest := c.rest.tail } u c')
    (hheight : (Tree.binary op t u).height ≤ maxHeight) :
    Spans (Chain operator? Operand) start (.binary op t u) c' := by
  obtain ⟨l, hl, hop⟩ := Option.bind_eq_some_iff.mp hop
  obtain ⟨o, rest, hrest, rfl⟩ := next?_eq_some hl
  have hdepth := h.depth
  obtain ⟨htlow, ts, m, ht, hm, hstart⟩ := h
  obtain ⟨hulow, us, n, hu, hn, hc⟩ := hu
  refine ⟨⟨htlow, hulow, hheight⟩, ts ++ o :: us, max m n, .join ht hop hu, ?_, ?_⟩
  · simp only at hn
    omega
  · rw [hrest, List.tail_cons, Cursor.mk.injEq] at hc
    obtain ⟨hr, hs, hd⟩ := hc
    rw [hstart, hrest, hr, hs, hd, List.append_assoc, List.cons_append]

theorem chain_sound (hoperand : Sound Operand d operand) {rounds : List Token} {start c c' : Cursor}
    {left : Tree} {node : Node} (hd : start.depth = d) (hleft : Spans (Chain operator? Operand) start left c)
    (h : Reads (chain operator? operand rounds (.of left)) c node c') :
    ∃ t, node = .of t ∧ Spans (Chain operator? Operand) start t c' := by
  induction rounds generalizing left c with
  | nil =>
    obtain ⟨rfl, rfl⟩ := reads_pure.mp h
    exact ⟨left, rfl, hleft⟩
  | cons token rounds ih =>
    cases hop : (next? c.rest).bind operator? with
    | none =>
      obtain ⟨rfl, rfl⟩ := h.unique (reads_chain_stop _ _ hop)
      exact ⟨left, rfl, hleft⟩
    | some op =>
      obtain ⟨right, c₁, hright, hheight, h⟩ := (reads_chain_cons hop).mp h
      have hdeep : ({ c with rest := c.rest.tail } : Cursor).depth = d := hleft.depth.symm.trans hd
      obtain ⟨u, rfl, hu⟩ := hoperand hdeep hright
      exact ih (hleft.join hop hu hheight) h

theorem Sound.chained (hoperand : Sound Operand d operand) :
    Sound (Chain operator? Operand) d (chained operator? operand) := by
  intro c c' node hd h
  obtain ⟨first, c₁, hfirst, h⟩ := reads_chained.mp h
  obtain ⟨t, rfl, ht⟩ := hoperand hd hfirst
  exact chain_sound hoperand hd ht.one h

/-- Reading a chain comes to the point behind its last operand, with the whole chain as the left operand of what
    may follow, and with enough rounds left to read on. -/
theorem chained_reaches {Stop : Option Lexeme → Prop} (hoperand : Complete Operand d Stop operand)
    (hstop : ∀ {l op}, operator? l = some op → Stop (some l)) {ts : List Token} {t : Tree} {n : ℕ}
    (h : Chain operator? Operand ts t n) {c c₁ : Cursor} (hd : c.depth = d) (hlow : t.Low)
    (hdepth : c.depth + n ≤ maxDepth) (hc : c = { c₁ with rest := ts ++ c₁.rest }) (hend : Stop (next? c₁.rest)) :
    ∃ rounds : List Token, c₁.rest.length ≤ rounds.length ∧ ∀ {node c'},
      Reads (chain operator? operand rounds (.of t)) c₁ node c' →
        Reads (chained operator? operand) c node c' := by
  induction h generalizing c₁ with
  | @one ts t n h =>
    have hspan : Spans Operand c t c₁ := ⟨hlow, ts, n, h, hdepth, hc⟩
    exact ⟨c₁.rest, le_refl _, fun h => reads_chained.mpr ⟨_, c₁, hoperand hd hspan hend, h⟩⟩
  | @join ts us t u m n o op _ hop hu ih =>
    obtain ⟨htlow, hulow, hheight⟩ := hlow
    have hnext : (next? (o :: (us ++ c₁.rest))).bind operator? = some op := hop
    let middle : Cursor := { c₁ with rest := o :: (us ++ c₁.rest) }
    have hmiddle : c = { middle with rest := ts ++ middle.rest } := by
      rw [hc, List.append_assoc, List.cons_append]
    obtain ⟨rounds, hlength, hreach⟩ := ih htlow (by omega) hmiddle (hstop hop)
    cases rounds with
    | nil => simp [middle] at hlength
    | cons token rounds =>
      refine ⟨rounds, ?_, fun h => hreach ((reads_chain_cons hnext).mpr ⟨.of u, c₁, ?_, hheight, h⟩)⟩
      · simp only [middle, List.length_cons, List.length_append] at hlength
        omega
      · have hsame : c₁.depth = c.depth := by
          rw [hc]
        refine hoperand (hsame.trans hd) ⟨hulow, us, n, hu, ?_, rfl⟩ hend
        change c₁.depth + n ≤ maxDepth
        omega

theorem Complete.chained {Stop : Option Lexeme → Prop} (hoperand : Complete Operand d Stop operand)
    (hstop : ∀ {l op}, operator? l = some op → Stop (some l)) :
    Complete (Chain operator? Operand) d (fun l => Stop l ∧ l.bind operator? = none)
      (chained operator? operand) := by
  intro c c' t hd hspan hend
  obtain ⟨hlow, ts, n, h, hdepth, hc⟩ := hspan
  obtain ⟨rounds, -, hreach⟩ := chained_reaches hoperand hstop h hd hlow hdepth hc hend.1
  exact hreach (reads_chain_stop rounds _ hend.2)

end

/-! ## Arguments -/

def SpansAll (Operands : List Token → List Tree → ℕ → Prop) (c : Cursor) (args : List Tree) (c' : Cursor) : Prop :=
  Tree.Low.AllLow args ∧ ∃ ts n, Operands ts args n ∧ c.depth + n ≤ maxDepth ∧ c = { c' with rest := ts ++ c'.rest }

def StopSum (l : Option Lexeme) : Prop :=
  (l ≠ some .openParen ∧ l.bind productOperator? = none) ∧ l.bind sumOperator? = none

section
variable {d : ℕ} {argument : TokenReader Node} {c c' : Cursor}

theorem lastArgument_sound {done nodes : List Node} (hle : c.depth ≤ maxDepth)
    (h : Reads (lastArgument done) c nodes c') : nodes = done.reverse ∧ SpansAll MoreArguments c [] c' := by
  obtain ⟨hnext, rfl, rfl⟩ := reads_lastArgument.mp h
  obtain ⟨r, rest, hrest, hr⟩ := next?_eq_some hnext
  refine ⟨rfl, trivial, [r], 0, .close hr, hle, ?_⟩
  rw [hrest, List.tail_cons, List.singleton_append, ← hrest]

theorem Spans.cons_all {c₁ : Cursor} {t : Tree} {args : List Tree}
    (ht : Spans (Derives .sum) { c with rest := c.rest.tail } t c₁) (hcomma : next? c.rest = some .comma)
    (hargs : SpansAll MoreArguments c₁ args c') :
    SpansAll MoreArguments c (t :: args) c' := by
  obtain ⟨o, rest, hrest, ho⟩ := next?_eq_some hcomma
  have hdepth := ht.depth
  obtain ⟨htlow, ts, m, ht, hm, hc⟩ := ht
  obtain ⟨hlow, us, n, hmore, hn, hc₁⟩ := hargs
  refine ⟨⟨htlow, hlow⟩, o :: (ts ++ us), max m n, .cons ho ht hmore, ?_, ?_⟩
  · simp only at hm hdepth
    omega
  · rw [hc₁, hrest, List.tail_cons, Cursor.mk.injEq] at hc
    obtain ⟨hr, hs, hd⟩ := hc
    rw [← hs, ← hd, List.cons_append, List.append_assoc, ← hr, ← hrest]

theorem moreArguments_sound (hargument : Sound (Derives .sum) d argument) {rounds : List Token}
    {done nodes : List Node} (hd : c.depth = d) (hle : d ≤ maxDepth)
    (h : Reads (moreArguments argument rounds done) c nodes c') :
    ∃ args, nodes = done.reverse ++ args.map .of ∧ SpansAll MoreArguments c args c' := by
  induction rounds generalizing done c with
  | nil =>
    obtain ⟨rfl, hspan⟩ := lastArgument_sound (hd.trans_le hle) (reads_moreArguments_nil.mp h)
    exact ⟨[], (List.append_nil _).symm, hspan⟩
  | cons token rounds ih =>
    rcases reads_moreArguments_cons.mp h with ⟨hcomma, node, c₁, hnode, h⟩ | ⟨-, h⟩
    · have hdeep : ({ c with rest := c.rest.tail } : Cursor).depth = d := hd
      obtain ⟨t, rfl, ht⟩ := hargument hdeep hnode
      obtain ⟨args, rfl, hargs⟩ := ih (ht.depth.symm.trans hd) h
      refine ⟨t :: args, ?_, ht.cons_all hcomma hargs⟩
      rw [List.reverse_cons, List.append_assoc]
      rfl
    · obtain ⟨rfl, hspan⟩ := lastArgument_sound (hd.trans_le hle) h
      exact ⟨[], (List.append_nil _).symm, hspan⟩

theorem arguments_sound (hargument : Sound (Derives .sum) d argument) {nodes : List Node} (hd : c.depth = d)
    (hle : d ≤ maxDepth) (h : Reads (arguments argument) c nodes c') :
    ∃ args, nodes = args.map .of ∧ SpansAll Closing c args c' := by
  rcases reads_arguments.mp h with ⟨hclose, rfl, rfl⟩ | ⟨-, first, c₁, hfirst, h⟩
  · obtain ⟨r, rest, hrest, hr⟩ := next?_eq_some hclose
    refine ⟨[], rfl, trivial, [r], 0, .empty hr, hd.trans_le hle, ?_⟩
    rw [hrest, List.tail_cons, List.singleton_append, ← hrest]
  · obtain ⟨t, rfl, ht⟩ := hargument hd hfirst
    have hdepth := ht.depth
    obtain ⟨args, rfl, hlow, us, n, hmore, hn, hc₁⟩ := moreArguments_sound hargument (hdepth.symm.trans hd) hle h
    obtain ⟨htlow, ts, m, ht, hm, hc⟩ := ht
    refine ⟨t :: args, rfl, ⟨htlow, hlow⟩, ts ++ us, max m n, .filled ht hmore, by omega, ?_⟩
    rw [hc, hc₁, List.append_assoc]

theorem stopSum_of_more {us : List Token} {args : List Tree} {n : ℕ} (h : MoreArguments us args n)
    (rest : List Token) : StopSum (next? (us ++ rest)) := by
  cases h with
  | close hr =>
    change StopSum (some _)
    rw [hr]
    exact ⟨⟨nofun, rfl⟩, rfl⟩
  | cons ho =>
    change StopSum (some _)
    rw [ho]
    exact ⟨⟨nofun, rfl⟩, rfl⟩

theorem moreArguments_close {r : Token} (hr : r.lexeme = .closeParen) {rounds : List Token} {done : List Node}
    (hc : c = { c' with rest := r :: c'.rest }) :
    Reads (moreArguments argument rounds done) c done.reverse c' := by
  have hrest : c.rest = r :: c'.rest := by
    rw [hc]
  have hnext : next? c.rest = some .closeParen := by
    rw [hrest, ← hr]
    rfl
  have hlast : Reads (lastArgument done) c done.reverse c' := by
    refine reads_lastArgument.mpr ⟨hnext, rfl, ?_⟩
    rw [hrest, List.tail_cons, hc]
  cases rounds with
  | nil => exact reads_moreArguments_nil.mpr hlast
  | cons _ rounds =>
    refine reads_moreArguments_cons.mpr (.inr ⟨?_, hlast⟩)
    rw [hnext]
    nofun

theorem moreArguments_complete (hargument : Complete (Derives .sum) d StopSum argument) {us : List Token}
    {args : List Tree} {n : ℕ} (h : MoreArguments us args n) {rounds : List Token} {done : List Node}
    (hd : c.depth = d) (hn : d + n ≤ maxDepth) (hlow : Tree.Low.AllLow args)
    (hc : c = { c' with rest := us ++ c'.rest }) (hrounds : c.rest.length ≤ rounds.length) :
    Reads (moreArguments argument rounds done) c (done.reverse ++ args.map .of) c' := by
  induction h generalizing rounds done c with
  | @close r hr =>
    rw [List.map_nil, List.append_nil]
    exact moreArguments_close hr hc
  | @cons o ts us t args m n ho ht hmore ih =>
    have hrest : c.rest = o :: (ts ++ (us ++ c'.rest)) := by
      rw [hc, List.cons_append, List.append_assoc]
    have hnext : next? c.rest = some .comma := by
      rw [hrest, ← ho]
      rfl
    cases rounds with
    | nil =>
      rw [hrest] at hrounds
      cases hrounds
    | cons token rounds =>
      let behind : Cursor := { c' with rest := us ++ c'.rest }
      have hbehind : behind.depth = d := by
        rw [← hd, hc]
      have hspan : Spans (Derives .sum) { c with rest := c.rest.tail } t behind := by
        refine ⟨hlow.1, ts, m, ht, ?_, ?_⟩
        · change c.depth + m ≤ maxDepth
          omega
        · rw [hrest, List.tail_cons, hc]
      have hstop : StopSum (next? behind.rest) := stopSum_of_more hmore _
      have hlength : behind.rest.length ≤ rounds.length := by
        rw [hrest] at hrounds
        simp only [List.length_cons, List.length_append, behind] at hrounds ⊢
        omega
      have hrec : Reads (moreArguments argument rounds (.of t :: done)) behind
          ((.of t :: done).reverse ++ args.map .of) c' := ih hbehind (by omega) hlow.2 rfl hlength
      rw [List.reverse_cons, List.append_assoc] at hrec
      exact reads_moreArguments_cons.mpr (.inl ⟨hnext, .of t, behind, hargument hd hspan hstop, hrec⟩)

theorem arguments_complete (hargument : Complete (Derives .sum) d StopSum argument) {args : List Tree}
    (hd : c.depth = d) (h : SpansAll Closing c args c') : Reads (arguments argument) c (args.map .of) c' := by
  obtain ⟨hlow, ts, n, h, hn, hc⟩ := h
  cases h with
  | @empty r hr =>
    have hrest : c.rest = r :: c'.rest := by
      rw [hc]
      rfl
    refine reads_arguments.mpr (.inl ⟨?_, rfl, ?_⟩)
    · rw [hrest, ← hr]
      rfl
    · rw [hrest, List.tail_cons, hc]
  | @filled ts us t args m n ht hmore =>
    let behind : Cursor := { c' with rest := us ++ c'.rest }
    have hbehind : behind.depth = d := by
      rw [← hd, hc]
    have hspan : Spans (Derives .sum) c t behind :=
      ⟨hlow.1, ts, m, ht, by omega, by rw [hc, List.append_assoc]⟩
    have hfirst := hargument hd hspan (stopSum_of_more hmore _)
    have hmore : Reads (moreArguments argument behind.rest [.of t]) behind
        ([Node.of t].reverse ++ args.map .of) c' :=
      moreArguments_complete hargument hmore hbehind (by omega) hlow.2 rfl (le_refl _)
    refine reads_arguments.mpr (.inr ⟨?_, .of t, behind, hfirst, hmore⟩)
    obtain ⟨o, rest, rfl, ho⟩ := sum_starts ht
    rw [hc]
    intro hclose
    exact ho (Option.some.inj hclose)

end

/-! ## One layer over the next -/

inductive Enclosed (Operand : List Token → Tree → ℕ → Prop) : List Token → Tree → ℕ → Prop
  | of {ts t n} : Operand ts t n → Enclosed Operand ts t (n + 1)

section
variable {Operand : List Token → Tree → ℕ → Prop} {d : ℕ} {reader : TokenReader Node}

theorem back_out {c c₁ : Cursor} {ts : List Token}
    (h : ({ c with depth := c.depth + 1 } : Cursor) = { c₁ with rest := ts ++ c₁.rest }) :
    c = { c₁ with rest := ts ++ c₁.rest, depth := c₁.depth - 1 } := by
  rw [Cursor.mk.injEq] at h
  obtain ⟨hr, hs, hd⟩ := h
  rw [← hr, ← hs, ← hd]
  rfl

theorem Sound.enclosed (position : Position) (hreader : d < maxDepth → Sound Operand (d + 1) reader) :
    Sound (Enclosed Operand) d (TokenReader.enclosed position reader) := by
  intro c c' node hd h
  obtain ⟨hlt, c₁, hread, rfl⟩ := reads_enclosed.mp h
  have hdeep : ({ c with depth := c.depth + 1 } : Cursor).depth = d + 1 := congrArg (· + 1) hd
  obtain ⟨t, rfl, hlow, ts, n, ht, hn, hc⟩ := hreader (hd ▸ hlt) hdeep hread
  refine ⟨t, rfl, hlow, ts, n + 1, .of ht, ?_, back_out hc⟩
  simp only at hn
  omega

theorem Complete.enclosed {Stop : Option Lexeme → Prop} (position : Position)
    (hreader : d < maxDepth → Complete Operand (d + 1) Stop reader) :
    Complete (Enclosed Operand) d Stop (TokenReader.enclosed position reader) := by
  intro c c' t hd hspan hend
  obtain ⟨hlow, ts, _, ⟨ht⟩, hn, hc⟩ := hspan
  have hdeep : ({ c with depth := c.depth + 1 } : Cursor).depth = d + 1 := congrArg (· + 1) hd
  refine reads_enclosed.mpr ⟨by omega, { c' with depth := c'.depth + 1 }, ?_, rfl⟩
  refine hreader (by omega) hdeep ⟨hlow, ts, _, ht, ?_, ?_⟩ hend
  · simp only
    omega
  · rw [hc]

theorem enclosed_arguments_sound {position : Position} {c c' : Cursor} {nodes : List Node}
    (hreader : d < maxDepth → Sound (Derives .sum) (d + 1) reader) (hd : c.depth = d)
    (h : Reads (TokenReader.enclosed position (arguments reader)) c nodes c') :
    ∃ args, nodes = args.map .of ∧ Tree.Low.AllLow args ∧ ∃ us n, Closing us args n ∧
      c.depth + (n + 1) ≤ maxDepth ∧ c = { c' with rest := us ++ c'.rest } := by
  obtain ⟨hlt, c₁, hread, rfl⟩ := reads_enclosed.mp h
  have hdeep : ({ c with depth := c.depth + 1 } : Cursor).depth = d + 1 := congrArg (· + 1) hd
  obtain ⟨args, rfl, hlow, us, n, hargs, hn, hc⟩ :=
    arguments_sound (hreader (hd ▸ hlt)) hdeep (by omega) hread
  refine ⟨args, rfl, hlow, us, n, hargs, ?_, back_out hc⟩
  simp only at hn
  omega

theorem enclosed_arguments_complete {position : Position} {c c' : Cursor} {args : List Tree} {us : List Token}
    {n : ℕ} (hreader : d < maxDepth → Complete (Derives .sum) (d + 1) StopSum reader) (hd : c.depth = d)
    (hlow : Tree.Low.AllLow args) (h : Closing us args n) (hn : d + (n + 1) ≤ maxDepth)
    (hc : c = { c' with rest := us ++ c'.rest }) :
    Reads (TokenReader.enclosed position (arguments reader)) c (args.map .of) c' := by
  have hdeep : ({ c with depth := c.depth + 1 } : Cursor).depth = d + 1 := congrArg (· + 1) hd
  refine reads_enclosed.mpr ⟨by omega, { c' with depth := c'.depth + 1 }, ?_, rfl⟩
  refine arguments_complete (hreader (by omega)) hdeep ⟨hlow, us, n, h, ?_, ?_⟩
  · simp only
    omega
  · rw [hc]

variable {inner : Layer}

theorem consumed {c : Cursor} {ts us : List Token} (h : c.rest = ts ++ us) :
    c = { c with rest := ts ++ us } := by
  rw [← h]

theorem rest_of_consumed {c c' : Cursor} {ts : List Token} (h : c = { c' with rest := ts ++ c'.rest }) :
    c.rest = ts ++ c'.rest ∧ c' = { c with rest := c'.rest } := by
  rw [h]
  exact ⟨rfl, rfl⟩

theorem at_rest {c c' : Cursor} (h : c' = { c with rest := c'.rest }) (ts : List Token) :
    ({ c with rest := ts ++ c'.rest } : Cursor) = { c' with rest := ts ++ c'.rest } := by
  rw [h]

theorem consumed_before {c c' : Cursor} {us rest : List Token} (ts : List Token) (hrest : c.rest = ts ++ rest)
    (hc : ({ c with rest := rest } : Cursor) = { c' with rest := us ++ c'.rest }) :
    c = { c' with rest := ts ++ us ++ c'.rest } := by
  rw [Cursor.mk.injEq] at hc
  obtain ⟨hr, hs, hd⟩ := hc
  rw [List.append_assoc, ← hr, ← hrest, ← hs, ← hd]

theorem primary_sound (hle : d ≤ maxDepth) (hsum : d < maxDepth → Sound (Derives .sum) (d + 1) inner.sum) :
    Sound (Derives .primary) d (primary inner) := by
  intro c c' node hd h
  cases hrest : c.rest with
  | nil => exact absurd h (reads_primary_nil hrest)
  | cons o rest =>
    rw [reads_primary_cons hrest] at h
    cases ho : o.lexeme with
    | number value =>
      rw [ho] at h
      obtain ⟨rfl, rfl⟩ := h
      exact ⟨_, rfl, trivial, [o], 0, .number ho, hd.trans_le hle, consumed hrest⟩
    | ident name =>
      rw [ho] at h
      rcases h with ⟨hopen, nodes, hcall, rfl⟩ | ⟨-, rfl, rfl⟩
      · obtain ⟨l, rest, rfl, hl⟩ := next?_eq_some hopen
        have hdeep : ({ c with rest := rest } : Cursor).depth = d := hd
        obtain ⟨args, rfl, hlow, us, n, hargs, hn, hc⟩ := enclosed_arguments_sound hsum hdeep hcall
        exact ⟨_, called_of name args _, hlow, o :: l :: us, n + 1, call_of_closing ho hl hargs, hn,
          consumed_before [o, l] hrest hc⟩
      · exact ⟨_, rfl, trivial, [o], 0, .ident ho, hd.trans_le hle, consumed hrest⟩
    | openParen =>
      rw [ho] at h
      obtain ⟨c₁, hgroup, hclose, -, rfl⟩ := h
      have hdeep : ({ c with rest := rest } : Cursor).depth = d := hd
      obtain ⟨t, rfl, hlow, ts, _, ⟨ht⟩, hn, hc⟩ := Sound.enclosed o.position hsum hdeep hgroup
      obtain ⟨r, more, hr, hrclose⟩ := next?_eq_some hclose
      have hclosed : ({ c with rest := rest } : Cursor) =
          { c₁ with rest := (ts ++ [r]) ++ c₁.rest.tail } := by
        rw [hc, hr, List.tail_cons, List.append_assoc, List.singleton_append]
      exact ⟨t, rfl, hlow, o :: (ts ++ [r]), _, .group ho ht hrclose, hn, consumed_before [o] hrest hclosed⟩
    | plus | minus | star | slash | closeParen | comma =>
      rw [ho] at h
      exact h.elim

theorem unary_sound (hle : d ≤ maxDepth) (hsum : d < maxDepth → Sound (Derives .sum) (d + 1) inner.sum)
    (hunary : d < maxDepth → Sound (Derives .unary) (d + 1) inner.unary) :
    Sound (Derives .unary) d (unary inner) := by
  intro c c' node hd h
  have hprimary : Reads (primary inner) c node c' → ∃ t, node = .of t ∧ Spans (Derives .unary) c t c' := by
    intro h
    obtain ⟨t, ht, hlow, ts, n, hderives, hn, hc⟩ := primary_sound hle hsum hd h
    exact ⟨t, ht, hlow, ts, n, .primary hderives, hn, hc⟩
  cases hrest : c.rest with
  | nil => exact absurd h (reads_unary_nil hrest)
  | cons o rest =>
    rw [reads_unary_cons hrest] at h
    cases ho : o.lexeme with
    | minus =>
      rw [ho] at h
      obtain ⟨operand, hoperand, rfl⟩ := h
      have hdeep : ({ c with rest := rest } : Cursor).depth = d := hd
      obtain ⟨t, rfl, hlow, ts, _, ⟨ht⟩, hn, hc⟩ := Sound.enclosed o.position hunary hdeep hoperand
      exact ⟨.neg t, rfl, hlow, o :: ts, _, .neg ho ht, hn, consumed_before [o] hrest hc⟩
    | plus =>
      rw [ho] at h
      exact h.elim
    | number | ident | star | slash | openParen | closeParen | comma =>
      rw [ho] at h
      exact hprimary h

theorem primary_complete (hsum : d < maxDepth → Complete (Derives .sum) (d + 1) StopSum inner.sum) :
    Complete (Derives .primary) d (· ≠ some .openParen) (primary inner) := by
  intro c c' t hd hspan hend
  obtain ⟨hlow, ts, n, h, hn, hc⟩ := hspan
  obtain ⟨hrest, hc'⟩ := rest_of_consumed hc
  have hdeep : ∀ rest : List Token, ({ c with rest := rest } : Cursor).depth = d := fun _ => hd
  cases h with
  | @number o value ho =>
    rw [reads_primary_cons hrest, ho]
    exact ⟨rfl, hc'⟩
  | @ident o name ho =>
    rw [reads_primary_cons hrest, ho]
    exact .inr ⟨hend, rfl, hc'⟩
  | @emptyCall o l r name ho hl hr =>
    rw [reads_primary_cons hrest, ho]
    refine .inl ⟨congrArg some hl, [], ?_, (called_of name [] _).symm⟩
    have hnone : Tree.Low.AllLow [] := trivial
    exact enclosed_arguments_complete hsum (hdeep _) hnone (.empty hr) (hd ▸ hn) (at_rest hc' [r])
  | @call o l r ts name args n ho hl hargs hr =>
    rw [reads_primary_cons hrest, ho]
    refine .inl ⟨congrArg some hl, args.map .of, ?_, (called_of name args _).symm⟩
    exact enclosed_arguments_complete hsum (hdeep _) hlow (closing_of_arguments hargs hr) (hd ▸ hn)
      (at_rest hc' (ts ++ [r]))
  | @group l r ts t n hl ht hr =>
    rw [reads_primary_cons hrest, hl]
    let before : Cursor := { c' with rest := r :: c'.rest }
    have hstop : StopSum (next? before.rest) := stopSum_of_more (.close hr) c'.rest
    have hspan : Spans (Enclosed (Derives .sum)) { c with rest := (ts ++ [r]) ++ c'.rest } t before :=
      ⟨hlow, ts, _, .of ht, hn, by rw [at_rest hc' (ts ++ [r]), List.append_assoc, List.singleton_append]⟩
    exact ⟨before, Complete.enclosed l.position hsum (hdeep _) hspan hstop, congrArg some hr, hend, rfl⟩

theorem unary_complete (hsum : d < maxDepth → Complete (Derives .sum) (d + 1) StopSum inner.sum)
    (hunary : d < maxDepth → Complete (Derives .unary) (d + 1) (· ≠ some .openParen) inner.unary) :
    Complete (Derives .unary) d (· ≠ some .openParen) (unary inner) := by
  intro c c' t hd hspan hend
  obtain ⟨hlow, ts, n, h, hn, hc⟩ := hspan
  obtain ⟨hrest, hc'⟩ := rest_of_consumed hc
  cases h with
  | @neg o ts t n ho ht =>
    rw [reads_unary_cons hrest, ho]
    have hspan : Spans (Enclosed (Derives .unary)) { c with rest := ts ++ c'.rest } t c' :=
      ⟨hlow, ts, _, .of ht, hn, at_rest hc' ts⟩
    exact ⟨.of t, Complete.enclosed o.position hunary hd hspan hend, rfl⟩
  | primary h =>
    have hprimary := primary_complete hsum hd ⟨hlow, ts, n, h, hn, hc⟩ hend
    cases h with
    | number ho | ident ho | emptyCall ho | call ho | group ho =>
      rw [reads_unary_cons hrest, ho]
      exact hprimary

theorem Sound.mono {Operand' : List Token → Tree → ℕ → Prop}
    (h : ∀ {ts t n}, Operand ts t n → Operand' ts t n) (hreader : Sound Operand d reader) :
    Sound Operand' d reader := by
  intro c c' node hd hread
  obtain ⟨t, hnode, hlow, ts, n, ht, hn, hc⟩ := hreader hd hread
  exact ⟨t, hnode, hlow, ts, n, h ht, hn, hc⟩

theorem Complete.mono {Operand' : List Token → Tree → ℕ → Prop} {Stop : Option Lexeme → Prop}
    (h : ∀ {ts t n}, Operand' ts t n → Operand ts t n) (hreader : Complete Operand d Stop reader) :
    Complete Operand' d Stop reader := by
  intro c c' t hd hspan hend
  obtain ⟨hlow, ts, n, ht, hn, hc⟩ := hspan
  exact hreader hd ⟨hlow, ts, n, h ht, hn, hc⟩ hend

structure Layer.Exact (l : Layer) (d : ℕ) : Prop where
  sumSound : Sound (Derives .sum) d l.sum
  unarySound : Sound (Derives .unary) d l.unary
  sumComplete : Complete (Derives .sum) d StopSum l.sum
  unaryComplete : Complete (Derives .unary) d (· ≠ some .openParen) l.unary

theorem productOperator_stops {l : Lexeme} {op : BinaryOp} (h : productOperator? l = some op) :
    some l ≠ some Lexeme.openParen := by
  rintro ⟨⟩
  cases h

theorem sumOperator_stops {l : Lexeme} {op : BinaryOp} (h : sumOperator? l = some op) :
    some l ≠ some Lexeme.openParen ∧ (some l).bind productOperator? = none := by
  cases l <;> cases h <;> exact ⟨nofun, rfl⟩

theorem Layer.Exact.around (hle : d ≤ maxDepth) (hinner : d < maxDepth → inner.Exact (d + 1)) :
    (Layer.around inner).Exact d := by
  have hunary := unary_sound hle (fun h => (hinner h).sumSound) (fun h => (hinner h).unarySound)
  have hunary' := unary_complete (fun h => (hinner h).sumComplete) (fun h => (hinner h).unaryComplete)
  have hproduct := hunary.chained.mono product_of_chain
  have hproduct' := (hunary'.chained productOperator_stops).mono chain_of_product
  exact ⟨hproduct.chained.mono sum_of_chain, hunary,
    (hproduct'.chained sumOperator_stops).mono chain_of_sum, hunary'⟩

/-- With `k` layers left, there is room for `k` enclosures. -/
theorem layer_exact (k d : ℕ) (h : d + k = maxDepth) : (layer k).Exact d := by
  induction k generalizing d with
  | zero => exact .around (by omega) (fun hlt => absurd h (by omega))
  | succ k ih => exact .around (by omega) (fun _ => ih (d + 1) (by omega))

end

/-! ## Whole texts -/

theorem parseTokens_ok_iff {stream : TokenStream} {t : Tree} :
    parseTokens stream = .ok t ↔ ∃ node c', Reads (layer maxDepth).sum ⟨stream.tokens, stream.stop, 0⟩ node c' ∧
      c'.rest = [] ∧ node.tree = t ∧ stream.tokens ≠ [] := by
  unfold parseTokens Reads
  cases htokens : stream.tokens with
  | nil => simp
  | cons token tokens =>
    simp only [List.isEmpty_cons, Bool.false_eq_true, ↓reduceIte, ne_eq, reduceCtorEq, not_false_eq_true, and_true]
    rcases ((layer maxDepth).sum.run).run ⟨token :: tokens, stream.stop, 0⟩ with ⟨outcome, c'⟩
    constructor
    · intro h
      cases outcome with
      | error fault => cases h
      | ok node =>
        cases hrest : c'.rest with
        | nil =>
          simp only [hrest, Except.ok.injEq] at h
          exact ⟨node, c', rfl, hrest, h⟩
        | cons token rest =>
          simp only [hrest] at h
          cases h
    · rintro ⟨node, c₁, h, hrest, rfl⟩
      cases h
      simp only [hrest]

theorem parseTokens_ok_forms {stream : TokenStream} {t : Tree} (h : parseTokens stream = .ok t) :
    Forms stream.tokens t := by
  obtain ⟨node, c', hread, hrest, rfl, -⟩ := parseTokens_ok_iff.mp h
  have hlayer := layer_exact maxDepth 0 (Nat.zero_add _)
  obtain ⟨t, rfl, hlow, ts, n, ht, hn, hc⟩ := hlayer.sumSound rfl hread
  rw [Cursor.mk.injEq, hrest, List.append_nil] at hc
  refine ⟨hlow, n, ?_, hc.1 ▸ ht⟩
  simpa using hn

theorem parseTokens_of_forms {stream : TokenStream} {t : Tree} (h : Forms stream.tokens t) :
    parseTokens stream = .ok t := by
  obtain ⟨hlow, n, hn, ht⟩ := h
  have hlayer := layer_exact maxDepth 0 (Nat.zero_add _)
  have hspan : Spans (Derives .sum) ⟨stream.tokens, stream.stop, 0⟩ t ⟨[], stream.stop, 0⟩ :=
    ⟨hlow, stream.tokens, n, ht, by simpa using hn, by simp⟩
  have hread := hlayer.sumComplete rfl hspan ⟨⟨nofun, rfl⟩, rfl⟩
  obtain ⟨o, rest, hstart, -⟩ := sum_starts ht
  refine parseTokens_ok_iff.mpr ⟨_, _, hread, rfl, rfl, ?_⟩
  rw [hstart]
  exact List.cons_ne_nil _ _

/-- The parser accepts exactly the grammar within its limits, and answers the one tree that the tokens form. -/
theorem parseTokens_exact (stream : TokenStream) :
    (∀ t, parseTokens stream = .ok t ↔ Forms stream.tokens t) ∧
    (∀ t u, Forms stream.tokens t → Forms stream.tokens u → t = u) ∧
    ((∃ fault, parseTokens stream = .error fault) ↔ ¬ ∃ t, Forms stream.tokens t) := by
  refine ⟨fun t => ⟨parseTokens_ok_forms, parseTokens_of_forms⟩, fun t u ht hu => ?_, ?_, fun h => ?_⟩
  · exact Except.ok.inj ((parseTokens_of_forms ht).symm.trans (parseTokens_of_forms hu))
  · rintro ⟨fault, hfault⟩ ⟨t, ht⟩
    rw [parseTokens_of_forms ht] at hfault
    cases hfault
  · cases hparse : parseTokens stream with
    | error fault => exact ⟨fault, rfl⟩
    | ok t => exact absurd ⟨t, parseTokens_ok_forms hparse⟩ h

end FormulaSynth.Formula
