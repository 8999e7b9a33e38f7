import FormulaSynth.Formula.Compile
import FormulaSynth.Proofs.Keeping
import FormulaSynth.Proofs.Meaning
import FormulaSynth.Proofs.Parsing

/-!
# How deep the recursions go

A reader that is enclosed `d` times answers trees of at most `1024 + (256 - d)` levels: sums and products are limited
by the parser, and whatever else makes a tree taller encloses its parts once more. So both the calls of the parser and
those of code generation nest no deeper than fixed limits, whatever the text is.
-/

set_option autoImplicit false
namespace FormulaSynth.Formula

theorem Tree.height_le_heights {t : Tree} {args : List Tree} (h : t ∈ args) : t.height ≤ Tree.height.heights args := by
  induction args with
  | nil => exact absurd h List.not_mem_nil
  | cons u args ih =>
    rcases List.mem_cons.mp h with rfl | h
    · exact Nat.le_max_left _ _
    · exact (ih h).trans (Nat.le_max_right _ _)

theorem one_le_limit (n : ℕ) : 1 ≤ maxHeight + n :=
  (show 1 ≤ maxHeight by decide).trans (Nat.le_add_right _ _)

mutual

theorem Derives.height_le {rank : Rank} {ts : List Token} {t : Tree} {n : ℕ} :
    Derives rank ts t n → t.Low → t.height ≤ maxHeight + n
  | .product h, hlow => h.height_le hlow
  | .sum .., hlow => hlow.2.2.trans (Nat.le_add_right _ _)
  | .unary h, hlow => h.height_le hlow
  | .factor .., hlow => hlow.2.2.trans (Nat.le_add_right _ _)
  | .primary h, hlow => h.height_le hlow
  | .neg _ h, hlow => Nat.succ_le_succ (h.height_le hlow)
  | .number _, _ => one_le_limit 0
  | .ident _, _ => one_le_limit 0
  | .emptyCall .., _ => one_le_limit 1
  | .call _ _ h _, hlow => Nat.succ_le_succ (h.heights_le hlow)
  | .group _ h _, hlow => (h.height_le hlow).trans (Nat.le_succ _)

theorem Arguments.heights_le {ts : List Token} {args : List Tree} {n : ℕ} :
    Arguments ts args n → Tree.Low.AllLow args → Tree.height.heights args ≤ maxHeight + n
  | .last h, hlow => max_le (h.height_le hlow.1) (Nat.zero_le _)
  | .more h _ hargs, hlow => by
    have ht := h.height_le hlow.1
    have hrest := hargs.heights_le hlow.2
    rw [Tree.height.heights]
    omega

end

theorem Closing.heights_le {us : List Token} {args : List Tree} {n : ℕ} (h : Closing us args n)
    (hlow : Tree.Low.AllLow args) : Tree.height.heights args ≤ maxHeight + n := by
  cases h with
  | empty => exact Nat.zero_le _
  | filled ht hmore =>
    obtain ⟨vs, r, -, -, hargs⟩ := arguments_of_more hmore
    exact (hargs ht).heights_le hlow

def Rank.reader (inner : Layer) : Rank → TokenReader Node
  | .sum => Formula.sum (Formula.unary inner)
  | .product => Formula.product (Formula.unary inner)
  | .unary => Formula.unary inner
  | .primary => Formula.primary inner

section
variable {stream : TokenStream} {d : ℕ} {inner inner' : Layer}

theorem Rank.reader_alike (rank : Rank) (hinner : d < maxDepth → inner.Alike stream (d + 1) inner') :
    Alike stream d Anything (rank.reader inner) (rank.reader inner') := by
  cases rank with
  | sum => exact sum_alike (unary_alike hinner)
  | product => exact product_alike (unary_alike hinner)
  | unary => exact unary_alike hinner
  | primary => exact primary_alike hinner

theorem Rank.reader_sound (rank : Rank) (hle : d ≤ maxDepth) (hinner : d < maxDepth → inner.Exact (d + 1)) :
    Sound (Derives rank) d (rank.reader inner) := by
  have hunary := unary_sound hle (fun h => (hinner h).sumSound) (fun h => (hinner h).unarySound)
  cases rank with
  | sum => exact (Layer.Exact.around hle hinner).sumSound
  | product => exact hunary.chained.mono product_of_chain
  | unary => exact hunary
  | primary => exact primary_sound hle (fun h => (hinner h).sumSound)

theorem below_exact {n : ℕ} (h : d + n = maxDepth) (hlt : d < maxDepth) : (below n).Exact (d + 1) := by
  cases n with
  | zero => exact absurd h hlt.ne
  | succ n => exact layer_exact n (d + 1) (by omega)

end

/-- A reader that does something else once the nesting counter is out of its range. -/
def TokenReader.watched {β : Type} (m other : TokenReader β) : TokenReader β := do
  if (← get).depth ≤ maxDepth then m else other

/-- What the readers of a layer call one level deeper, with every call under watch, and with the other readers also in
    place of the calls from the innermost layer. -/
def watchedBelow (other : Layer) : ℕ → Layer
  | 0 => other
  | n + 1 =>
    let deeper := Layer.around (watchedBelow other n)
    ⟨deeper.sum.watched other.sum, deeper.unary.watched other.unary⟩

section
variable {β : Type} {stream : TokenStream} {d : ℕ}

theorem Alike.watched {Answers : β → Prop} {m m' : TokenReader β} (hle : d ≤ maxDepth)
    (h : Alike stream d Answers m m') (other : TokenReader β) : Alike stream d Answers m (m'.watched other) := by
  intro c hc
  have hrun : (m'.watched other).run.run c = m'.run.run c := by
    unfold TokenReader.watched
    rw [run_bind, reads_get.mpr ⟨rfl, rfl⟩]
    simp only [hc.depth, hle, ↓reduceIte]
  rw [hrun]
  exact h c hc

theorem layer_alike_watched (other : Layer) {n : ℕ} (h : maxDepth ≤ d + n) :
    (layer n).Alike stream d (Layer.around (watchedBelow other n)) :=
  layer_alike (fun _ => rfl) (fun _ _ hlt hinner => ⟨hinner.sum.watched hlt _, hinner.unary.watched hlt _⟩) h

theorem below_alike_watched (other : Layer) {n : ℕ} (h : maxDepth ≤ d + n) (hlt : d < maxDepth) :
    (below n).Alike stream (d + 1) (watchedBelow other n) := by
  cases n with
  | zero => exact absurd h (not_le.mpr hlt)
  | succ n =>
    have hinner : (layer n).Alike stream (d + 1) (Layer.around (watchedBelow other n)) :=
      layer_alike_watched other (by omega)
    exact ⟨hinner.sum.watched hlt _, hinner.unary.watched hlt _⟩

end

/-- From cursors enclosed `d` times, the reader comes back to depth `d` from an answer as from a fault, does not differ
    from the one whose calls are under watch, and answers nodes with their true height, within the limit for `d`. -/
structure Steady {β : Type} (nodes : β → List Node) (d : ℕ) (m watched : TokenReader β) : Prop where
  back : ∀ tokens stop, (m.run.run ⟨tokens, stop, d⟩).2.depth = d
  inRange : ∀ tokens stop, watched.run.run ⟨tokens, stop, d⟩ = m.run.run ⟨tokens, stop, d⟩
  heights : ∀ tokens stop b c', Reads m ⟨tokens, stop, d⟩ b c' → ∀ node ∈ nodes b,
    node.height = node.tree.height ∧ node.height ≤ maxHeight + (maxDepth - d)

section
variable {β : Type} {nodes : β → List Node} {d : ℕ} {m watched : TokenReader β}

theorem Steady.of_alike {Answers : β → Prop} (halike : ∀ stream, Alike stream d Answers m watched)
    (heights : ∀ tokens stop b c', Reads m ⟨tokens, stop, d⟩ b c' → ∀ node ∈ nodes b,
      node.height = node.tree.height ∧ node.height ≤ maxHeight + (maxDepth - d)) : Steady nodes d m watched := by
  have hstart : ∀ tokens stop, (⟨tokens, stop, d⟩ : Cursor).Within ⟨tokens, stop⟩ d :=
    fun tokens stop => ⟨List.suffix_refl tokens, rfl, rfl⟩
  refine ⟨fun tokens stop => ?_, fun tokens stop => ?_, heights⟩
  · exact (halike _ _ (hstart tokens stop)).2.2.depth
  · exact (halike _ _ (hstart tokens stop)).1.symm

theorem reader_steady (other : Layer) (rank : Rank) {n : ℕ} (h : d + n = maxDepth) :
    Steady (fun node => [node]) d (rank.reader (below n)) (rank.reader (watchedBelow other n)) := by
  refine .of_alike (fun stream => rank.reader_alike (below_alike_watched other h.ge)) ?_
  intro tokens stop answer c' hreads node hnode
  obtain rfl := List.mem_singleton.mp hnode
  obtain ⟨t, rfl, hlow, ts, k, hderives, hk, -⟩ := rank.reader_sound (by omega) (below_exact h) rfl hreads
  have hheight := hderives.height_le hlow
  refine ⟨rfl, hheight.trans ?_⟩
  simp only at hk
  omega

theorem arguments_steady (other : Layer) {n : ℕ} (h : d + n = maxDepth) :
    Steady id d (arguments (layer n).sum) (arguments (Layer.around (watchedBelow other n)).sum) := by
  refine .of_alike (fun stream => arguments_alike (layer_alike_watched other h.ge).sum) ?_
  intro tokens stop answer c' hreads node hnode
  have hle : d ≤ maxDepth := by omega
  obtain ⟨args, rfl, hlow, us, k, hclosing, hk, -⟩ := arguments_sound (layer_exact n d h).sumSound rfl hle hreads
  obtain ⟨t, ht, rfl⟩ := List.mem_map.mp hnode
  have hheight : t.height ≤ maxHeight + k := (Tree.height_le_heights ht).trans (hclosing.heights_le hlow)
  refine ⟨rfl, hheight.trans ?_⟩
  simp only at hk
  omega

end

theorem joined_height {op : BinaryOp} {t u : Tree} {position : Position} {c c' : Cursor} {node : Node}
    (h : Reads (joined op (.of t) (.of u) position) c node c') :
    node = .of (.binary op t u) ∧ node.height ≤ maxHeight := by
  obtain ⟨hheight, rfl, -⟩ := reads_joined.mp h
  exact ⟨rfl, hheight⟩

theorem Layer.eq_of_alike {l l' : Layer} (h : ∀ stream d, l.Alike stream d l') : l = l' := by
  have heq : ∀ {m m' : TokenReader Node}, (∀ stream d, Formula.Alike stream d Anything m m') → m = m' := by
    intro m m' halike
    funext c
    exact (halike ⟨c.rest, c.stop⟩ c.depth c ⟨List.suffix_refl _, rfl, rfl⟩).1
  obtain ⟨s, u⟩ := l
  obtain ⟨s', u'⟩ := l'
  rw [Layer.mk.injEq]
  exact ⟨heq fun stream d => (h stream d).sum, heq fun stream d => (h stream d).unary⟩

theorem around_layer_maxDepth : Layer.around (layer maxDepth) = layer maxDepth := by
  refine (Layer.eq_of_alike fun stream d => ?_).symm
  have hmore : ∀ n, layer (n + 1) = .around (layer n) := fun _ => rfl
  exact layer_alike hmore (fun _ _ _ hinner => hinner) (Nat.le_add_left _ d)

/-- Readers that call themselves without a limit are the layered ones. -/
theorem eq_layer_maxDepth {p : Layer} (h : Layer.around p = p) : p = layer maxDepth := by
  have hunfold : ∀ _n : ℕ, p = .around p := fun _ => h.symm
  refine (Layer.eq_of_alike fun stream d => ?_).symm
  exact layer_alike hunfold (fun _ _ _ hinner => hinner) (Nat.le_add_left _ d)

def emitOver (inner : Draft → Tree → Except Fault Draft) (d : Draft) : Tree → Except Fault Draft
  | .number value position => d.constant value position
  | .ident name position => d.ident name position
  | .neg operand => do return (← inner d operand).push .neg
  | .binary op left right => do
    let d ← inner d left
    let d ← inner d right
    return d.push op.instruction
  | .call name args position => do
    let f ← Draft.callee name args.length position
    let d ← args.foldlM inner { d with functions := insertName f.name d.functions }
    return d.push (.call f.builtin)

theorem foldlM_eq_emitAll {inner : Draft → Tree → Except Fault Draft} {args : List Tree}
    (h : ∀ t ∈ args, ∀ d, inner d t = emit d t) (d : Draft) : args.foldlM inner d = emit.emitAll d args := by
  induction args generalizing d with
  | nil => rfl
  | cons t args ih =>
    rw [List.foldlM_cons, emit.emitAll, h t List.mem_cons_self]
    refine congrArg (emit d t >>= ·) (funext fun d => ih (fun u hu => h u (List.mem_cons_of_mem t hu)) d)

theorem iterate_emitOver (wild : Draft → Tree → Except Fault Draft) {n : ℕ} {t : Tree} (h : t.height ≤ n)
    (d : Draft) : (emitOver^[n] wild) d t = emit d t := by
  induction n generalizing t d with
  | zero => cases t <;> cases h
  | succ n ih =>
    rw [Function.iterate_succ_apply']
    cases t with
    | number | ident => rw [emit, emitOver]
    | neg operand =>
      have hoperand : operand.height ≤ n := Nat.le_of_succ_le_succ h
      rw [emit, emitOver, ih hoperand]
    | binary op left right =>
      have hboth : max left.height right.height ≤ n := Nat.le_of_succ_le_succ h
      have hright : ∀ d, (emitOver^[n] wild) d right = emit d right := ih (max_le_iff.mp hboth).2
      rw [emit, emitOver, ih (max_le_iff.mp hboth).1]
      simp only [hright]
    | call name args position =>
      have hall : Tree.height.heights args ≤ n := Nat.le_of_succ_le_succ h
      have hargs : ∀ d, args.foldlM (emitOver^[n] wild) d = emit.emitAll d args :=
        foldlM_eq_emitAll fun t ht d => ih ((Tree.height_le_heights ht).trans hall) d
      rw [emit, emitOver]
      simp only [hargs]

theorem parse_ok_height {source : String} {t : Tree} (h : parse source = .ok t) :
    t.height ≤ maxHeight + maxDepth := by
  obtain ⟨stream, -, hparse⟩ := bind_eq_ok h
  obtain ⟨hlow, n, hn, hderives⟩ := parseTokens_ok_forms hparse
  exact (hderives.height_le hlow).trans (Nat.add_le_add_left hn _)

/-- No text makes the parser or code generation recurse without bound. Every function of the parser leaves the nesting
    counter as it found it, calls no other one with the counter beyond 256, and answers nodes of true and bounded
    height; so 256 layers are as good as unlimited recursion, trees have at most 1280 levels, and as many nested calls
    generate their code. -/
theorem recursion_bounded (other : Layer) (wild : Draft → Tree → Except Fault Draft) :
    (∀ d n, d + n = 256 →
      (∀ rank : Rank, Steady (fun node => [node]) d (rank.reader (below n)) (rank.reader (watchedBelow other n))) ∧
      Steady id d (arguments (layer n).sum) (arguments (Layer.around (watchedBelow other n)).sum)) ∧
    (∀ op t u position c node c', Reads (joined op (.of t) (.of u) position) c node c' →
      node = .of (.binary op t u) ∧ node.height ≤ 1024) ∧
    (∀ p, Layer.around p = p ↔ p = layer 256) ∧
    ∀ source t, parse source = .ok t →
      t.height ≤ 1024 + 256 ∧ ∀ d, (emitOver^[1024 + 256] wild) d t = emit d t := by
  refine ⟨fun d n h => ⟨fun rank => reader_steady other rank h, arguments_steady other h⟩,
    fun _ _ _ _ _ _ _ h => joined_height h, fun p => ⟨?_, ?_⟩, ?_⟩
  · exact eq_layer_maxDepth
  · rintro rfl
    exact around_layer_maxDepth
  · intro source t h
    have hheight := parse_ok_height h
    exact ⟨hheight, iterate_emitOver wild hheight⟩

end FormulaSynth.Formula
