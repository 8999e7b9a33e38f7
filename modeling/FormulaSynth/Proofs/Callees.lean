import FormulaSynth.Proofs.Parsing
import FormulaSynth.Proofs.Visits

set_option autoImplicit false
namespace FormulaSynth.Formula

/-- The name stands directly before an opening parenthesis. -/
def Called (tokens : List Token) (name : String) : Prop :=
  ∃ before o l after, tokens = before ++ o :: l :: after ∧ o.lexeme = .ident name ∧ l.lexeme = .openParen

def calledNames : List Token → List String
  | [] => []
  | o :: rest =>
    match o.lexeme, next? rest with
    | .ident name, some .openParen => name :: calledNames rest
    | _, _ => calledNames rest

def Visit.callee? : Visit → Option String
  | call name _ _ => some name
  | number .. | ident .. => none

def calleesOf (visits : List Visit) : List String := visits.filterMap Visit.callee?

theorem calledNames_call {o l : Token} {name : String} (rest : List Token) (ho : o.lexeme = .ident name)
    (hl : l.lexeme = .openParen) : calledNames (o :: l :: rest) = name :: calledNames (l :: rest) := by
  rw [calledNames]
  simp [next?, ho, hl]

theorem calledNames_plain {o : Token} (rest : List Token) (plain : ∀ name, o.lexeme ≠ .ident name) :
    calledNames (o :: rest) = calledNames rest := by
  rw [calledNames]
  split
  · rename_i name ho _
    exact absurd ho (plain name)
  · rfl

theorem calledNames_closed {o : Token} {rest : List Token} (closed : next? rest ≠ some .openParen) :
    calledNames (o :: rest) = calledNames rest := by
  rw [calledNames]
  split
  · rename_i hopen
    exact absurd hopen closed
  · rfl

theorem calledNames_append {o : Token} (apart : o.lexeme ≠ .openParen) (ts us : List Token) :
    calledNames (ts ++ o :: us) = calledNames ts ++ calledNames (o :: us) := by
  induction ts with
  | nil => rfl
  | cons t ts ih =>
    cases ts with
    | nil =>
      have closed : next? (o :: us) ≠ some .openParen := by simpa [next?] using apart
      have alone : next? [] ≠ some .openParen := by simp [next?]
      rw [List.singleton_append, calledNames_closed closed, calledNames_closed (o := t) alone]
      rfl
    | cons u ts =>
      simp only [List.cons_append] at ih ⊢
      rw [calledNames, ih]
      conv_rhs => rw [calledNames]
      simp only [next?, List.head?_cons, Option.map_some]
      split <;> rfl

theorem mem_calledNames_iff {ts : List Token} {name : String} : name ∈ calledNames ts ↔ Called ts name := by
  constructor
  · intro mem
    induction ts with
    | nil => simp [calledNames] at mem
    | cons o rest ih =>
      have later (mem : name ∈ calledNames rest) : Called (o :: rest) name := by
        obtain ⟨before, o', l, after, rfl, ho, hl⟩ := ih mem
        exact ⟨o :: before, o', l, after, rfl, ho, hl⟩
      rw [calledNames] at mem
      split at mem
      · rename_i other ho hopen
        rcases List.mem_cons.mp mem with rfl | mem
        · obtain ⟨l, after, rfl, hl⟩ := next?_eq_some hopen
          exact ⟨[], o, l, after, rfl, ho, hl⟩
        · exact later mem
      · exact later mem
  · rintro ⟨before, o, l, after, rfl, ho, hl⟩
    have apart : o.lexeme ≠ .openParen := by simp [ho]
    rw [calledNames_append apart, calledNames_call after ho hl]
    simp

theorem calleesOf_append (us vs : List Visit) : calleesOf (us ++ vs) = calleesOf us ++ calleesOf vs :=
  List.filterMap_append

theorem Joins.plain {rank : Rank} {l : Lexeme} {op : BinaryOp} (h : Joins rank l op) :
    l ≠ .openParen ∧ ∀ name, l ≠ .ident name := by
  cases h <;> simp

theorem calledNames_between {o : Token} (apart : o.lexeme ≠ .openParen) (plain : ∀ name, o.lexeme ≠ .ident name)
    (ts us : List Token) : calledNames (ts ++ o :: us) = calledNames ts ++ calledNames us := by
  rw [calledNames_append apart, calledNames_plain us plain]

theorem calledNames_close {r : Token} (hr : r.lexeme = .closeParen) (ts : List Token) :
    calledNames (ts ++ [r]) = calledNames ts := by
  rw [calledNames_between (by simp [hr]) (by simp [hr])]
  exact List.append_nil _

mutual

/-- The tokens call what the tree calls, in the same order. -/
theorem derives_callees {rank : Rank} {ts : List Token} {t : Tree} {n : ℕ} :
    Derives rank ts t n → calleesOf t.visits = calledNames ts
  | .product h => derives_callees h
  | .unary h => derives_callees h
  | .primary h => derives_callees h
  | .sum h ho hu => by
    rw [calledNames_between ho.plain.1 ho.plain.2, ← derives_callees h, ← derives_callees hu]
    exact calleesOf_append _ _
  | .factor h ho hu => by
    rw [calledNames_between ho.plain.1 ho.plain.2, ← derives_callees h, ← derives_callees hu]
    exact calleesOf_append _ _
  | .neg ho h => by
    rw [calledNames_plain _ (by simp [ho]), ← derives_callees h]
    rfl
  | .number ho => by
    rw [calledNames_plain _ (by simp [ho])]
    rfl
  | .ident ho => by
    rw [calledNames_closed (by simp [next?])]
    rfl
  | .emptyCall ho hl hr => by
    rw [calledNames_call _ ho hl, calledNames_plain _ (by simp [hl]), calledNames_plain _ (by simp [hr])]
    rfl
  | .call ho hl h hr => by
    rw [calledNames_call _ ho hl, calledNames_plain _ (by simp [hl]), calledNames_close hr, ← arguments_callees h]
    rfl
  | .group hl h hr => by
    rw [calledNames_plain _ (by simp [hl]), calledNames_close hr, derives_callees h]

theorem arguments_callees {ts : List Token} {args : List Tree} {n : ℕ} :
    Arguments ts args n → calleesOf (Tree.visits.visitsAll args) = calledNames ts
  | .last h => by
    rw [← derives_callees h, Tree.visits.visitsAll, Tree.visits.visitsAll, List.append_nil]
  | .more h ho rest => by
    rw [calledNames_between (by simp [ho]) (by simp [ho]), ← derives_callees h, ← arguments_callees rest]
    exact calleesOf_append _ _

end

theorem mem_insertName {name other : String} {names : List String} :
    name ∈ insertName other names ↔ name = other ∨ name ∈ names := by
  induction names with
  | nil => simp [insertName]
  | cons first rest ih =>
    unfold insertName
    split_ifs with before same
    · simp
    · subst same
      simp
    · simp only [List.mem_cons, ih]
      tauto

theorem insertName_ascending {names : List String} (ascending : names.Pairwise (· < ·)) (name : String) :
    (insertName name names).Pairwise (· < ·) := by
  induction names with
  | nil => simp [insertName]
  | cons first rest ih =>
    obtain ⟨least, tail⟩ := List.pairwise_cons.mp ascending
    unfold insertName
    split_ifs with before same
    · refine List.pairwise_cons.mpr ⟨?_, ascending⟩
      intro other mem
      rcases List.mem_cons.mp mem with rfl | mem
      · exact before
      · exact before.trans (least other mem)
    · exact ascending
    · refine List.pairwise_cons.mpr ⟨?_, ih tail⟩
      intro other mem
      rcases mem_insertName.mp mem with rfl | mem
      · exact lt_of_le_of_ne (not_lt.mp before) (Ne.symm same)
      · exact least other mem

def noting (noted names : List String) : List String := names.foldl (fun noted name => insertName name noted) noted

theorem noting_append (noted us vs : List String) : noting noted (us ++ vs) = noting (noting noted us) vs :=
  List.foldl_append

theorem mem_noting {name : String} {noted names : List String} :
    name ∈ noting noted names ↔ name ∈ noted ∨ name ∈ names := by
  induction names generalizing noted with
  | nil => simp [noting]
  | cons first rest ih =>
    change name ∈ noting (insertName first noted) rest ↔ _
    rw [ih, mem_insertName, List.mem_cons]
    tauto

theorem noting_ascending {noted : List String} (ascending : noted.Pairwise (· < ·)) (names : List String) :
    (noting noted names).Pairwise (· < ·) := by
  induction names generalizing noted with
  | nil => exact ascending
  | cons first rest ih => exact ih (insertName_ascending ascending first)

/-- `d'` is `d` after code for calls of the given names, in this order. -/
structure Calls (d : Draft) (names : List String) (d' : Draft) : Prop where
  known : ∀ name ∈ names, ∃ f ∈ builtins, f.name = name
  noted : d'.functions = noting d.functions names
  code : ∀ b, Op.call b ∈ d'.code ↔ Op.call b ∈ d.code ∨ ∃ f ∈ builtins, f.name ∈ names ∧ f.builtin = b

namespace Calls

theorem nil (d : Draft) : Calls d [] d where
  known := by simp
  noted := rfl
  code := by simp

theorem append {d₁ d₂ d₃ : Draft} {us vs : List String} (h : Calls d₁ us d₂) (h' : Calls d₂ vs d₃) :
    Calls d₁ (us ++ vs) d₃ where
  known := by
    intro name mem
    exact (List.mem_append.mp mem).elim (h.known name) (h'.known name)
  noted := by rw [noting_append, ← h.noted, h'.noted]
  code := by
    intro b
    simp only [h'.code, h.code, List.mem_append, or_and_right, and_or_left, exists_or, or_assoc]

theorem push {d d' : Draft} {names : List String} (h : Calls d names d') {op : Op} (plain : ∀ b, op ≠ .call b) :
    Calls d names (d'.push op) where
  known := h.known
  noted := h.noted
  code := by
    intro b
    have other : Op.call b ≠ op := (plain b).symm
    rw [← h.code]
    simp [Draft.push, other]

theorem of_constants {d d' : Draft} {pool : Array Binary64} {names : List String}
    (h : Calls { d with constants := pool } names d') : Calls d names d' := ⟨h.known, h.noted, h.code⟩

theorem constant {d d' : Draft} {value : Binary64} {position : Position}
    (h : d.constant value position = .ok d') : Calls d [] d' := by
  unfold Draft.constant at h
  split at h
  · cases h
    exact (nil d).push (by simp)
  · split at h
    · cases h
      exact of_constants ((nil _).push (by simp))
    · cases h

theorem ident {d d' : Draft} {name : String} {position : Position} (h : d.ident name position = .ok d') :
    Calls d [] d' := by
  unfold Draft.ident at h
  split at h
  · cases h
    exact (nil d).push (by simp)
  · split at h
    · exact constant h
    · cases h

theorem call {d d' : Draft} {f : BuiltinEntry} {names : List String} (mem : f ∈ builtins)
    (h : Calls { d with functions := insertName f.name d.functions } names d') :
    Calls d (f.name :: names) (d'.push (.call f.builtin)) where
  known := by
    intro name member
    rcases List.mem_cons.mp member with rfl | member
    · exact ⟨f, mem, rfl⟩
    · exact h.known name member
  noted := h.noted
  code := by
    intro b
    have own : (∃ g ∈ builtins, g.name ∈ f.name :: names ∧ g.builtin = b) ↔
        f.builtin = b ∨ ∃ g ∈ builtins, g.name ∈ names ∧ g.builtin = b := by
      constructor
      · rintro ⟨g, known, called, rfl⟩
        rcases List.mem_cons.mp called with same | called
        · have found : some g = some f := by rw [← builtin?_name g known, ← builtin?_name f mem, same]
          exact .inl (congrArg BuiltinEntry.builtin (Option.some.inj found).symm)
        · exact .inr ⟨g, known, called, rfl⟩
      · rintro (rfl | ⟨g, known, called, rfl⟩)
        · exact ⟨f, mem, by simp, rfl⟩
        · exact ⟨g, known, List.mem_cons_of_mem _ called, rfl⟩
    rw [own]
    simp only [Draft.push, Array.mem_push, h.code, Op.call.injEq]
    rw [or_assoc, eq_comm, or_comm (b := f.builtin = b)]

end Calls

mutual

theorem emit_calls {d d' : Draft} (t : Tree) (h : emit d t = .ok d') : Calls d (calleesOf t.visits) d' := by
  cases t with
  | number value position => exact .constant h
  | ident name position => exact .ident h
  | neg operand =>
    rw [emit] at h
    obtain ⟨d₁, h₁, h⟩ := bind_eq_ok h
    cases h
    exact (emit_calls operand h₁).push (by simp)
  | binary op left right =>
    rw [emit] at h
    obtain ⟨d₁, h₁, h⟩ := bind_eq_ok h
    obtain ⟨d₂, h₂, h⟩ := bind_eq_ok h
    cases h
    rw [Tree.visits, calleesOf_append]
    refine ((emit_calls left h₁).append (emit_calls right h₂)).push ?_
    cases op <;> simp [BinaryOp.instruction]
  | call name args position =>
    rw [emit] at h
    obtain ⟨f, hf, h⟩ := bind_eq_ok h
    obtain ⟨d₁, h₁, h⟩ := bind_eq_ok h
    cases h
    obtain ⟨mem, rfl, -⟩ := callee_mem hf
    exact .call mem (emitAll_calls args h₁)

theorem emitAll_calls {d d' : Draft} (args : List Tree) (h : emit.emitAll d args = .ok d') :
    Calls d (calleesOf (Tree.visits.visitsAll args)) d' := by
  cases args with
  | nil =>
    cases h
    exact .nil d
  | cons t rest =>
    rw [emit.emitAll] at h
    obtain ⟨d₁, h₁, h⟩ := bind_eq_ok h
    rw [Tree.visits.visitsAll, calleesOf_append]
    exact (emit_calls t h₁).append (emitAll_calls rest h)

end

/-- A compiled program uses a function exactly when the tokens of the text have its name directly before an opening
    parenthesis. It lists these names in ascending order and once each, all of them are builtins, and their
    instructions are the calls in its code. -/
theorem compile_functions {source : String} {p : Program} (h : compile source = .ok p) :
    ∃ tokens stop, tokenize source = .ok ⟨tokens, stop⟩ ∧
      (∀ name, p.uses name = true ↔ Called tokens name) ∧
      p.functions.Pairwise (· < ·) ∧ (∀ name, name ∈ p.functions ↔ Called tokens name) ∧
      (∀ name ∈ p.functions, ∃ f ∈ builtins, f.name = name ∧ .call f.builtin ∈ p.code) ∧
      ∀ b, .call b ∈ p.code → ∃ f ∈ builtins, f.builtin = b ∧ f.name ∈ p.functions := by
  unfold compile parse at h
  obtain ⟨t, parsed, h⟩ := bind_eq_ok h
  obtain ⟨⟨tokens, stop⟩, tokenized, parsed⟩ := bind_eq_ok parsed
  unfold compileTree at h
  obtain ⟨d, emitted, h⟩ := bind_eq_ok h
  cases h
  obtain ⟨-, n, -, derives⟩ := parseTokens_ok_forms parsed
  have calls : Calls .empty (calledNames tokens) d := by
    rw [← derives_callees derives]
    exact emit_calls t emitted
  have listed (name : String) : name ∈ d.functions ↔ Called tokens name := by
    rw [calls.noted, mem_noting, mem_calledNames_iff]
    simp [Draft.empty]
  have instruction (b : Builtin) :
      Op.call b ∈ d.code ↔ ∃ f ∈ builtins, f.name ∈ calledNames tokens ∧ f.builtin = b := by
    rw [calls.code]
    simp [Draft.empty]
  refine ⟨tokens, stop, tokenized, fun name => ?_, ?_, listed, fun name mem => ?_, fun b mem => ?_⟩
  · rw [← listed]
    simp [Program.uses, Draft.program]
  · change d.functions.Pairwise (· < ·)
    rw [calls.noted]
    exact noting_ascending .nil _
  · have called := mem_calledNames_iff.mpr ((listed name).mp mem)
    obtain ⟨f, known, rfl⟩ := calls.known name called
    exact ⟨f, known, rfl, (instruction f.builtin).mpr ⟨f, known, called, rfl⟩⟩
  · obtain ⟨f, known, called, rfl⟩ := (instruction b).mp mem
    exact ⟨f, known, rfl, (listed f.name).mpr (mem_calledNames_iff.mp called)⟩

/-- Blanks and line feeds between a name and its parenthesis, and one function within the arguments of another. -/
theorem compile_functions_behind_blanks :
    let p : Program :=
      ⟨#[.arg, .arg, .call (.unary .sin), .neg, .call (.binary .min), .arg, .call (.unary .abs), .add], #[],
        ["abs", "min", "sin"], 2⟩
    compile "min (x, -sin\n\t(x)) + abs(x)" = .ok p ∧
      ∃ tokens stop, tokenize "min (x, -sin\n\t(x)) + abs(x)" = .ok ⟨tokens, stop⟩ ∧
        (∀ name, p.uses name = true ↔ Called tokens name) ∧ Called tokens "sin" ∧ ¬Called tokens "x" := by
  intro p
  have h : compile "min (x, -sin\n\t(x)) + abs(x)" = .ok p := by decide +kernel
  obtain ⟨tokens, stop, tokenized, uses, -⟩ := compile_functions h
  exact ⟨h, tokens, stop, tokenized, uses, (uses "sin").mp rfl, fun called => by cases (uses "x").mpr called⟩

end FormulaSynth.Formula
