import FormulaSynth.Proofs.Callees
import FormulaSynth.Proofs.Keeping
import FormulaSynth.Proofs.Splitting

/-!
# Where a fault is

Whatever stage finds a fault, the position that it names is a place of the text. Positions are made when the text is
split into tokens. The parser takes them from the token in view and copies them to the leaves and calls of the tree,
whose visits code generation blames; sums, products and negations have none of their own, and none is made up for them.
-/

set_option autoImplicit false
namespace FormulaSynth.Formula

/-- A lexeme begins at the position: `text` stands there between `read` and `rest` as the longest lexeme, and `after`
    are the tokens of the rest. -/
inductive Begins (source : List Char) (lexeme : Lexeme) : Position → List Token → Prop
  | intro {read text rest : List Char} {before after : List Token} (split : source = read ++ (text ++ rest))
      (reached : Covers [] read (text ++ rest) before) (longest : Longest text rest) (means : Means text (.ok lexeme))
      (ahead : Covers (read ++ text) rest [] after) : Begins source lexeme (positionOf read) after

/-- The fault names the place of the text that is at fault. -/
inductive Blames (source : List Char) : Fault → Prop
  | character {read rest : List Char} {c : Char} (split : source = read ++ c :: rest)
      (visible : Text.isBlank c = false) (none : ∀ text, IsLexeme text → ¬text <+: c :: rest) :
      Blames source ⟨.unexpectedCharacter c, positionOf read⟩
  | literal {read text rest : List Char} {cause : Fault.Cause} (split : source = read ++ (text ++ rest))
      (longest : Longest text rest) (malformed : Means text (.error cause)) : Blames source ⟨cause, positionOf read⟩
  | token {cause : Fault.Cause} {lexeme : Lexeme} {position : Position} {after : List Token}
      (grammar : cause.kind = .parse) (begins : Begins source lexeme position after) : Blames source ⟨cause, position⟩
  | stop {cause : Fault.Cause} (grammar : cause.kind = .parse) : Blames source ⟨cause, positionOf source⟩
  | unknownVariable {name : String} {position : Position} {after : List Token}
      (begins : Begins source (.ident name) position after) (plain : next? after ≠ some .openParen) :
      Blames source ⟨.unknownVariable name, position⟩
  | unknownFunction {name : String} {position : Position} {after : List Token}
      (begins : Begins source (.ident name) position after) (called : next? after = some .openParen) :
      Blames source ⟨.unknownFunction name, position⟩
  | wrongArity {name : String} {expected found : ℕ} {position : Position} {after : List Token}
      (begins : Begins source (.ident name) position after) (called : next? after = some .openParen) :
      Blames source ⟨.wrongArity name expected found, position⟩
  | constantLiteral {value : Binary64} {position : Position} {after : List Token}
      (begins : Begins source (.number value) position after) : Blames source ⟨.tooManyConstants 256, position⟩
  | namedConstant {name : String} {value : Binary64} {position : Position} {after : List Token}
      (begins : Begins source (.ident name) position after) (plain : next? after ≠ some .openParen)
      (named : namedConstant? name = some value) : Blames source ⟨.tooManyConstants 256, position⟩

theorem Covers.begins_at {read part rest : List Char} {tokens before after : List Token} {o : Token}
    (h : Covers read part rest tokens) (split : tokens = before ++ o :: after) :
    ∃ front text left, part = front ++ (text ++ left) ∧ Covers read front (text ++ left ++ rest) before ∧
      Longest text (left ++ rest) ∧ Means text (.ok o.lexeme) ∧ o.position = positionOf (read ++ front) ∧
      Covers (read ++ front ++ text) left rest after := by
  induction h generalizing before with
  | done => simp at split
  | @blank read part rest tokens c blank more ih =>
    obtain ⟨front, text, left, rfl, reached, longest, means, place, ahead⟩ := ih split
    rw [List.append_assoc read, List.singleton_append] at place ahead
    exact ⟨c :: front, text, left, rfl, .blank blank reached, longest, means, place, ahead⟩
  | @token read text part rest tokens lexeme longest means more ih =>
    cases before with
    | nil =>
      obtain ⟨rfl, rfl⟩ := List.cons.inj split
      refine ⟨[], text, part, rfl, .done, longest, means, ?_, ?_⟩
      · rw [List.append_nil]
      · rwa [List.append_nil]
    | cons first before =>
      obtain ⟨rfl, later⟩ := List.cons.inj split
      obtain ⟨front, inside, left, rfl, reached, longest', means', place, ahead⟩ := ih later
      rw [List.append_assoc read] at place ahead
      refine ⟨text ++ front, inside, left, ?_, .token ?_ means reached, longest', means', place, ahead⟩
      · rw [List.append_assoc]
      · simpa [List.append_assoc] using longest

theorem Begins.of_token {source : List Char} {tokens before after : List Token} {o : Token}
    (h : Covers [] source [] tokens) (split : tokens = before ++ o :: after) :
    Begins source o.lexeme o.position after := by
  obtain ⟨front, text, left, rfl, reached, longest, means, place, ahead⟩ := h.begins_at split
  rw [List.append_nil] at reached longest
  rw [place]
  exact .intro rfl reached longest means ahead

theorem tokenize_cases (source : String) :
    (∃ tokens, Covers [] source.toList [] tokens ∧ tokenize source = .ok ⟨tokens, positionOf source.toList⟩) ∨
    ∃ read rest cause, source.toList = read ++ rest ∧ Blocked rest cause ∧
      tokenize source = .error ⟨cause, positionOf read⟩ := by
  obtain ⟨read, rest, tokens, split, covers, rfl | ⟨cause, blocked⟩⟩ := exists_covers source.toList []
  · rw [List.append_nil] at split
    rw [← split] at covers
    exact .inl ⟨tokens, covers, tokenize_of_covers covers⟩
  · exact .inr ⟨read, rest, cause, split, blocked, tokenize_of_blocked split covers blocked⟩

theorem Blocked.blames {source read rest : List Char} {cause : Fault.Cause} (split : source = read ++ rest)
    (h : Blocked rest cause) : Blames source ⟨cause, positionOf read⟩ := by
  cases h with
  | character visible none => exact .character split visible none
  | number longest means => exact .literal split longest means

theorem parseTokens_error {stream : TokenStream} {f : Fault} (h : parseTokens stream = .error f) :
    f.kind = .parse ∧ stream.IsPlace f.position := by
  have hlayer : (layer maxDepth).Alike stream 0 (layer maxDepth) :=
    layer_alike layer_eq (fun _ _ _ hinner => hinner) (Nat.zero_add _).ge
  obtain ⟨-, hexpected, hwithin⟩ := hlayer.sum ⟨stream.tokens, stream.stop, 0⟩ ⟨List.suffix_refl _, rfl, rfl⟩
  unfold parseTokens at h
  split at h
  · cases h
    exact ⟨rfl, .inl rfl⟩
  · generalize (layer maxDepth).sum.run.run ⟨stream.tokens, stream.stop, 0⟩ = reached at h hexpected hwithin
    obtain ⟨outcome, c⟩ := reached
    cases outcome with
    | error fault =>
      cases h
      exact hexpected
    | ok node =>
      cases hrest : c.rest with
      | nil =>
        simp only [hrest] at h
        cases h
      | cons token rest =>
        simp only [hrest] at h
        cases h
        refine ⟨rfl, .inr ⟨token, hwithin.rest.subset ?_, rfl⟩⟩
        rw [hrest]
        exact List.mem_cons_self

/-- The visit comes from a token, and a name from one before a parenthesis exactly if it is a call. -/
inductive Shown (tokens : List Token) : Visit → Prop
  | number {before after : List Token} {o : Token} {value : Binary64} (split : tokens = before ++ o :: after)
      (lexeme : o.lexeme = .number value) : Shown tokens (.number value o.position)
  | ident {before after : List Token} {o : Token} {name : String} (split : tokens = before ++ o :: after)
      (lexeme : o.lexeme = .ident name) (plain : next? after ≠ some .openParen) :
      Shown tokens (.ident name o.position)
  | call {before after : List Token} {o : Token} {name : String} {given : ℕ} (split : tokens = before ++ o :: after)
      (lexeme : o.lexeme = .ident name) (called : next? after = some .openParen) :
      Shown tokens (.call name given o.position)

theorem next?_append_of_some {ts : List Token} {l : Lexeme} (h : next? ts = some l) (us : List Token) :
    next? (ts ++ us) = some l := by
  obtain ⟨o, rest, rfl, rfl⟩ := next?_eq_some h
  rfl

theorem next?_append_ne {ts us : List Token} {l : Lexeme} (ht : next? ts ≠ some l) (hu : next? us ≠ some l) :
    next? (ts ++ us) ≠ some l := by
  cases ts with
  | nil => exact hu
  | cons => exact ht

theorem Shown.between {ts : List Token} {v : Visit} (h : Shown ts v) (front : List Token) {back : List Token}
    (closed : next? back ≠ some .openParen) : Shown (front ++ (ts ++ back)) v := by
  have wider : ∀ {before after : List Token} {o : Token}, ts = before ++ o :: after →
      front ++ (ts ++ back) = (front ++ before) ++ o :: (after ++ back) := by
    intro before after o split
    rw [split, List.append_assoc, List.append_assoc, List.cons_append]
  cases h with
  | number split lexeme => exact .number (wider split) lexeme
  | ident split lexeme plain => exact .ident (wider split) lexeme (next?_append_ne plain closed)
  | call split lexeme called => exact .call (wider split) lexeme (next?_append_of_some called back)

theorem Shown.before {ts : List Token} {v : Visit} (h : Shown ts v) {o : Token} (apart : o.lexeme ≠ .openParen)
    (us : List Token) : Shown (ts ++ o :: us) v :=
  h.between [] fun hopen => apart (Option.some.inj hopen)

theorem Shown.behind {ts : List Token} {v : Visit} (h : Shown ts v) (front : List Token) : Shown (front ++ ts) v := by
  have closed : next? [] ≠ some .openParen := nofun
  have wide := h.between front closed
  rwa [List.append_nil] at wide

mutual

theorem derives_shown {rank : Rank} {ts : List Token} {t : Tree} {n : ℕ} :
    Derives rank ts t n → ∀ v ∈ t.visits, Shown ts v
  | .product h | .unary h | .primary h => derives_shown h
  | .sum h ho hu => fun v mem => by
    rcases List.mem_append.mp mem with mem | mem
    · exact (derives_shown h v mem).before ho.plain.1 _
    · rw [List.append_cons]
      exact (derives_shown hu v mem).behind _
  | .factor h ho hu => fun v mem => by
    rcases List.mem_append.mp mem with mem | mem
    · exact (derives_shown h v mem).before ho.plain.1 _
    · rw [List.append_cons]
      exact (derives_shown hu v mem).behind _
  | .neg _ h => fun v mem => (derives_shown h v mem).behind [_]
  | .number ho => fun v mem => by
    obtain rfl := List.mem_singleton.mp mem
    exact .number (List.nil_append _).symm ho
  | .ident ho => fun v mem => by
    obtain rfl := List.mem_singleton.mp mem
    exact .ident (List.nil_append _).symm ho nofun
  | .emptyCall ho hl _ => fun v mem => by
    obtain rfl := List.mem_singleton.mp mem
    exact .call (List.nil_append _).symm ho (congrArg some hl)
  | .call ho hl hargs hr => fun v mem => by
    rcases List.mem_cons.mp mem with rfl | mem
    · exact .call (List.nil_append _).symm ho (congrArg some hl)
    · exact ((arguments_shown hargs v mem).before (by simp [hr]) []).behind [_, _]
  | .group _ h hr => fun v mem => ((derives_shown h v mem).before (by simp [hr]) []).behind [_]

theorem arguments_shown {ts : List Token} {args : List Tree} {n : ℕ} :
    Arguments ts args n → ∀ v ∈ Tree.visits.visitsAll args, Shown ts v
  | .last h => fun v mem => by
    rw [Tree.visits.visitsAll, Tree.visits.visitsAll, List.append_nil] at mem
    exact derives_shown h v mem
  | .more h ho hargs => fun v mem => by
    rw [Tree.visits.visitsAll] at mem
    rcases List.mem_append.mp mem with mem | mem
    · exact (derives_shown h v mem).before (by simp [ho]) _
    · rw [List.append_cons]
      exact (arguments_shown hargs v mem).behind _

end

theorem compileTree_error {t : Tree} {f : Fault} (h : compileTree t = .error f) : FirstFault t.visits f := by
  have outcome := emit_outcome t Reflects.empty
  unfold compileTree at h
  cases emitted : emit .empty t with
  | ok d =>
    rw [emitted] at h
    cases h
  | error g =>
    rw [emitted] at h outcome
    cases h
    exact outcome

theorem FaultAt.blames {source : List Char} {tokens : List Token} {visits : List Visit} {v : Visit} {f : Fault}
    (covers : Covers [] source [] tokens) (shown : Shown tokens v) (h : FaultAt visits v f) : Blames source f := by
  cases shown with
  | number split lexeme =>
    have begins := Begins.of_token covers split
    rw [lexeme] at begins
    cases h with
    | poolFull => exact .constantLiteral begins
  | ident split lexeme plain =>
    have begins := Begins.of_token covers split
    rw [lexeme] at begins
    cases h with
    | unknownName => exact .unknownVariable begins plain
    | poolFull brings => exact .namedConstant begins plain brings
  | call split lexeme called =>
    have begins := Begins.of_token covers split
    rw [lexeme] at begins
    cases h with
    | unknownFunction => exact .unknownFunction begins called
    | wrongArity => exact .wrongArity begins called
    | poolFull brings => cases brings

/-- A fault of compilation names the place of the text that is at fault. -/
theorem compile_blames {source : String} {f : Fault} (h : compile source = .error f) : Blames source.toList f := by
  unfold compile parse at h
  obtain ⟨tokens, covers, accepted⟩ | ⟨read, rest, cause, split, blocked, rejected⟩ := tokenize_cases source
  · rw [accepted] at h
    cases parsed : parseTokens ⟨tokens, positionOf source.toList⟩ with
    | error g =>
      change (parseTokens _ >>= compileTree) = _ at h
      rw [parsed] at h
      cases h
      obtain ⟨grammar, place | ⟨o, mem, place⟩⟩ := parseTokens_error parsed
      · obtain ⟨cause, position⟩ := f
        cases place
        exact .stop grammar
      · obtain ⟨before, after, split⟩ := List.append_of_mem mem
        obtain ⟨cause, position⟩ := f
        cases place
        exact .token grammar (Begins.of_token covers split)
    | ok t =>
      change (parseTokens _ >>= compileTree) = _ at h
      rw [parsed] at h
      obtain ⟨-, n, -, derives⟩ := parseTokens_ok_forms parsed
      obtain ⟨before, v, after, split, -, fault⟩ := compileTree_error h
      have mem : v ∈ t.visits := by
        rw [split]
        exact List.mem_append_right _ List.mem_cons_self
      exact fault.blames covers (derives_shown derives v mem)
  · rw [rejected] at h
    cases h
    exact blocked.blames split

theorem compile_blames_third_line :
    compile "sin(x) *\n\tclamp(x, 0, 1) +\n sine (x)" = .error ⟨.unknownFunction "sine", ⟨3, 2⟩⟩ ∧
      Blames "sin(x) *\n\tclamp(x, 0, 1) +\n sine (x)".toList ⟨.unknownFunction "sine", ⟨3, 2⟩⟩ := by
  have fails : compile "sin(x) *\n\tclamp(x, 0, 1) +\n sine (x)" = .error ⟨.unknownFunction "sine", ⟨3, 2⟩⟩ := by
    decide +kernel
  exact ⟨fails, compile_blames fails⟩

end FormulaSynth.Formula
