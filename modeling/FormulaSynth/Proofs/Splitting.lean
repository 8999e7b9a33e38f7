import FormulaSynth.Proofs.Lexemes

/-!
# Splitting a text

The scanner splits every text into its longest lexemes and the blanks between them, up to the first place where no
lexeme begins or where the longest one stands for nothing.
-/

set_option autoImplicit false
namespace FormulaSynth.Formula
open Text

section Front
variable {c x : Char} {r ds s : List Char}

theorem begins_iff : (c.isDigit || (c == '.' && startsWithDigit r)) = true ↔ DecimalLiteral.Begins (c :: r) := by
  simp [DecimalLiteral.Begins, startsWithDigit]

theorem lexemeAt_symbol {lexeme : Lexeme} (listed : (c, lexeme) ∈ symbols) : lexemeAt c r = .ok (lexeme, 0) := by
  have found : symbol? c = some lexeme := (symbols_apart _ listed).1
  rw [lexemeAt, found]

theorem lexemeAt_number (begins : DecimalLiteral.Begins (c :: r)) : lexemeAt c r = numberAt (c :: r) := by
  have apart : symbol? c = none := by
    rcases begins with digit | ⟨t, point, -⟩
    · exact symbol_none (Or.inl digit)
    · exact symbol_none (Or.inr (Or.inl (List.cons.inj point).1))
  rw [lexemeAt, apart]
  exact if_pos (begins_iff.mpr begins)

theorem lexemeAt_name (start : isIdentStart c = true) : lexemeAt c r = .ok (identAt c r) := by
  obtain ⟨digit, point⟩ := isIdentStart_apart start
  have pointless : (c == '.') = false := beq_eq_false_iff_ne.mpr point
  rw [lexemeAt, symbol_none (Or.inr (Or.inr start)), digit, pointless, start]
  rfl

theorem numberAt_decimal (plain : ∀ x t, s = '0' :: x :: t → ¬(x = 'x' ∨ x = 'X')) : numberAt s = decimalAt s := by
  unfold numberAt
  split
  · exact absurd (Or.inl rfl) (plain _ _ rfl)
  · exact absurd (Or.inr rfl) (plain _ _ rfl)
  · rfl

theorem numberAt_hexadecimal (letter : x = 'x' ∨ x = 'X') : numberAt ('0' :: x :: r) = hexAt r := by
  rcases letter with rfl | rfl <;> rfl

theorem mapM_eq_some_iff {α β : Type} {f : α → Option β} {xs : List α} {ys : List β} :
    xs.mapM f = some ys ↔ xs.map f = ys.map some := by
  induction xs generalizing ys with
  | nil => cases ys <;> simp
  | cons x xs ih =>
    rw [List.mapM_cons]
    cases ys with
    | nil => simp [Option.bind_eq_some_iff]
    | cons y ys => simp [Option.bind_eq_some_iff, ih]

theorem hexAt_ok {n : ℕ} (whole : r.takeWhile Char.isAlphanum = ds) (number : IsHexadecimal ds n) (small : n < 2 ^ 64) :
    hexAt r = .ok (.number (Binary64.ofRational n), ds.length + 1) := by
  obtain ⟨values, some, read, rfl⟩ := number
  have bound : values ≠ [] ∧ digitsValue 16 values < Nat.pow 2 64 := ⟨some, (digitsValue_eq 16 values).trans_lt small⟩
  rw [hexAt, whole, mapM_eq_some_iff.mpr read]
  dsimp only
  rw [if_pos bound, Binary64.ofNat_eq, digitsValue_eq]

theorem hexAt_error (whole : r.takeWhile Char.isAlphanum = ds) (none : ∀ n < 2 ^ 64, ¬IsHexadecimal ds n) :
    hexAt r = .error (.invalidNumber ("0x" ++ String.ofList ds)) := by
  rw [hexAt, whole]
  split
  · rename_i values read
    have wrong : ¬(values ≠ [] ∧ digitsValue 16 values < Nat.pow 2 64) := by
      rintro ⟨some, small⟩
      exact none _ small ⟨values, some, mapM_eq_some_iff.mp read, digitsValue_eq 16 values⟩
    exact if_neg wrong
  · rfl

end Front

section Greedy
variable {text rest : List Char} {q : ℚ}

theorem Longest.literal (h : Longest text rest) (number : IsDecimal text q) :
    (DecimalLiteral.longest (text ++ rest)).text = text ∧ (DecimalLiteral.longest (text ++ rest)).rational = q := by
  have found := DecimalLiteral.longest_isDecimal (number.begins rest)
  have same := h.eq_of_prefix (.decimal found) (DecimalLiteral.longest_prefix _) (number.prefix_longest rest)
  refine ⟨same.symm, ?_⟩
  rw [← found.rational_eq, ← same, number.rational_eq]

theorem Longest.plain (h : Longest text rest) (number : IsDecimal text q) (x : Char) (t : List Char)
    (shape : text ++ rest = '0' :: x :: t) : ¬(x = 'x' ∨ x = 'X') := by
  intro letter
  have lexeme : IsLexeme ['0', x] := .hexadecimal letter (by simp)
  have ahead : ['0', x] <+: text ++ rest := ⟨t, shape.symm⟩
  have front := List.prefix_of_prefix_length_le ahead (List.prefix_append text rest) (h.most _ lexeme ahead)
  exact number.plain letter (front.subset (by simp))

theorem Longest.decimalAt_eq (h : Longest text rest) (number : IsDecimal text q) :
    decimalAt (text ++ rest) =
      if (Binary64.ofRational q).isFinite then .ok (.number (Binary64.ofRational q), text.length - 1)
      else .error (.invalidNumber (String.ofList text)) := by
  obtain ⟨whole, value⟩ := h.literal number
  rw [decimalAt, DecimalLiteral.value_eq, whole, value]

variable {c : Char} {cs : List Char}

theorem Longest.lexemeAt_decimal (h : Longest (c :: cs) rest) (number : IsDecimal (c :: cs) q) :
    lexemeAt c (cs ++ rest) =
      if (Binary64.ofRational q).isFinite then .ok (.number (Binary64.ofRational q), cs.length)
      else .error (.invalidNumber (String.ofList (c :: cs))) := by
  have begins : DecimalLiteral.Begins (c :: (cs ++ rest)) := number.begins rest
  rw [lexemeAt_number begins]
  exact (numberAt_decimal (h.plain number)).trans (h.decimalAt_eq number)

theorem Longest.lexemeAt_hexadecimal {x : Char} {ds : List Char} (h : Longest ('0' :: x :: ds) rest)
    (letter : x = 'x' ∨ x = 'X') (chars : ∀ d ∈ ds, d.isAlphanum = true) :
    lexemeAt '0' (x :: ds ++ rest) = hexAt (ds ++ rest) ∧ (ds ++ rest).takeWhile Char.isAlphanum = ds := by
  have begins : DecimalLiteral.Begins ('0' :: (x :: ds ++ rest)) := Or.inl rfl
  refine ⟨?_, h.takeWhile_eq ['0', x] chars fun ds all => .hexadecimal letter all⟩
  rw [lexemeAt_number begins]
  exact numberAt_hexadecimal letter

theorem lexemeAt_of_longest {result : Except Fault.Cause Lexeme} (h : Longest (c :: cs) rest)
    (means : Means (c :: cs) result) : lexemeAt c (cs ++ rest) = result.map (·, cs.length) := by
  cases means with
  | symbol listed => exact lexemeAt_symbol listed
  | name start chars =>
    have whole := h.takeWhile_eq [c] chars fun ds all => .name start all
    rw [lexemeAt_name start, identAt, whole]
    rfl
  | @decimal _ q b number small nearest =>
    have same := (Binary64.isNearest_ofRational number.nonneg small).unique nearest
    rw [h.lexemeAt_decimal number, same, if_pos nearest.finite]
    rfl
  | @infinite _ q number large =>
    have infinite : Binary64.infinity.isFinite = false := by decide
    rw [h.lexemeAt_decimal number, Binary64.ofRational_of_large large, infinite]
    rfl
  | @hexadecimal x ds n b letter chars number small nearest =>
    obtain ⟨found, whole⟩ := h.lexemeAt_hexadecimal letter chars
    have finite := word_lt_finiteLimit small
    have same := (Binary64.isNearest_ofRational (Nat.cast_nonneg n) finite).unique nearest
    rw [found, hexAt_ok whole number small, same]
    rfl
  | @misspelled x ds letter chars none =>
    obtain ⟨found, whole⟩ := h.lexemeAt_hexadecimal letter chars
    rw [found, hexAt_error whole none]
    rfl

theorem lexemeAt_of_none {r : List Char} (none : ∀ text, IsLexeme text → ¬text <+: c :: r) :
    lexemeAt c r = .error (.unexpectedCharacter c) := by
  have one : [c] <+: c :: r := List.prefix_append [c] r
  have symbolless : symbol? c = Option.none := by
    cases found : symbol? c with
    | none => rfl
    | some lexeme => exact absurd one (none _ (.symbol (mem_symbols found)))
  have numberless : ¬(c.isDigit || (c == '.' && startsWithDigit r)) = true := by
    intro begins
    have number := DecimalLiteral.longest_isDecimal (begins_iff.mp begins)
    exact none _ (.decimal number) (DecimalLiteral.longest_prefix _)
  have nameless : ¬isIdentStart c = true := fun start => none _ (.name start (by simp)) one
  rw [lexemeAt, symbolless]
  dsimp only
  rw [if_neg numberless, if_neg nameless]

end Greedy

/-- Where a text goes on after `read`, counted from 1. Only a line feed ends a line. -/
def positionOf (read : List Char) : Position :=
  ⟨read.count '\n' + 1, (read.reverse.takeWhile (· ≠ '\n')).length + 1⟩

theorem next_positionOf (read : List Char) (c : Char) : (positionOf read).next c = positionOf (read ++ [c]) := by
  by_cases feed : c = '\n'
  · simp [Position.next, positionOf, feed]
  · simp [Position.next, positionOf, feed, List.count_append]

theorem after_positionOf (read text : List Char) : (positionOf read).after text = positionOf (read ++ text) := by
  induction text generalizing read with
  | nil => rw [Position.after_nil, List.append_nil]
  | cons c text ih => rw [Position.after_cons, next_positionOf, ih, List.append_assoc, List.singleton_append]

/-- After `read`, the next part of a text is made of blanks and of the lexemes of the given tokens. Each lexeme is the
longest where it stands, with what comes after that part in view. -/
inductive Covers : List Char → List Char → List Char → List Token → Prop
  | done {read rest : List Char} : Covers read [] rest []
  | blank {read part rest : List Char} {tokens : List Token} {c : Char} (blank : isBlank c = true)
      (more : Covers (read ++ [c]) part rest tokens) : Covers read (c :: part) rest tokens
  | token {read text part rest : List Char} {tokens : List Token} {lexeme : Lexeme}
      (longest : Longest text (part ++ rest)) (means : Means text (.ok lexeme))
      (more : Covers (read ++ text) part rest tokens) :
      Covers read (text ++ part) rest (⟨lexeme, positionOf read⟩ :: tokens)

/-- Why a text has no token at its front. -/
inductive Blocked : List Char → Fault.Cause → Prop
  | character {c : Char} {r : List Char} (visible : isBlank c = false)
      (none : ∀ text, IsLexeme text → ¬text <+: c :: r) : Blocked (c :: r) (.unexpectedCharacter c)
  | number {text rest : List Char} {cause : Fault.Cause} (longest : Longest text rest)
      (means : Means text (.error cause)) : Blocked (text ++ rest) cause

section Scan
variable {p : Position} {done : List Token} {c : Char} {r text part rest read : List Char}

theorem scanFrom_nil : scanFrom p done [] = .ok ⟨done.reverse, p⟩ := by
  rw [scanFrom.eq_def]

theorem scanFrom_blank (blank : isBlank c = true) : scanFrom p done (c :: r) = scanFrom (p.next c) done r := by
  rw [scanFrom.eq_def]
  exact if_pos blank

theorem scanFrom_visible (visible : isBlank c = false) :
    scanFrom p done (c :: r) = match lexemeAt c r with
      | .error cause => .error ⟨cause, p⟩
      | .ok (lexeme, more) => scanFrom ((p.next c).after (r.take more)) (⟨lexeme, p⟩ :: done) (r.drop more) := by
  rw [scanFrom.eq_def]
  exact if_neg (Bool.eq_false_iff.mp visible)

theorem scanFrom_lexeme {lexeme : Lexeme} (longest : Longest text rest) (means : Means text (.ok lexeme)) :
    scanFrom p done (text ++ rest) = scanFrom (p.after text) (⟨lexeme, p⟩ :: done) rest := by
  obtain ⟨c, cs, rfl⟩ := List.exists_cons_of_ne_nil longest.lexeme.ne_nil
  rw [List.cons_append, scanFrom_visible longest.lexeme.visible, lexemeAt_of_longest longest means]
  dsimp only [Except.map]
  rw [List.take_left, List.drop_left, Position.after_cons]

theorem scanFrom_blocked {cause : Fault.Cause} (h : Blocked rest cause) : scanFrom p done rest = .error ⟨cause, p⟩ := by
  cases h with
  | @character c r visible none => rw [scanFrom_visible visible, lexemeAt_of_none none]
  | @number text rest _ longest means =>
    obtain ⟨c, cs, rfl⟩ := List.exists_cons_of_ne_nil longest.lexeme.ne_nil
    rw [List.cons_append, scanFrom_visible longest.lexeme.visible, lexemeAt_of_longest longest means]
    rfl

theorem Covers.scanFrom_eq {tokens : List Token} (h : Covers read part rest tokens) (done : List Token) :
    scanFrom (positionOf read) done (part ++ rest) =
      scanFrom (positionOf (read ++ part)) (tokens.reverse ++ done) rest := by
  induction h generalizing done with
  | done => rw [List.append_nil]; rfl
  | blank blank more ih =>
    rw [List.cons_append, scanFrom_blank blank, next_positionOf, ih, List.append_assoc, List.singleton_append]
  | token longest means more ih =>
    rw [List.append_assoc, scanFrom_lexeme longest means, after_positionOf, ih, List.append_assoc, List.reverse_cons,
      List.append_assoc, List.singleton_append]

theorem exists_covers (text : List Char) (read : List Char) :
    ∃ part rest tokens, text = part ++ rest ∧ Covers read part rest tokens ∧
      (rest = [] ∨ ∃ cause, Blocked rest cause) := by
  induction h : text.length using Nat.strong_induction_on generalizing text read with
  | h n ih =>
    subst h
    match text with
    | [] => exact ⟨[], [], [], rfl, .done, Or.inl rfl⟩
    | c :: r =>
      by_cases blank : isBlank c = true
      · obtain ⟨part, rest, tokens, rfl, covers, last⟩ := ih r.length (Nat.lt_succ_self _) r (read ++ [c]) rfl
        exact ⟨c :: part, rest, tokens, rfl, .blank blank covers, last⟩
      -- of the lexemes that begin here there is a longest one, which either has a meaning or blocks the text
      by_cases front : ∃ text, IsLexeme text ∧ text <+: c :: r
      · obtain ⟨_, lexeme, front⟩ := front
        obtain ⟨text, left, shape, longest⟩ := exists_longest lexeme front
        obtain ⟨result, means⟩ := longest.lexeme.exists_means
        rw [shape]
        cases result with
        | error cause => exact ⟨[], _, [], rfl, .done, Or.inr ⟨cause, .number longest means⟩⟩
        | ok lexeme =>
          have shorter : left.length < (c :: r).length := by
            have some := List.length_pos_of_ne_nil longest.lexeme.ne_nil
            rw [shape, List.length_append]
            omega
          obtain ⟨part, rest, tokens, rfl, covers, last⟩ := ih left.length shorter left (read ++ text) rfl
          exact ⟨text ++ part, rest, _, (List.append_assoc ..).symm, .token longest means covers, last⟩
      · have visible : isBlank c = false := Bool.eq_false_iff.mpr blank
        have none : ∀ text, IsLexeme text → ¬text <+: c :: r := fun text lexeme ahead => front ⟨text, lexeme, ahead⟩
        exact ⟨[], c :: r, [], rfl, .done, Or.inr ⟨_, .character visible none⟩⟩

theorem tokenize_of_covers {source : String} {tokens : List Token} (h : Covers [] source.toList [] tokens) :
    tokenize source = .ok ⟨tokens, positionOf source.toList⟩ := by
  have run := h.scanFrom_eq []
  rw [List.append_nil, List.append_nil, List.nil_append, scanFrom_nil, List.reverse_reverse] at run
  exact run

theorem tokenize_of_blocked {source : String} {tokens : List Token} {cause : Fault.Cause}
    (shape : source.toList = read ++ rest) (covers : Covers [] read rest tokens) (blocked : Blocked rest cause) :
    tokenize source = .error ⟨cause, positionOf read⟩ := by
  have run := covers.scanFrom_eq []
  rw [List.nil_append, scanFrom_blocked blocked, ← shape] at run
  exact run

end Scan

/-- The tokens of a text are those that cover it, and there are none exactly when something blocks the text. -/
theorem tokenize_splits (source : String) :
    (∀ tokens stop, tokenize source = .ok ⟨tokens, stop⟩ ↔
      Covers [] source.toList [] tokens ∧ stop = positionOf source.toList) ∧
    (∀ fault, tokenize source = .error fault ↔
      ∃ read rest tokens cause, source.toList = read ++ rest ∧ Covers [] read rest tokens ∧ Blocked rest cause ∧
        fault = ⟨cause, positionOf read⟩) := by
  obtain ⟨read, rest, found, shape, covers, last⟩ := exists_covers source.toList []
  refine ⟨fun tokens stop => ⟨fun accepted => ?_, ?_⟩, fun fault => ⟨fun rejected => ?_, ?_⟩⟩
  · rcases last with rfl | ⟨cause, blocked⟩
    · rw [List.append_nil] at shape
      rw [← shape] at covers
      rw [tokenize_of_covers covers] at accepted
      cases accepted
      exact ⟨covers, rfl⟩
    · rw [tokenize_of_blocked shape covers blocked] at accepted
      cases accepted
  · rintro ⟨all, rfl⟩
    exact tokenize_of_covers all
  · rcases last with rfl | ⟨cause, blocked⟩
    · rw [List.append_nil] at shape
      rw [← shape] at covers
      rw [tokenize_of_covers covers] at rejected
      cases rejected
    · rw [tokenize_of_blocked shape covers blocked] at rejected
      cases rejected
      exact ⟨read, rest, found, cause, shape, covers, blocked, rfl⟩
  · rintro ⟨front, left, tokens, cause, whole, all, blocked, rfl⟩
    exact tokenize_of_blocked whole all blocked

example : (tokenize "0x1F+.5e1e\n").toOption =
    some ⟨[⟨.number (.ofNat 31), ⟨1, 1⟩⟩, ⟨.plus, ⟨1, 5⟩⟩, ⟨.number (.ofNat 5), ⟨1, 6⟩⟩, ⟨.ident "e", ⟨1, 10⟩⟩],
      ⟨2, 1⟩⟩ := by
  decide +kernel

end FormulaSynth.Formula
