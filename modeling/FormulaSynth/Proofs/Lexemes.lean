import FormulaSynth.Formula.Scan
import FormulaSynth.Proofs.Nearest

/-!
# Lexemes

Which texts are a number, a name or a symbol of a formula, and what they say. What the scanner takes from the front of
a text is the longest of them, so a point or an exponent belongs to a number as soon as it can.
-/

set_option autoImplicit false
namespace FormulaSynth
open Text

def numeral (base : ℕ) (values : List ℕ) : ℕ := Nat.ofDigits base values.reverse

theorem numeral_append (base : ℕ) (xs ys : List ℕ) :
    numeral base (xs ++ ys) = numeral base xs * base ^ ys.length + numeral base ys := by
  rw [numeral, List.reverse_append, Nat.ofDigits_append, List.length_reverse]
  unfold numeral
  ring

theorem digitsValue_eq (base : ℕ) (values : List ℕ) : digitsValue base values = numeral base values := by
  induction values using List.reverseRecOn with
  | nil => rfl
  | append_singleton values v ih =>
    have step : digitsValue base (values ++ [v]) = base * digitsValue base values + v := List.foldl_append
    have one : numeral base [v] = v := Nat.ofDigits_singleton
    rw [step, ih, numeral_append, one, List.length_singleton, pow_one, Nat.mul_comm]

def AllDigits (text : List Char) : Prop := ∀ c ∈ text, c.isDigit = true

def decimalNumeral (text : List Char) : ℕ := numeral 10 (text.map decimalDigit)

inductive IsExponent : List Char → ℤ → Prop
  | none : IsExponent [] 0
  | plain {e : Char} {ds : List Char} (letter : e = 'e' ∨ e = 'E') (some : ds ≠ []) (digits : AllDigits ds) :
      IsExponent (e :: ds) (decimalNumeral ds)
  | plus {e : Char} {ds : List Char} (letter : e = 'e' ∨ e = 'E') (some : ds ≠ []) (digits : AllDigits ds) :
      IsExponent (e :: '+' :: ds) (decimalNumeral ds)
  | minus {e : Char} {ds : List Char} (letter : e = 'e' ∨ e = 'E') (some : ds ≠ []) (digits : AllDigits ds) :
      IsExponent (e :: '-' :: ds) (-(decimalNumeral ds : ℤ))

/-- A decimal number and its value. Digits may be missing on one side of the point. -/
inductive IsDecimal : List Char → ℚ → Prop
  | whole {ds es : List Char} {k : ℤ} (some : ds ≠ []) (digits : AllDigits ds) (exponent : IsExponent es k) :
      IsDecimal (ds ++ es) (decimalNumeral ds * 10 ^ k)
  | point {ds fs es : List Char} {k : ℤ} (some : ds ≠ [] ∨ fs ≠ []) (digits : AllDigits ds) (places : AllDigits fs)
      (exponent : IsExponent es k) :
      IsDecimal (ds ++ '.' :: (fs ++ es)) ((decimalNumeral ds + decimalNumeral fs / 10 ^ fs.length) * 10 ^ k)

section Digits
variable {ds r : List Char}

theorem takeWhile_digits (h : AllDigits ds) (r : List Char) :
    (ds ++ r).takeWhile Char.isDigit = ds ++ r.takeWhile Char.isDigit :=
  List.takeWhile_append_of_pos h

theorem dropWhile_digits (h : AllDigits ds) (r : List Char) :
    (ds ++ r).dropWhile Char.isDigit = r.dropWhile Char.isDigit :=
  List.dropWhile_append_of_pos h

theorem allDigits_takeWhile (s : List Char) : AllDigits (s.takeWhile Char.isDigit) :=
  fun _ mem => List.mem_takeWhile_imp mem

theorem startsWithDigit_of_all (some : ds ≠ []) (h : AllDigits ds) (r : List Char) :
    startsWithDigit (ds ++ r) = true := by
  cases ds with
  | nil => exact absurd rfl some
  | cons d ds => exact h d List.mem_cons_self

theorem takeWhile_ne_nil {s : List Char} (h : startsWithDigit s = true) : s.takeWhile Char.isDigit ≠ [] := by
  cases s with
  | nil => cases h
  | cons c s =>
    have digit : c.isDigit = true := h
    rw [List.takeWhile_cons_of_pos digit]
    exact List.cons_ne_nil _ _

theorem digit_ne {c d : Char} (digit : c.isDigit = true) (other : d.isDigit = false) : c ≠ d := by
  rintro rfl
  rw [digit] at other
  cases other

end Digits

namespace DecimalLiteral

theorem letter_of_exponentAt {e s : Char} {r : List Char} (letter : e = 'e' ∨ e = 'E') :
    exponentAt (e :: s :: r) =
      if s = '+' ∨ s = '-' then if startsWithDigit r then e :: s :: r.takeWhile Char.isDigit else []
      else if s.isDigit then e :: (s :: r).takeWhile Char.isDigit else [] :=
  if_pos letter

theorem prefix_exponentAt (s : List Char) : exponentAt s <+: s := by
  unfold exponentAt
  split
  · rename_i e c r
    split_ifs with letter sign digit digit
    · exact (List.prefix_append_right_inj [e, c]).mpr (List.takeWhile_prefix _)
    · exact List.nil_prefix
    · have front : (c :: r).takeWhile Char.isDigit <+: c :: r := List.takeWhile_prefix _
      exact (List.prefix_append_right_inj [e]).mpr front
    · exact List.nil_prefix
    · exact List.nil_prefix
  · exact List.nil_prefix

theorem exists_exponentAt (s : List Char) : ∃ k, IsExponent (exponentAt s) k := by
  unfold exponentAt
  split
  · rename_i e c r
    split_ifs with letter sign digit digit
    · have run := allDigits_takeWhile r
      have some := takeWhile_ne_nil digit
      rcases sign with rfl | rfl
      · exact ⟨_, .plus letter some run⟩
      · exact ⟨_, .minus letter some run⟩
    · exact ⟨0, .none⟩
    · have run := allDigits_takeWhile (c :: r)
      have some := takeWhile_ne_nil (s := c :: r) digit
      exact ⟨_, .plain letter some run⟩
    · exact ⟨0, .none⟩
    · exact ⟨0, .none⟩
  · exact ⟨0, .none⟩

theorem exponentValue_plain {e d : Char} {ds : List Char} (digit : d.isDigit = true) :
    exponentValue (e :: d :: ds) = digitsValue 10 ((d :: ds).map decimalDigit) := by
  have minus : d ≠ '-' := digit_ne digit rfl
  have plus : d ≠ '+' := digit_ne digit rfl
  unfold exponentValue
  split
  · rename_i eq
    cases eq
    exact absurd rfl minus
  · rename_i eq
    cases eq
    exact absurd rfl plus
  · rename_i eq
    cases eq
    rfl
  · rename_i eq
    cases eq

end DecimalLiteral

theorem IsExponent.value_eq {es : List Char} {k : ℤ} (h : IsExponent es k) :
    DecimalLiteral.exponentValue es = k := by
  cases h with
  | none => rfl
  | @plain e ds letter some digits =>
    cases ds with
    | nil => exact absurd rfl some
    | cons d ds =>
      rw [DecimalLiteral.exponentValue_plain (digits d List.mem_cons_self), digitsValue_eq]
      rfl
  | plus letter some digits => exact congrArg Nat.cast (digitsValue_eq 10 _)
  | minus letter some digits => exact congrArg (fun n : ℕ => -(n : ℤ)) (digitsValue_eq 10 _)

theorem IsExponent.prefix_exponentAt {es : List Char} {k : ℤ} (h : IsExponent es k) (r : List Char) :
    es <+: DecimalLiteral.exponentAt (es ++ r) := by
  cases h with
  | none => exact List.nil_prefix
  | @plain e ds letter some digits =>
    cases ds with
    | nil => exact absurd rfl some
    | cons d ds =>
      have digit := digits d List.mem_cons_self
      have unsigned : ¬(d = '+' ∨ d = '-') := not_or.mpr ⟨digit_ne digit rfl, digit_ne digit rfl⟩
      have front : d :: ds <+: (d :: ds ++ r).takeWhile Char.isDigit := by
        rw [takeWhile_digits digits]
        exact List.prefix_append _ _
      change e :: d :: ds <+: DecimalLiteral.exponentAt (e :: d :: (ds ++ r))
      rw [DecimalLiteral.letter_of_exponentAt letter, if_neg unsigned, if_pos digit]
      exact (List.prefix_append_right_inj [e]).mpr front
  | @plus e ds letter some digits =>
    change e :: '+' :: ds <+: DecimalLiteral.exponentAt (e :: '+' :: (ds ++ r))
    rw [DecimalLiteral.letter_of_exponentAt letter, if_pos (Or.inl rfl), if_pos (startsWithDigit_of_all some digits r),
      takeWhile_digits digits]
    exact List.prefix_append (e :: '+' :: ds) _
  | @minus e ds letter some digits =>
    change e :: '-' :: ds <+: DecimalLiteral.exponentAt (e :: '-' :: (ds ++ r))
    rw [DecimalLiteral.letter_of_exponentAt letter, if_pos (Or.inr rfl), if_pos (startsWithDigit_of_all some digits r),
      takeWhile_digits digits]
    exact List.prefix_append (e :: '-' :: ds) _

section Reading
variable {es : List Char} {k : ℤ}

theorem IsExponent.head {e : Char} (h : IsExponent (e :: es) k) : e.isDigit = false ∧ e ≠ '.' := by
  have letter : e = 'e' ∨ e = 'E' := by cases h <;> assumption
  rcases letter with rfl | rfl <;> decide

theorem IsExponent.undigited (h : IsExponent es k) (some : es ≠ []) (r : List Char) :
    (es ++ r).takeWhile Char.isDigit = [] ∧ (es ++ r).dropWhile Char.isDigit = es ++ r := by
  cases es with
  | nil => exact absurd rfl some
  | cons e es =>
    have letter := Bool.eq_false_iff.mp h.head.1
    exact ⟨List.takeWhile_cons_of_neg letter, List.dropWhile_cons_of_neg letter⟩

theorem IsExponent.prefix_rest (h : IsExponent es k) (r : List Char) :
    es <+: (es ++ r).takeWhile Char.isDigit ++ DecimalLiteral.exponentAt ((es ++ r).dropWhile Char.isDigit) := by
  by_cases some : es = []
  · rw [some]
    exact List.nil_prefix
  · obtain ⟨none, all⟩ := h.undigited some r
    rw [none, all]
    exact h.prefix_exponentAt r

theorem IsExponent.nil_of_point (h : IsExponent es k) {r t : List Char}
    (point : (es ++ r).dropWhile Char.isDigit = '.' :: t) : es = [] := by
  cases es with
  | nil => rfl
  | cons e es =>
    rw [(h.undigited (List.cons_ne_nil e es) r).2] at point
    exact absurd (List.cons.inj point).1 h.head.2

theorem IsExponent.alone (h : IsExponent es k) :
    es.takeWhile Char.isDigit = [] ∧ es.dropWhile Char.isDigit = es ∧ DecimalLiteral.exponentAt es = es := by
  have whole := h.prefix_exponentAt []
  rw [List.append_nil] at whole
  have same := whole.eq_of_length_le (DecimalLiteral.prefix_exponentAt es).length_le
  by_cases some : es = []
  · rw [some]
    exact ⟨rfl, rfl, rfl⟩
  · have split := h.undigited some []
    rw [List.append_nil] at split
    exact ⟨split.1, split.2, same.symm⟩

end Reading

namespace DecimalLiteral
variable {s r : List Char}

theorem longest_whole (h : ∀ r, s.dropWhile Char.isDigit ≠ '.' :: r) :
    longest s = ⟨s.takeWhile Char.isDigit, none, exponentAt (s.dropWhile Char.isDigit)⟩ := by
  unfold longest
  split
  · rename_i r eq
    exact absurd eq (h r)
  · rfl

theorem longest_point (h : s.dropWhile Char.isDigit = '.' :: r) :
    longest s = ⟨s.takeWhile Char.isDigit, some (r.takeWhile Char.isDigit), exponentAt (r.dropWhile Char.isDigit)⟩ := by
  unfold longest
  rw [h]
  rfl

def rational (d : DecimalLiteral) : ℚ :=
  digitsValue 10 (d.digits.map decimalDigit) * 10 ^ (exponentValue d.exponent - d.fractionDigits.length)

theorem value_eq (d : DecimalLiteral) : d.value = Binary64.ofRational d.rational :=
  Binary64.ofDecimal_eq _ _

theorem rational_whole {ds es : List Char} {k : ℤ} (exponent : IsExponent es k) :
    (⟨ds, none, es⟩ : DecimalLiteral).rational = decimalNumeral ds * 10 ^ k := by
  have digits : (⟨ds, none, es⟩ : DecimalLiteral).digits = ds := List.append_nil ds
  rw [rational, digits, exponent.value_eq, digitsValue_eq]
  change _ * (10 : ℚ) ^ (k - ((0 : ℕ) : ℤ)) = _
  rw [Nat.cast_zero, sub_zero]
  rfl

theorem rational_point {ds fs es : List Char} {k : ℤ} (exponent : IsExponent es k) :
    (⟨ds, some fs, es⟩ : DecimalLiteral).rational =
      (decimalNumeral ds + decimalNumeral fs / 10 ^ fs.length) * 10 ^ k := by
  have digits : (⟨ds, some fs, es⟩ : DecimalLiteral).digits = ds ++ fs := rfl
  have ten : (10 : ℚ) ^ fs.length ≠ 0 := pow_ne_zero _ (by norm_num)
  rw [rational, digits, exponent.value_eq, digitsValue_eq, List.map_append, numeral_append, List.length_map]
  change _ * (10 : ℚ) ^ (k - (fs.length : ℤ)) = _
  rw [zpow_sub₀ (by norm_num), zpow_natCast]
  unfold decimalNumeral
  push_cast
  field_simp

def Begins (s : List Char) : Prop := startsWithDigit s = true ∨ ∃ r, s = '.' :: r ∧ startsWithDigit r = true

theorem longest_isDecimal (begins : Begins s) : IsDecimal (longest s).text (longest s).rational := by
  have run := allDigits_takeWhile s
  by_cases point : ∃ r, s.dropWhile Char.isDigit = '.' :: r
  · obtain ⟨r, rest⟩ := point
    obtain ⟨k, exponent⟩ := exists_exponentAt (r.dropWhile Char.isDigit)
    have some : s.takeWhile Char.isDigit ≠ [] ∨ r.takeWhile Char.isDigit ≠ [] := by
      rcases begins with digit | ⟨t, rfl, digit⟩
      · exact Or.inl (takeWhile_ne_nil digit)
      · cases rest
        exact Or.inr (takeWhile_ne_nil digit)
    rw [longest_point rest, rational_point exponent, text, List.append_assoc]
    exact .point some run (allDigits_takeWhile r) exponent
  · have rest : ∀ r, s.dropWhile Char.isDigit ≠ '.' :: r := fun r eq => point ⟨r, eq⟩
    obtain ⟨k, exponent⟩ := exists_exponentAt (s.dropWhile Char.isDigit)
    have some : s.takeWhile Char.isDigit ≠ [] := by
      rcases begins with digit | ⟨t, rfl, digit⟩
      · exact takeWhile_ne_nil digit
      · exact absurd rfl (rest t)
    rw [longest_whole rest, rational_whole exponent, text, List.append_nil]
    exact .whole some run exponent

theorem longest_prefix (s : List Char) : (longest s).text <+: s := by
  have whole : s.takeWhile Char.isDigit ++ s.dropWhile Char.isDigit = s := List.takeWhile_append_dropWhile
  by_cases point : ∃ r, s.dropWhile Char.isDigit = '.' :: r
  · obtain ⟨r, rest⟩ := point
    have fraction : r.takeWhile Char.isDigit ++ r.dropWhile Char.isDigit = r := List.takeWhile_append_dropWhile
    rw [longest_point rest, text, List.append_assoc]
    conv_rhs => rw [← whole, rest, ← fraction]
    refine (List.prefix_append_right_inj _).mpr ((List.prefix_append_right_inj ['.']).mpr ?_)
    exact (List.prefix_append_right_inj _).mpr (prefix_exponentAt _)
  · rw [longest_whole fun r eq => point ⟨r, eq⟩, text, List.append_nil]
    conv_rhs => rw [← whole]
    exact (List.prefix_append_right_inj _).mpr (prefix_exponentAt _)

end DecimalLiteral

section Decimals
variable {text : List Char} {q : ℚ}

theorem IsDecimal.prefix_longest (h : IsDecimal text q) (r : List Char) :
    text <+: (DecimalLiteral.longest (text ++ r)).text := by
  cases h with
  | @whole ds es k some digits exponent =>
    have taken := takeWhile_digits digits (es ++ r)
    have left := dropWhile_digits digits (es ++ r)
    rw [List.append_assoc]
    by_cases point : ∃ t, (es ++ r).dropWhile Char.isDigit = '.' :: t
    -- a point goes on from digits only, so `text` has no exponent here either
    · obtain ⟨t, rest⟩ := point
      rw [DecimalLiteral.longest_point (left.trans rest), taken, exponent.nil_of_point rest, DecimalLiteral.text,
        List.append_nil, List.append_assoc, List.append_assoc]
      exact List.prefix_append ds _
    -- digits after `text` are taken first, but then `text` has no exponent that they could cut off
    · rw [DecimalLiteral.longest_whole fun t eq => point ⟨t, left.symm.trans eq⟩, taken, left, DecimalLiteral.text,
        List.append_nil, List.append_assoc]
      exact (List.prefix_append_right_inj ds).mpr (exponent.prefix_rest r)
  | @point ds fs es k some digits places exponent =>
    have shape : ds ++ '.' :: (fs ++ es) ++ r = ds ++ '.' :: (fs ++ (es ++ r)) := by simp
    have point : ¬('.' : Char).isDigit = true := by decide
    have taken := takeWhile_digits digits ('.' :: (fs ++ (es ++ r)))
    have left := dropWhile_digits digits ('.' :: (fs ++ (es ++ r)))
    rw [List.takeWhile_cons_of_neg point, List.append_nil] at taken
    rw [List.dropWhile_cons_of_neg point] at left
    rw [shape, DecimalLiteral.longest_point left, taken, takeWhile_digits places, dropWhile_digits places,
      DecimalLiteral.text, List.append_assoc, List.cons_append, List.append_assoc]
    refine (List.prefix_append_right_inj ds).mpr ((List.prefix_append_right_inj ['.']).mpr ?_)
    exact (List.prefix_append_right_inj fs).mpr (exponent.prefix_rest r)

theorem IsDecimal.rational_eq (h : IsDecimal text q) : (DecimalLiteral.longest text).rational = q := by
  cases h with
  | @whole ds es k some digits exponent =>
    obtain ⟨none, all, whole⟩ := exponent.alone
    have left : (ds ++ es).dropWhile Char.isDigit = es := (dropWhile_digits digits es).trans all
    have pointless : ∀ t, (ds ++ es).dropWhile Char.isDigit ≠ '.' :: t := by
      rw [left]
      rintro t rfl
      exact exponent.head.2 rfl
    rw [DecimalLiteral.longest_whole pointless, left, whole, takeWhile_digits digits, none, List.append_nil,
      DecimalLiteral.rational_whole exponent]
  | @point ds fs es k some digits places exponent =>
    obtain ⟨none, all, whole⟩ := exponent.alone
    have point : ¬('.' : Char).isDigit = true := by decide
    have left := dropWhile_digits digits ('.' :: (fs ++ es))
    rw [List.dropWhile_cons_of_neg point] at left
    rw [DecimalLiteral.longest_point left, takeWhile_digits digits, List.takeWhile_cons_of_neg point, List.append_nil,
      takeWhile_digits places, none, List.append_nil, dropWhile_digits places, all, whole,
      DecimalLiteral.rational_point exponent]

theorem IsDecimal.ne_nil (h : IsDecimal text q) : text ≠ [] := by
  cases h with
  | whole some digits exponent => simp [some]
  | point some digits places exponent => simp

theorem IsDecimal.begins (h : IsDecimal text q) (r : List Char) : DecimalLiteral.Begins (text ++ r) := by
  cases h with
  | @whole ds es k some digits exponent =>
    left
    rw [List.append_assoc]
    exact startsWithDigit_of_all some digits _
  | @point ds fs es k some digits places exponent =>
    by_cases none : ds = []
    · right
      rw [none]
      refine ⟨fs ++ es ++ r, rfl, ?_⟩
      rw [List.append_assoc]
      exact startsWithDigit_of_all (some.resolve_left (not_not.mpr none)) places _
    · left
      rw [List.append_assoc]
      exact startsWithDigit_of_all none digits _

theorem IsDecimal.nonneg (h : IsDecimal text q) : 0 ≤ q := by
  cases h <;> positivity

theorem IsDecimal.plain (h : IsDecimal text q) {x : Char} (letter : x = 'x' ∨ x = 'X') : x ∉ text := by
  have digitless {ds : List Char} (digits : AllDigits ds) : x ∉ ds := by
    intro mem
    rcases letter with rfl | rfl <;> cases digits _ mem
  have other {es : List Char} {k : ℤ} (exponent : IsExponent es k) : x ∉ es := by
    have apart : x ≠ 'e' ∧ x ≠ 'E' ∧ x ≠ '+' ∧ x ≠ '-' := by rcases letter with rfl | rfl <;> decide
    cases exponent with
    | none => exact List.not_mem_nil
    | plain letter some digits => rcases letter with rfl | rfl <;> simp [apart, digitless digits]
    | plus letter some digits => rcases letter with rfl | rfl <;> simp [apart, digitless digits]
    | minus letter some digits => rcases letter with rfl | rfl <;> simp [apart, digitless digits]
  have pointless : x ≠ '.' := by rcases letter with rfl | rfl <;> decide
  cases h with
  | whole some digits exponent => simp [digitless digits, other exponent]
  | point some digits places exponent => simp [digitless digits, digitless places, other exponent, pointless]

end Decimals

namespace Formula

def symbols : List (Char × Lexeme) :=
  [('+', .plus), ('-', .minus), ('*', .star), ('/', .slash), ('(', .openParen), (')', .closeParen), (',', .comma)]

/-- What can be one token. To what begins with `0x` belong all letters and digits that follow. -/
inductive IsLexeme : List Char → Prop
  | symbol {c : Char} {lexeme : Lexeme} (listed : (c, lexeme) ∈ symbols) : IsLexeme [c]
  | name {c : Char} {cs : List Char} (start : isIdentStart c = true) (chars : ∀ d ∈ cs, isIdentChar d = true) :
      IsLexeme (c :: cs)
  | decimal {text : List Char} {q : ℚ} (number : IsDecimal text q) : IsLexeme text
  | hexadecimal {x : Char} {ds : List Char} (letter : x = 'x' ∨ x = 'X') (chars : ∀ d ∈ ds, d.isAlphanum = true) :
      IsLexeme ('0' :: x :: ds)

/-- Of all that begins where `text` begins, `text` is the longest lexeme. -/
structure Longest (text rest : List Char) : Prop where
  lexeme : IsLexeme text
  most : ∀ other, IsLexeme other → other <+: text ++ rest → other.length ≤ text.length

def IsHexadecimal (digits : List Char) (n : ℕ) : Prop :=
  ∃ values, values ≠ [] ∧ digits.map hexDigit? = values.map some ∧ n = numeral 16 values

/-- What a lexeme stands for. Only a number can stand for nothing, when it is misspelled or too large. -/
inductive Means : List Char → Except Fault.Cause Lexeme → Prop
  | symbol {c : Char} {lexeme : Lexeme} (listed : (c, lexeme) ∈ symbols) : Means [c] (.ok lexeme)
  | name {c : Char} {cs : List Char} (start : isIdentStart c = true) (chars : ∀ d ∈ cs, isIdentChar d = true) :
      Means (c :: cs) (.ok (.ident (String.ofList (c :: cs))))
  | decimal {text : List Char} {q : ℚ} {b : Binary64} (number : IsDecimal text q) (small : q < Binary64.finiteLimit)
      (nearest : b.IsNearest q) : Means text (.ok (.number b))
  | infinite {text : List Char} {q : ℚ} (number : IsDecimal text q) (large : Binary64.finiteLimit ≤ q) :
      Means text (.error (.invalidNumber (String.ofList text)))
  | hexadecimal {x : Char} {ds : List Char} {n : ℕ} {b : Binary64} (letter : x = 'x' ∨ x = 'X')
      (chars : ∀ d ∈ ds, d.isAlphanum = true) (number : IsHexadecimal ds n) (small : n < 2 ^ 64)
      (nearest : b.IsNearest n) :
      Means ('0' :: x :: ds) (.ok (.number b))
  | misspelled {x : Char} {ds : List Char} (letter : x = 'x' ∨ x = 'X') (chars : ∀ d ∈ ds, d.isAlphanum = true)
      (none : ∀ n < 2 ^ 64, ¬IsHexadecimal ds n) :
      Means ('0' :: x :: ds) (.error (.invalidNumber ("0x" ++ String.ofList ds)))

theorem word_lt_finiteLimit {n : ℕ} (small : n < 2 ^ 64) : (n : ℚ) < Binary64.finiteLimit := by
  have word : (n : ℚ) < 2 ^ (64 : ℤ) := by exact_mod_cast small
  have shift : (2 : ℚ) ^ (64 : ℤ) ≤ 2 ^ (971 : ℤ) := zpow_le_zpow_right₀ (by norm_num) (by norm_num)
  have full : 1 * (2 : ℚ) ^ (971 : ℤ) ≤ (2 ^ 53 - 1 / 2) * 2 ^ (971 : ℤ) :=
    mul_le_mul_of_nonneg_right (by norm_num) (zpow_nonneg (by norm_num) _)
  calc (n : ℚ) < 2 ^ (64 : ℤ) := word
    _ ≤ 1 * 2 ^ (971 : ℤ) := by rw [one_mul]; exact shift
    _ ≤ Binary64.finiteLimit := full

theorem IsLexeme.exists_means {text : List Char} (h : IsLexeme text) : ∃ result, Means text result := by
  cases h with
  | symbol listed => exact ⟨_, .symbol listed⟩
  | name start chars => exact ⟨_, .name start chars⟩
  | @decimal text q number =>
    rcases lt_or_ge q Binary64.finiteLimit with small | large
    · exact ⟨_, .decimal number small (Binary64.isNearest_ofRational number.nonneg small)⟩
    · exact ⟨_, .infinite number large⟩
  | @hexadecimal x ds letter chars =>
    by_cases number : ∃ n < 2 ^ 64, IsHexadecimal ds n
    · obtain ⟨n, small, number⟩ := number
      have finite := word_lt_finiteLimit small
      exact ⟨_, .hexadecimal letter chars number small (Binary64.isNearest_ofRational (Nat.cast_nonneg n) finite)⟩
    · exact ⟨_, .misspelled letter chars fun n small h => number ⟨n, small, h⟩⟩

section Characters
variable {c : Char}

theorem isDigit_code : c.isDigit = true ↔ 48 ≤ c.toNat ∧ c.toNat ≤ 57 := by
  simp only [Char.isDigit, ge_iff_le, Bool.and_eq_true, decide_eq_true_eq, UInt32.le_iff_toNat_le]
  exact Iff.rfl

theorem isAlpha_code : c.isAlpha = true ↔ (65 ≤ c.toNat ∧ c.toNat ≤ 90) ∨ (97 ≤ c.toNat ∧ c.toNat ≤ 122) := by
  simp only [Char.isAlpha, Char.isUpper, Char.isLower, ge_iff_le, Bool.or_eq_true, Bool.and_eq_true, decide_eq_true_eq,
    UInt32.le_iff_toNat_le]
  exact Iff.rfl

theorem isIdentStart_code (start : isIdentStart c = true) : 65 ≤ c.toNat ∧ c.toNat ≤ 122 := by
  rcases Bool.or_eq_true_iff.mp start with letter | line
  · rcases isAlpha_code.mp letter with code | code <;> omega
  · rw [beq_iff_eq.mp line]
    decide

theorem isBlank_of_code (low : 33 ≤ c.toNat) (high : c.toNat ≤ 126) : isBlank c = false := by
  simp only [isBlank, Bool.or_eq_false_iff, Bool.and_eq_false_iff, decide_eq_false_iff_not, beq_eq_false_iff_ne]
  omega

theorem isIdentStart_apart (start : isIdentStart c = true) : c.isDigit = false ∧ c ≠ '.' := by
  have code := isIdentStart_code start
  constructor
  · refine Bool.eq_false_iff.mpr fun digit => ?_
    have low := isDigit_code.mp digit
    omega
  · rintro rfl
    exact absurd code (by decide)

theorem symbols_apart : ∀ e ∈ symbols, symbol? e.1 = some e.2 ∧ e.1.isDigit = false ∧ e.1 ≠ '.' ∧
    isIdentStart e.1 = false ∧ isBlank e.1 = false := by
  decide

theorem mem_symbols {lexeme : Lexeme} (h : symbol? c = some lexeme) : (c, lexeme) ∈ symbols := by
  unfold symbol? at h
  split at h <;> cases h <;> decide

theorem symbol_none (h : c.isDigit = true ∨ c = '.' ∨ isIdentStart c = true) : symbol? c = none := by
  cases found : symbol? c with
  | none => rfl
  | some lexeme =>
    obtain ⟨-, digit, point, start, -⟩ := symbols_apart _ (mem_symbols found)
    rcases h with h | h | h
    · exact absurd h (Bool.eq_false_iff.mp digit)
    · exact absurd h point
    · exact absurd h (Bool.eq_false_iff.mp start)

end Characters

theorem IsLexeme.ne_nil {text : List Char} (h : IsLexeme text) : text ≠ [] := by
  cases h with
  | symbol listed => exact List.cons_ne_nil _ _
  | name start chars => exact List.cons_ne_nil _ _
  | decimal number => exact number.ne_nil
  | hexadecimal letter chars => exact List.cons_ne_nil _ _

theorem IsLexeme.visible {c : Char} {cs : List Char} (h : IsLexeme (c :: cs)) : isBlank c = false := by
  cases h with
  | symbol listed => exact (symbols_apart _ listed).2.2.2.2
  | name start chars =>
    have code := isIdentStart_code start
    exact isBlank_of_code (by omega) (by omega)
  | decimal number =>
    rcases number.begins [] with digit | ⟨t, point, -⟩
    · have code := isDigit_code.mp digit
      exact isBlank_of_code (by omega) (by omega)
    · rw [(List.cons.inj point).1]
      decide
  | hexadecimal letter chars => decide

theorem exists_longest {other s : List Char} (lexeme : IsLexeme other) (front : other <+: s) :
    ∃ text rest, s = text ++ rest ∧ Longest text rest := by
  have finite : {t | IsLexeme t ∧ t <+: s}.Finite :=
    s.inits.finite_toSet.subset fun t h => (List.mem_inits t s).mpr h.2
  obtain ⟨text, ⟨h, rest, rfl⟩, most⟩ := Set.exists_max_image _ List.length finite ⟨other, lexeme, front⟩
  exact ⟨text, rest, rfl, h, fun t ht front => most t ⟨ht, front⟩⟩

section Longest
variable {text rest : List Char}

theorem Longest.eq_of_prefix (h : Longest text rest) {other : List Char} (lexeme : IsLexeme other)
    (front : other <+: text ++ rest) (more : text <+: other) : text = other :=
  more.eq_of_length_le (h.most other lexeme front)

theorem Longest.takeWhile_eq (front : List Char) {chars : List Char} {p : Char → Bool} (h : Longest (front ++ chars) rest)
    (all : ∀ d ∈ chars, p d = true) (lexeme : ∀ ds : List Char, (∀ d ∈ ds, p d = true) → IsLexeme (front ++ ds)) :
    (chars ++ rest).takeWhile p = chars := by
  have run := lexeme ((chars ++ rest).takeWhile p) fun d mem => List.mem_takeWhile_imp mem
  have shape : (chars ++ rest).takeWhile p = chars ++ rest.takeWhile p := List.takeWhile_append_of_pos all
  have whole : front ++ chars = front ++ (chars ++ rest).takeWhile p := by
    refine h.eq_of_prefix run ?_ ?_
    · rw [List.append_assoc]
      exact (List.prefix_append_right_inj front).mpr (List.takeWhile_prefix p)
    · rw [shape]
      exact (List.prefix_append_right_inj front).mpr (List.prefix_append chars _)
  exact (List.append_cancel_left whole).symm

end Longest

end Formula
end FormulaSynth
