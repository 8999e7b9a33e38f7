import FormulaSynth.Document.Json.Value

set_option autoImplicit false
namespace FormulaSynth.Document.Json
open Text

def isBlank (c : Char) : Bool := c == ' ' || c == '\n' || c == '\t' || c == '\r'

def skipBlanks (s : List Char) : List Char := s.dropWhile isBlank

def shortEscape? : Char → Option Nat
  | '"' => some 0x22
  | '\\' => some 0x5c
  | '/' => some 0x2f
  | 'b' => some 0x08
  | 'f' => some 0x0c
  | 'n' => some 0x0a
  | 'r' => some 0x0d
  | 't' => some 0x09
  | _ => none

/-- The code points up to the closing quote, surrogates written as escapes among them. -/
def codes : List Char → Option (List Nat × List Char)
  | '"' :: r => some ([], r)
  | '\\' :: 'u' :: a :: b :: c :: d :: r => do
    let digits ← [a, b, c, d].mapM hexDigit?
    let (more, rest) ← codes r
    return (digitsValue 16 digits :: more, rest)
  | '\\' :: e :: r => do
    let n ← shortEscape? e
    let (more, rest) ← codes r
    return (n :: more, rest)
  | c :: r =>
    if c < ' ' || c == '\\' then none
    else do
      let (more, rest) ← codes r
      return (c.toNat :: more, rest)
  | [] => none

def isLeading (n : Nat) : Bool := 0xd800 ≤ n && n < 0xdc00
def isTrailing (n : Nat) : Bool := 0xdc00 ≤ n && n < 0xe000

def joined : List Nat → Option (List Char)
  | [] => some []
  | n :: r =>
    if isTrailing n then none
    else if isLeading n then
      match r with
      | m :: r =>
        if isTrailing m then
          (joined r).map (Char.ofNat (0x10000 + (n - 0xd800) * 0x400 + (m - 0xdc00)) :: ·)
        else none
      | [] => none
    else (joined r).map (Char.ofNat n :: ·)

def readText (s : List Char) : Option (Option String × List Char) :=
  (codes s).map fun (found, rest) => ((joined found).map String.ofList, rest)

def isNumber (literal : DecimalLiteral) : Bool :=
  !literal.whole.isEmpty && (literal.whole.length == 1 || literal.whole.head? != some '0') &&
    literal.fraction != some []

def readNumber (negative : Bool) (s : List Char) : Option (Value × List Char) :=
  let literal := DecimalLiteral.longest s
  if isNumber literal then some (.number negative literal, s.drop literal.text.length) else none

mutual

def readValue (fuel : Nat) (s : List Char) : Option (Value × List Char) :=
  match fuel with
  | 0 => none
  | fuel + 1 =>
    match skipBlanks s with
    | 'n' :: 'u' :: 'l' :: 'l' :: r => some (.null, r)
    | 't' :: 'r' :: 'u' :: 'e' :: r => some (.truth true, r)
    | 'f' :: 'a' :: 'l' :: 's' :: 'e' :: r => some (.truth false, r)
    | '-' :: r => readNumber true r
    | '"' :: r => (readText r).map fun (content, rest) => (.text content, rest)
    | '[' :: r => (readItems fuel true r).map fun (items, rest) => (.array items, rest)
    | '{' :: r => (readEntries fuel true r).map fun (entries, rest) => (.object entries, rest)
    | r => readNumber false r

def readItems (fuel : Nat) (first : Bool) (s : List Char) : Option (List Value × List Char) :=
  match fuel with
  | 0 => none
  | fuel + 1 =>
    match skipBlanks s, first with
    | ']' :: r, _ => some ([], r)
    | ',' :: r, false => readItem fuel r
    | _, false => none
    | r, true => readItem fuel r

def readItem (fuel : Nat) (s : List Char) : Option (List Value × List Char) :=
  match fuel with
  | 0 => none
  | fuel + 1 => do
    let (item, r) ← readValue fuel s
    let (items, rest) ← readItems fuel false r
    return (item :: items, rest)

def readEntries (fuel : Nat) (first : Bool) (s : List Char) : Option (List (Option String × Value) × List Char) :=
  match fuel with
  | 0 => none
  | fuel + 1 =>
    match skipBlanks s, first with
    | '}' :: r, _ => some ([], r)
    | ',' :: r, false => readEntry fuel r
    | _, false => none
    | r, true => readEntry fuel r

def readEntry (fuel : Nat) (s : List Char) : Option (List (Option String × Value) × List Char) :=
  match fuel with
  | 0 => none
  | fuel + 1 => do
    let '"' :: r := skipBlanks s | none
    let (name, r) ← readText r
    let ':' :: r := skipBlanks r | none
    let (value, r) ← readValue fuel r
    let (entries, rest) ← readEntries fuel false r
    return ((name, value) :: entries, rest)

end

/-- A pair of brackets takes three steps and an item two. -/
def valueFuel (s : List Char) : Nat := 2 * s.length + 2

def Value.parse? (text : String) : Option Value := do
  let (value, rest) ← readValue (valueFuel text.toList) text.toList
  if (skipBlanks rest).isEmpty then return value else none

end FormulaSynth.Document.Json
