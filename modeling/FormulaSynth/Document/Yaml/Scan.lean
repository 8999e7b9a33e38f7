import FormulaSynth.Document.Yaml.Scalar

/-!
# Tokens of a YAML text

Indentation becomes tokens of its own. A key of a mapping shows itself only by the colon behind it, so the place
where one may have begun is remembered, and its tokens are put in there once the colon comes.
-/

set_option autoImplicit false
namespace FormulaSynth.Document.Yaml
open Text

/-- A place where a key may have begun. Behind a required one a colon must come. -/
structure KeyPlace where
  required : Bool
  token : Nat
  line : Nat
  index : Nat
  column : Nat

def longestKey : Nat := 1024

def KeyPlace.reaches (k : KeyPlace) (c : Cursor) : Bool :=
  k.line == c.line && c.index ≤ k.index + longestKey

structure Scanner where
  cursor : Cursor
  indents : List Nat
  keyAllowed : Bool
  key : Option KeyPlace
  /-- The possible keys around the open flow collections, innermost first. -/
  outerKeys : List (Option KeyPlace)
  tokens : Array Token

namespace Scanner

def start (text : List Char) : Scanner := ⟨.start text, [], true, none, [], #[]⟩

def inFlow (s : Scanner) : Bool := !s.outerKeys.isEmpty

def indent (s : Scanner) : Int := s.indents.head?.elim (-1) Int.ofNat

def column (s : Scanner) : Nat := s.cursor.column

def emit (s : Scanner) (t : Token) : Scanner := { s with tokens := s.tokens.push t }

def insert (s : Scanner) (place : Nat) (t : Token) : Scanner :=
  { s with tokens := s.tokens.insertIdxIfInBounds place t }

def skip (s : Scanner) (n : Nat) : Scanner := { s with cursor := s.cursor.skip n }

def allowKey (s : Scanner) (allowed : Bool) : Scanner := { s with keyAllowed := allowed }

def unroll (s : Scanner) (column : Int) : Scanner :=
  if s.inFlow then s
  else
    let kept := s.indents.dropWhile (column < Int.ofNat ·)
    { s with
      indents := kept
      tokens := s.tokens ++ Array.replicate (s.indents.length - kept.length) .blockEnd }

def roll (s : Scanner) (column place : Nat) (opening : Token) : Scanner :=
  if s.inFlow || (column : Int) ≤ s.indent then s
  else { s with indents := column :: s.indents }.insert place opening

def dropKey (s : Scanner) : Option Scanner :=
  if s.key.any KeyPlace.required then none else some { s with key := none }

def saveKey (s : Scanner) : Option Scanner :=
  if !s.keyAllowed then some s
  else do
    let place : KeyPlace :=
      ⟨!s.inFlow && s.indent == s.column, s.tokens.size, s.cursor.line, s.cursor.index, s.column⟩
    return { ← s.dropKey with key := some place }

/-- Over spaces, comments, line breaks and marks of the byte order. A tab may stand only where no key can begin. -/
def skipGaps (fuel : Nat) (s : Scanner) : Scanner :=
  match fuel with
  | 0 => s
  | fuel + 1 =>
    let tabs := s.inFlow || !s.keyAllowed
    let c := s.cursor.skipMark.skipWhile fun x => x == ' ' || (tabs && x == '\t')
    let c := if c.peek? == some '#' then c.skipLine else c
    match c.lineBreak? with
    | some (_, next) => skipGaps fuel { s with cursor := next, keyAllowed := s.keyAllowed || !s.inFlow }
    | none => { s with cursor := c }

/-! ## Collections -/

def openFlow (s : Scanner) (t : Token) : Option Scanner := do
  let s ← s.saveKey
  return { s with outerKeys := s.key :: s.outerKeys, key := none, keyAllowed := true }.skip 1 |>.emit t

def closeFlow (s : Scanner) (t : Token) : Option Scanner := do
  let s ← s.dropKey
  let s := match s.outerKeys with
    | key :: outer => { s with key := key, outerKeys := outer }
    | [] => s
  return (s.allowKey false).skip 1 |>.emit t

def flowEntry (s : Scanner) : Option Scanner := do
  return ((← s.dropKey).allowKey true).skip 1 |>.emit .flowEntry

def rollHere (s : Scanner) (opening : Token) : Option Scanner :=
  if s.inFlow then some s
  else if s.keyAllowed then some (s.roll s.column s.tokens.size opening)
  else none

def blockEntry (s : Scanner) : Option Scanner := do
  let s ← (← s.rollHere .blockSequenceStart).dropKey
  return (s.allowKey true).skip 1 |>.emit .blockEntry

def explicitKey (s : Scanner) : Option Scanner := do
  let s ← (← s.rollHere .blockMappingStart).dropKey
  return (s.allowKey !s.inFlow).skip 1 |>.emit .key

def simpleValue (s : Scanner) (k : KeyPlace) : Scanner :=
  let s := { s with key := none }.insert k.token .key
  (s.roll k.column k.token .blockMappingStart).allowKey false

def bareValue (s : Scanner) : Option Scanner := do
  let s ← (← s.dropKey).rollHere .blockMappingStart
  return s.allowKey !s.inFlow

def value (s : Scanner) : Option Scanner := do
  let s ← match s.key with
    | some k => if k.reaches s.cursor then some (s.simpleValue k) else s.bareValue
    | none => s.bareValue
  return (s.skip 1).emit .value

/-! ## Scalars -/

def plain (s : Scanner) : Option Scanner := do
  let s ← s.saveKey
  let p ← readPlain s.inFlow (s.indent + 1).toNat s.cursor
  return { s with cursor := p.next, keyAllowed := p.lineEnded }.emit (.scalar .plain (String.ofList p.text))

def quoted (s : Scanner) (single : Bool) : Option Scanner := do
  let s ← s.saveKey
  let (text, next) ← readQuoted single (s.cursor.skip 1)
  let style := if single then ScalarStyle.singleQuoted else .doubleQuoted
  return { s with cursor := next, keyAllowed := false }.emit (.scalar style (String.ofList text))

def block (s : Scanner) (literal : Bool) : Option Scanner := do
  let s ← s.dropKey
  let (text, next) ← readBlock literal s.indent (s.cursor.skip 1)
  let style := if literal then ScalarStyle.literal else .folded
  return { s with cursor := next, keyAllowed := true }.emit (.scalar style (String.ofList text))

/-! ## Anchors and tags -/

def closesName (c : Char) : Bool := "?:,]\x7d%@\x60".contains c

def anchored (s : Scanner) (token : String → Token) : Option Scanner := do
  let s ← s.saveKey
  let (name, next) := (s.cursor.skip 1).span isWordChar
  if name.isEmpty || !(next.atGap || next.peek?.any closesName) then none
  else return { s with cursor := next, keyAllowed := false }.emit (token (String.ofList name))

def isUriChar (wide : Bool) (c : Char) : Bool :=
  isWordChar c || ";/?:@&=+$.!~*\x27()".contains c || (wide && ",[]".contains c)

def uriByte? : List Char → Option UInt8
  | '%' :: a :: b :: _ => (hexValue? [a, b]).map Nat.toUInt8
  | _ => none

def uriWidth? (b : UInt8) : Option Nat :=
  if b < 0x80 then some 1
  else if b &&& 0xe0 == 0xc0 then some 2
  else if b &&& 0xf0 == 0xe0 then some 3
  else if b &&& 0xf8 == 0xf0 then some 4
  else none

/-- The percent escapes of one character. Bytes that encode none stand for the replacement character. -/
def uriEscape? (c : Cursor) : Option (Char × Cursor) := do
  let first ← uriByte? c.rest
  let width ← uriWidth? first
  let more ← (List.range (width - 1)).mapM fun i => uriByte? (c.rest.drop (3 * (i + 1)))
  if more.any (· &&& 0xc0 != 0x80) then none
  else
    let decoded := (String.fromUTF8? ⟨(first :: more).toArray⟩).bind fun text => text.toList.head?
    return (decoded.getD '\ufffd', c.skip (3 * width))

def uriFrom (wide : Bool) (fuel : Nat) (text : List Char) (c : Cursor) : Option (List Char × Cursor) :=
  match fuel with
  | 0 => some (text, c)
  | fuel + 1 =>
    match c.peek? with
    | some '%' => do
      let (x, next) ← uriEscape? c
      uriFrom wide fuel (text ++ [x]) next
    | some x => if isUriChar wide x then uriFrom wide fuel (text ++ [x]) (c.skip 1) else some (text, c)
    | none => some (text, c)

/-- The rest of a tag that began with `head`. A tag is not empty, and it ends before the first null character. -/
def readUri (wide : Bool) (head : List Char) (c : Cursor) : Option (List Char × Cursor) := do
  let (text, next) ← uriFrom wide (c.rest.length + 1) [] c
  if head.isEmpty && text.isEmpty then none
  else return ((head.drop 1 ++ text).takeWhile (· != '\x00'), next)

def readHandle (c : Cursor) : Option (List Char × Cursor) :=
  if c.peek? != some '!' then none
  else
    let (name, next) := (c.skip 1).span isWordChar
    if next.peek? == some '!' then some ('!' :: name ++ ['!'], next.skip 1) else some ('!' :: name, next)

def isNamedHandle (handle : List Char) : Bool := 1 < handle.length && handle.getLast? == some '!'

def readTag (c : Cursor) : Option (List Char × List Char × Cursor) :=
  if c.rest.take 2 == ['!', '<'] then do
    let (suffix, next) ← readUri true [] (c.skip 2)
    if next.peek? == some '>' then return ([], suffix, next.skip 1) else none
  else do
    let (handle, next) ← readHandle c
    if isNamedHandle handle then
      let (suffix, next) ← readUri false [] next
      return (handle, suffix, next)
    else
      let (suffix, next) ← readUri false handle next
      if suffix.isEmpty then return ([], ['!'], next) else return (['!'], suffix, next)

def tag (s : Scanner) : Option Scanner := do
  let s ← s.saveKey
  let (handle, suffix, next) ← readTag s.cursor
  if !(next.atGap || (s.inFlow && next.peek? == some ',')) then none
  else
    return { s with cursor := next, keyAllowed := false }.emit
      (.tag (String.ofList handle) (String.ofList suffix))

/-! ## Documents -/

def marker (s : Scanner) (t : Token) : Option Scanner := do
  return ((← (s.unroll (-1)).dropKey).allowKey false).skip 3 |>.emit t

def longestVersionPart : Nat := 9

def readNumber (c : Cursor) : Option (Nat × Cursor) :=
  let (digits, next) := c.span Char.isDigit
  if digits.isEmpty || longestVersionPart < digits.length then none
  else some (digitsValue 10 (digits.map decimalDigit), next)

def readVersion (c : Cursor) : Option (Token × Cursor) := do
  let (major, c) ← readNumber c.skipBlanks
  if c.peek? != some '.' then none
  else
    let (minor, c) ← readNumber (c.skip 1)
    return (.version major minor, c)

def readTagHandle (c : Cursor) : Option (Token × Cursor) := do
  let (handle, c) ← readHandle c.skipBlanks
  if handle != ['!'] && !isNamedHandle handle || !c.peek?.any isBlank then none
  else
    let (leading, c) ← readUri true [] c.skipBlanks
    if c.atGap then return (.tagHandle (String.ofList handle) (String.ofList leading), c) else none

def directive (s : Scanner) : Option Scanner := do
  let s ← (s.unroll (-1)).dropKey
  let (name, c) := (s.cursor.skip 1).span isWordChar
  let (t, c) ←
    if !c.atGap then none
    else if name == "YAML".toList then readVersion c
    else if name == "TAG".toList then readTagHandle c
    else none
  let c := c.skipBlanks
  let c := if c.peek? == some '#' then c.skipLine else c
  if c.atEnd || c.peek?.any isBreak then
    return { s with cursor := c.skipBreak, keyAllowed := false }.emit t
  else none

def fetch (s : Scanner) (x : Char) : Option Scanner :=
  let c := s.cursor
  if c.column == 0 && x == '%' then s.directive
  else if c.atMarker '-' then s.marker .documentStart
  else if c.atMarker '.' then s.marker .documentEnd
  else match x with
  | '[' => s.openFlow .flowSequenceStart
  | '{' => s.openFlow .flowMappingStart
  | ']' => s.closeFlow .flowSequenceEnd
  | '}' => s.closeFlow .flowMappingEnd
  | ',' => s.flowEntry
  | '-' => if c.gapAt 1 then s.blockEntry else s.plain
  | '?' => if s.inFlow || c.gapAt 1 then s.explicitKey else s.plain
  | ':' => if s.inFlow || c.gapAt 1 then s.value else s.plain
  | '*' => s.anchored .alias
  | '&' => s.anchored .anchor
  | '!' => s.tag
  | '|' => if s.inFlow then none else s.block true
  | '>' => if s.inFlow then none else s.block false
  | '\x27' => s.quoted true
  | '"' => s.quoted false
  | '#' | '%' | '@' | '\x60' => none
  | _ => if c.atGap then none else s.plain

def finish (s : Scanner) : Option (Array Token) := do
  return (← (s.unroll (-1)).dropKey).tokens

/-- Every token is at least one character long, so `fuel` may be the length of the text. -/
def run (fuel : Nat) (s : Scanner) : Option (Array Token) :=
  let s := s.skipGaps (s.cursor.rest.length + 1)
  let s := s.unroll s.column
  match fuel, s.cursor.rest with
  | _, [] => s.finish
  | 0, _ => none
  | fuel + 1, x :: _ => do (← s.fetch x).run fuel

end Scanner

def tokenize (text : String) : Option (List Token) :=
  let text := text.toList
  if text.all isAdmitted then ((Scanner.start text).run text.length).map Array.toList else none

end FormulaSynth.Document.Yaml
