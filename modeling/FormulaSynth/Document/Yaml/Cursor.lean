set_option autoImplicit false
namespace FormulaSynth.Document.Yaml

inductive ScalarStyle
  | plain
  | singleQuoted
  | doubleQuoted
  | literal
  | folded
deriving DecidableEq, Repr

inductive Token
  | version (major minor : Nat)
  | tagHandle (handle leading : String)
  | documentStart
  | documentEnd
  | blockSequenceStart
  | blockMappingStart
  | blockEnd
  | flowSequenceStart
  | flowSequenceEnd
  | flowMappingStart
  | flowMappingEnd
  | blockEntry
  | flowEntry
  | key
  | value
  | alias (name : String)
  | anchor (name : String)
  | tag (handle suffix : String)
  | scalar (style : ScalarStyle) (text : String)
deriving DecidableEq, Repr

def isBlank (c : Char) : Bool := c == ' ' || c == '\t'

def isBreak (c : Char) : Bool :=
  c == '\n' || c == '\r' || c == '\u0085' || c == '\u2028' || c == '\u2029'

def isGap (c : Char) : Bool := isBlank c || isBreak c

def isWordChar (c : Char) : Bool := c.isAlphanum || c == '_' || c == '-'

def isAdmitted (c : Char) : Bool :=
  let n := c.toNat
  n == 0x09 || n == 0x0a || n == 0x0d || (0x20 ≤ n && n ≤ 0x7e) || n == 0x85 ||
    (0xa0 ≤ n && n ≤ 0xfffd) || 0x10000 ≤ n

/-- `line` and `column` count from zero. -/
structure Cursor where
  rest : List Char
  index : Nat
  line : Nat
  column : Nat

namespace Cursor

def start (text : List Char) : Cursor := ⟨text, 0, 0, 0⟩

def peek? (c : Cursor) : Option Char := c.rest.head?

def gapAt (c : Cursor) (n : Nat) : Bool := (c.rest[n]?).all isGap

def atGap (c : Cursor) : Bool := c.gapAt 0

def atEnd (c : Cursor) : Bool := c.rest.isEmpty

def skip (c : Cursor) (n : Nat) : Cursor :=
  let passed := c.rest.take n
  { c with
    rest := c.rest.drop n
    index := passed.foldl (fun n x => n + x.utf8Size) c.index
    column := c.column + passed.length }

def span (c : Cursor) (p : Char → Bool) : List Char × Cursor :=
  let found := c.rest.takeWhile fun x => p x && !isBreak x
  (found, c.skip found.length)

def skipWhile (c : Cursor) (p : Char → Bool) : Cursor := (c.span p).2

def skipBlanks (c : Cursor) : Cursor := c.skipWhile isBlank

def skipLine (c : Cursor) : Cursor := c.skipWhile fun _ => true

def skipMark (c : Cursor) : Cursor := if c.column == 0 && c.peek? == some '\ufeff' then c.skip 1 else c

/-- Over one line break. The common ones are kept as a line feed, the separators as they are. -/
def lineBreak? (c : Cursor) : Option (Char × Cursor) :=
  match c.rest with
  | '\r' :: '\n' :: r => some ('\n', ⟨r, c.index + 2, c.line + 1, 0⟩)
  | x :: r =>
    let next : Cursor := ⟨r, c.index + x.utf8Size, c.line + 1, 0⟩
    if x == '\n' || x == '\r' || x == '\u0085' then some ('\n', next)
    else if isBreak x then some (x, next)
    else none
  | [] => none

def skipBreak (c : Cursor) : Cursor := (c.lineBreak?).elim c Prod.snd

def atMarker (c : Cursor) (mark : Char) : Bool :=
  c.column == 0 && c.rest.take 3 == [mark, mark, mark] && c.gapAt 3

def atAnyMarker (c : Cursor) : Bool := c.atMarker '-' || c.atMarker '.'

end Cursor
end FormulaSynth.Document.Yaml
