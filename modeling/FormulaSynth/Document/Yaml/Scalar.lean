import FormulaSynth.Document.Yaml.Cursor
import FormulaSynth.Text.Basic

set_option autoImplicit false
namespace FormulaSynth.Document.Yaml
open Text

/-- Blanks and line breaks between two pieces of a scalar: the blanks before the first break, the first
    break and the further ones. Blanks after a break count for nothing. -/
structure Gap where
  blanks : List Char
  first : Option Char
  more : List Char

namespace Gap

def none : Gap := ⟨[], .none, []⟩

def folded (g : Gap) : List Char :=
  match g.first with
  | .none => g.blanks
  | some '\n' => if g.more.isEmpty then [' '] else g.more
  | some b => b :: g.more

end Gap

def readGap (indent : Nat) (fuel : Nat) (c : Cursor) (g : Gap) : Option (Gap × Cursor) :=
  match fuel with
  | 0 => some (g, c)
  | fuel + 1 =>
    match c.lineBreak? with
    | some (b, next) =>
      if g.first.isNone then readGap indent fuel next { g with first := some b }
      else readGap indent fuel next { g with more := g.more ++ [b] }
    | none =>
      match c.peek? with
      | some x =>
        if !isBlank x then some (g, c)
        else if g.first.isSome then
          if c.column < indent && x == '\t' then none else readGap indent fuel (c.skip 1) g
        else readGap indent fuel (c.skip 1) { g with blanks := g.blanks ++ [x] }
      | none => some (g, c)

def isFlowIndicator (c : Char) : Bool := c == ',' || c == '[' || c == ']' || c == '{' || c == '}'

/-- How many characters of a run without gaps belong to a plain scalar. In a flow collection a colon before
    an indicator is refused. -/
def plainRun (flow : Bool) : List Char → Option Nat
  | [] => some 0
  | x :: r =>
    if isGap x then some 0
    else if x == ':' then
      match r with
      | [] => some 0
      | y :: _ =>
        if flow && (isFlowIndicator y || y == '?') then none
        else if isGap y then some 0
        else (plainRun flow r).map (· + 1)
    else if flow && isFlowIndicator x then some 0
    else (plainRun flow r).map (· + 1)

structure PlainScalar where
  text : List Char
  next : Cursor
  lineEnded : Bool

/-- `text` is what was read, `gap` what stands between it and `c`, and `next` the place behind both. Further
    lines must reach column `indent` outside flow collections. -/
def plainFrom (flow : Bool) (indent : Nat) (fuel : Nat) (text : List Char) (gap : Gap) (c : Cursor) :
    Option PlainScalar :=
  let done : PlainScalar := ⟨text, c, gap.first.isSome⟩
  match fuel with
  | 0 => some done
  | fuel + 1 =>
    if c.atAnyMarker || c.peek? == some '#' then some done
    else do
      let length ← plainRun flow c.rest
      let run := c.rest.take length
      let c := c.skip length
      let text := if run.isEmpty then text else text ++ gap.folded ++ run
      let lineEnded := run.isEmpty && gap.first.isSome
      if !(c.peek?).any isGap then return ⟨text, c, lineEnded⟩
      let before := if run.isEmpty then gap else Gap.none
      let (gap, c) ← readGap indent (c.rest.length + 1) c before
      if !flow && c.column < indent then return ⟨text, c, gap.first.isSome⟩
      plainFrom flow indent fuel text gap c

def readPlain (flow : Bool) (indent : Nat) (c : Cursor) : Option PlainScalar :=
  plainFrom flow indent (c.rest.length + 1) [] .none c

def hexValue? (digits : List Char) : Option Nat :=
  (digits.mapM hexDigit?).map (digitsValue 16)

def codeEscape? (count : Nat) (r : List Char) : Option (Char × Nat) := do
  let digits := r.take count
  if digits.length ≠ count then none
  let n ← hexValue? digits
  if n.isValidChar then some (Char.ofNat n, count + 1) else none

def escape? : List Char → Option (Char × Nat)
  | '0' :: _ => some ('\x00', 1)
  | 'a' :: _ => some ('\x07', 1)
  | 'b' :: _ => some ('\x08', 1)
  | 't' :: _ => some ('\t', 1)
  | '\t' :: _ => some ('\t', 1)
  | 'n' :: _ => some ('\n', 1)
  | 'v' :: _ => some ('\x0b', 1)
  | 'f' :: _ => some ('\x0c', 1)
  | 'r' :: _ => some ('\r', 1)
  | 'e' :: _ => some ('\x1b', 1)
  | ' ' :: _ => some (' ', 1)
  | '"' :: _ => some ('"', 1)
  | '/' :: _ => some ('/', 1)
  | '\\' :: _ => some ('\\', 1)
  | 'N' :: _ => some ('\u0085', 1)
  | '_' :: _ => some ('\u00a0', 1)
  | 'L' :: _ => some ('\u2028', 1)
  | 'P' :: _ => some ('\u2029', 1)
  | 'x' :: r => codeEscape? 2 r
  | 'u' :: r => codeEscape? 4 r
  | 'U' :: r => codeEscape? 8 r
  | _ => none

def quoteMark (single : Bool) : Char := if single then '\x27' else '"'

def quotedFrom (single : Bool) (fuel : Nat) (text : List Char) (c : Cursor) : Option (List Char × Cursor) :=
  match fuel with
  | 0 => none
  | fuel + 1 =>
    if c.atAnyMarker then none
    else
      match c.rest with
      | [] => none
      | x :: r =>
        if single && x == '\x27' && r.head? == some '\x27' then
          quotedFrom single fuel (text ++ ['\x27']) (c.skip 2)
        else if x == quoteMark single then some (text, c.skip 1)
        else if !single && x == '\\' then
          if r.head?.any isBreak then do
            let next := (c.skip 1).skipBreak
            let (gap, next) ← readGap 0 (next.rest.length + 1) next ⟨[], some '\r', []⟩
            quotedFrom single fuel (text ++ gap.more) next
          else do
            let (y, length) ← escape? r
            quotedFrom single fuel (text ++ [y]) (c.skip (1 + length))
        else if isGap x then do
          let (gap, next) ← readGap 0 (c.rest.length + 1) c .none
          quotedFrom single fuel (text ++ gap.folded) next
        else quotedFrom single fuel (text ++ [x]) (c.skip 1)

def readQuoted (single : Bool) (c : Cursor) : Option (List Char × Cursor) :=
  quotedFrom single (c.rest.length + 1) [] c

inductive Chomping
  | strip
  | clip
  | keep
deriving DecidableEq

def chomping? : Option Char → Option Chomping
  | some '-' => some .strip
  | some '+' => some .keep
  | _ => none

def hint? : Option Char → Option (Option Nat)
  | some x => if x.isDigit then (if x = '0' then none else some (some (decimalDigit x))) else some none
  | none => some none

def blockHeader (c : Cursor) : Option (Chomping × Option Nat × Cursor) := do
  match chomping? c.peek? with
  | some chomping =>
    let c := c.skip 1
    let hint ← hint? c.peek?
    return (chomping, hint, if hint.isSome then c.skip 1 else c)
  | none =>
    let hint ← hint? c.peek?
    let c := if hint.isSome then c.skip 1 else c
    match chomping? c.peek? with
    | some chomping => if hint.isSome then return (chomping, hint, c.skip 1) else none
    | none => return (.clip, hint, c)

def blankLines (indent : Option Nat) (fuel : Nat) (breaks : List Char) (widest : Nat) (c : Cursor) :
    Option (List Char × Nat × Cursor) :=
  match fuel with
  | 0 => some (breaks, widest, c)
  | fuel + 1 =>
    let spaces := (c.span (· == ' ')).1.length
    let wanted := match indent with
      | some n => min spaces (n - c.column)
      | none => spaces
    let c := c.skip wanted
    let widest := max widest c.column
    if indent.all (c.column < ·) && c.peek? == some '\t' then none
    else match c.lineBreak? with
      | some (b, next) => blankLines indent fuel (breaks ++ [b]) widest next
      | none => some (breaks, widest, c)

/-- A block scalar under way: its text, the break after its last line, the breaks of the empty lines
    after that, and whether its last line began with a blank. -/
structure BlockText where
  text : List Char
  last : List Char
  empty : List Char
  indented : Bool

def BlockText.join (b : BlockText) (literal : Bool) (line : List Char) (last : List Char) : BlockText :=
  let indented := (line.head?).any isBlank
  let gap :=
    if !literal && b.last == ['\n'] && !b.indented && !indented then
      if b.empty.isEmpty then [' '] else []
    else b.last
  ⟨b.text ++ gap ++ b.empty ++ line, last, [], indented⟩

def blockLines (literal : Bool) (indent : Nat) (fuel : Nat) (b : BlockText) (c : Cursor) :
    Option (BlockText × Cursor) :=
  match fuel with
  | 0 => some (b, c)
  | fuel + 1 =>
    if c.column ≠ indent || c.atEnd then some (b, c)
    else do
      let (line, c) := c.span fun _ => true
      let last := (c.lineBreak?).elim [] fun (x, _) => [x]
      let b := b.join literal line last
      let (empty, _, c) ← blankLines (some indent) (c.rest.length + 1) [] 0 c.skipBreak
      blockLines literal indent fuel { b with empty := empty } c

/-- `parent` is the indentation of the surrounding block, minus one outside of all. -/
def readBlock (literal : Bool) (parent : Int) (c : Cursor) : Option (List Char × Cursor) := do
  let (chomping, hint, c) ← blockHeader c
  let c := c.skipBlanks
  let c := if c.peek? == some '#' then c.skipLine else c
  if !c.atEnd && !(c.peek?).any isBreak then none
  let c := c.skipBreak
  let known := hint.map fun n => (max parent 0).toNat + n
  let (empty, widest, c) ← blankLines known (c.rest.length + 1) [] 0 c
  let indent := known.getD (max (max widest (parent + 1).toNat) 1)
  let (b, c) ← blockLines literal indent (c.rest.length + 1) ⟨[], [], empty, false⟩ c
  let tail := match chomping with
    | .strip => []
    | .clip => b.last
    | .keep => b.last ++ b.empty
  return (b.text ++ tail, c)

end FormulaSynth.Document.Yaml
