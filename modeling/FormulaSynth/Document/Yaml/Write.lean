import FormulaSynth.Document.Yaml.Cursor
import FormulaSynth.Document.Yaml.Plain

set_option autoImplicit false
namespace FormulaSynth.Document.Yaml

def isPrintable (c : Char) : Bool :=
  let n := c.toNat
  n == 0x0a || (0x20 ≤ n && n ≤ 0x7e) || (0xa0 ≤ n && n != 0xfeff && n != 0xfffe && n != 0xffff)

def opensIndicator (c : Char) : Bool := "#,[]\x7b\x7d&*!|>\x27\"%@\x60".contains c

def startsWithIndicator (text : List Char) : Bool :=
  match text with
  | c :: r => opensIndicator c || ((c == '?' || c == ':' || c == '-') && r.head?.all isGap)
  | [] => false

def startsWithMarker (text : List Char) : Bool :=
  text.take 3 == ['-', '-', '-'] || text.take 3 == ['.', '.', '.']

def hasInnerIndicator : List Char → Bool
  | a :: b :: r =>
    (a == ':' && isGap b) || (isGap a && b == '#') || (b == ':' && r.isEmpty) || hasInnerIndicator (b :: r)
  | _ => false

def hasPair (p q : Char → Bool) (text : List Char) : Bool := (text.zip text.tail).any fun (a, b) => p a && q b

def isSpace (c : Char) : Bool := c == ' '

def hasEdge (p : Char → Bool) (text : List Char) : Bool := text.head?.any p || text.getLast?.any p

def needsEscapes (text : List Char) : Bool := !text.all isPrintable || hasPair isSpace isBreak text

def plainAllowed (text : List Char) : Bool :=
  !(needsEscapes text || hasEdge (fun c => isSpace c || isBreak c) text || text.any isBreak ||
    startsWithMarker text || startsWithIndicator text || hasInnerIndicator text)

def singleAllowed (text : List Char) : Bool := !(needsEscapes text || hasPair isBreak isSpace text)

def literalAllowed (text : List Char) : Bool := !(needsEscapes text || text.getLast?.any isSpace)

def styleFor (s : String) : ScalarStyle :=
  let text := s.toList
  if text.contains '\n' then if literalAllowed text then .literal else .doubleQuoted
  else if !isAmbiguous s && plainAllowed text then .plain
  else if singleAllowed text then .singleQuoted
  else .doubleQuoted

def hexEscape (mark : Char) (width n : Nat) : List Char :=
  let digits := (Nat.toDigits 16 n).map Char.toUpper
  '\\' :: mark :: List.replicate (width - digits.length) '0' ++ digits

def doubleEscaped (c : Char) : List Char :=
  match c with
  | '\x00' => ['\\', '0']
  | '\x07' => ['\\', 'a']
  | '\x08' => ['\\', 'b']
  | '\t' => ['\\', 't']
  | '\n' => ['\\', 'n']
  | '\x0b' => ['\\', 'v']
  | '\x0c' => ['\\', 'f']
  | '\r' => ['\\', 'r']
  | '\x1b' => ['\\', 'e']
  | '"' => ['\\', '"']
  | '\\' => ['\\', '\\']
  | '\u0085' => ['\\', 'N']
  | '\u2028' => ['\\', 'L']
  | '\u2029' => ['\\', 'P']
  | c =>
    if isPrintable c then [c]
    else if c.toNat ≤ 0xff then hexEscape 'x' 2 c.toNat
    else if c.toNat ≤ 0xffff then hexEscape 'u' 4 c.toNat
    else hexEscape 'U' 8 c.toNat

def doubleQuoted (text : List Char) : List Char := '"' :: text.flatMap doubleEscaped ++ ['"']

def singleBody (indent : Nat) (broken : Bool) : List Char → List Char
  | [] => if broken then List.replicate indent ' ' else []
  | c :: r =>
    if isBreak c then c :: singleBody indent true r
    else
      let margin := if broken then List.replicate indent ' ' else []
      margin ++ (if c == '\x27' then [c, c] else [c]) ++ singleBody indent false r

def singleQuoted (indent : Nat) (text : List Char) : List Char := '\x27' :: singleBody indent false text ++ ['\x27']

def blockStep : Nat := 2

def literalHint (text : List Char) : List Char :=
  if text.head?.any fun c => isSpace c || isBreak c then Nat.toDigits 10 blockStep else []

/-- Nothing more where the text ends with one break, after at least one other character. -/
def literalChomping (text : List Char) : List Char :=
  match text.reverse with
  | last :: before => if !isBreak last then ['-'] else if before.head?.all isBreak then ['+'] else []
  | [] => ['-']

def literalBody (indent : Nat) (broken : Bool) : List Char → List Char
  | [] => []
  | c :: r =>
    if isBreak c then c :: literalBody indent true r
    else (if broken then List.replicate indent ' ' else []) ++ c :: literalBody indent false r

/-- A literal block. The line after it begins with a break of its own unless the text ends with one. -/
def literal (indent : Nat) (text : List Char) : List Char :=
  '|' :: literalHint text ++ literalChomping text ++ '\n' :: literalBody indent true text

def endsLine (style : ScalarStyle) (text : List Char) : Bool := style == .literal && text.getLast?.any isBreak

def scalarLine (indent : Nat) (s : String) : String :=
  let text := s.toList
  let style := styleFor s
  let body := match style with
    | .plain => text
    | .singleQuoted => singleQuoted indent text
    | .literal => literal indent text
    | _ => doubleQuoted text
  String.ofList (if endsLine style text then body else body ++ ['\n'])

end FormulaSynth.Document.Yaml
