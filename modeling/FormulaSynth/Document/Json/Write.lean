import FormulaSynth.Number.Written

set_option autoImplicit false
namespace FormulaSynth.Document.Json

def unicodeEscape (n : Nat) : List Char :=
  let digits := Nat.toDigits 16 n
  '\\' :: 'u' :: List.replicate (4 - digits.length) '0' ++ digits

def escaped (c : Char) : List Char :=
  match c with
  | '"' => ['\\', '"']
  | '\\' => ['\\', '\\']
  | '\x08' => ['\\', 'b']
  | '\x0c' => ['\\', 'f']
  | '\n' => ['\\', 'n']
  | '\r' => ['\\', 'r']
  | '\t' => ['\\', 't']
  | c => if c < ' ' then unicodeEscape c.toNat else [c]

def quoted (s : String) : String := String.ofList ('"' :: s.toList.flatMap escaped ++ ['"'])

def number (b : Binary64) : String := if b.isFinite then b.written .json else "null"

def truth (b : Bool) : String := if b then "true" else "false"

def indentation (columns : Nat) : String := String.ofList (List.replicate columns ' ')

def bracketed (opening closing : String) (indent : Nat) (items : List String) : String :=
  if items.isEmpty then opening ++ closing
  else
    let lines := items.map fun item => indentation (indent + 2) ++ item
    opening ++ "\n" ++ ",\n".intercalate lines ++ "\n" ++ indentation indent ++ closing

def array (indent : Nat) (items : List String) : String := bracketed "[" "]" indent items

def object (indent : Nat) (entries : List (String × String)) : String :=
  bracketed "\x7b" "\x7d" indent (entries.map fun (name, value) => quoted name ++ ": " ++ value)

end FormulaSynth.Document.Json
