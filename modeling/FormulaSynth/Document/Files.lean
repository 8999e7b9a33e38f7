/-!
# Files

The files a program is given and those it leaves, by path. A path names the steps from the working directory, or from
the root of the file system.
-/

set_option autoImplicit false
namespace FormulaSynth.Document

inductive FileFault
  | notFound
  | notDirectory
  | isDirectory
  | nameTooLong
  | badName
  | notText
deriving DecidableEq, Repr

namespace FileFault

def text : FileFault → String
  | notFound => "No such file or directory"
  | notDirectory => "Not a directory"
  | isDirectory => "Is a directory"
  | nameTooLong => "File name too long"
  | badName => "file name contained an unexpected NUL byte"
  | notText => "stream did not contain valid UTF-8"

def label : FileFault → String
  | notFound => "NotFound"
  | notDirectory => "NotADirectory"
  | isDirectory => "IsADirectory"
  | nameTooLong => "InvalidFilename"
  | badName => "InvalidInput"
  | notText => "InvalidData"

def code? : FileFault → Option Nat
  | notFound => some 2
  | notDirectory => some 20
  | isDirectory => some 21
  | nameTooLong => some 36
  | badName => none
  | notText => none

def message (f : FileFault) : String :=
  match f.code? with
  | some code => s!"{f.text} (os error {code})"
  | none => f.text

def details (f : FileFault) : String :=
  match f.code? with
  | some code => s!"Os \x7b code: {code}, kind: {f.label}, message: \"{f.text}\" \x7d"
  | none => s!"Error \x7b kind: {f.label}, message: \"{f.text}\" \x7d"

end FileFault

namespace FileName

def steps (path : String) : List String := (path.splitOn "/").filter (· != "")

def names (path : String) : List String := (steps path).filter (· != ".")

def isAbsolute (path : String) : Bool := path.startsWith "/"

def start (path : String) : List String := if isAbsolute path then ["/"] else []

/-- Whether a place is the working directory or lies above it. -/
def isAbove (place : List String) : Bool := place.all (· == "..")

def next (place : List String) (step : String) : List String :=
  if step == "." then place
  else if step != ".." || isAbove place then place ++ [step]
  else if place == ["/"] then place
  else place.dropLast

def target (path : String) : List String := (steps path).foldl next (start path)

def isOpen (path : String) : Bool := path.endsWith "/"

def joined (base path : String) : String :=
  if base.isEmpty || base.endsWith "/" then base ++ path else base ++ "/" ++ path

def ways (path : String) : List String :=
  let root := if isAbsolute path then "/" else ""
  (List.range (steps path).length).drop 1 |>.map fun n => root ++ "/".intercalate ((steps path).take n)

/-- What follows the last point of the last name, unless the name begins with that point. -/
def extension? (path : String) : Option String := do
  let name ← (names path).getLast?
  let parts := name.splitOn "."
  if name == ".." || parts.length < 2 || (parts.length == 2 && parts.head? == some "") then none
  else parts.getLast?

def longestName : Nat := 255

def longestPath : Nat := 4095

def fault? (path : String) : Option FileFault :=
  if path.contains '\x00' then some .badName
  else if path.isEmpty then some .notFound
  else if longestPath < path.utf8ByteSize then some .nameTooLong
  else none

end FileName

inductive Entry
  | file (content : ByteArray)
  | directory (entries : List (String × Entry))

namespace Entry

def emptyDirectory : Entry := .directory []

def find? : Entry → List String → Option Entry
  | e, [] => some e
  | directory entries, name :: place => (entries.lookup name).bind (·.find? place)
  | file _, _ :: _ => none

def put (new : Entry) : Entry → List String → Entry
  | _, [] => new
  | directory entries, name :: place =>
    let inner := (entries.lookup name).getD emptyDirectory
    directory ((name, put new inner place) :: entries.filter (·.1 != name))
  | file _, name :: place => directory [(name, put new emptyDirectory place)]

end Entry

/-- The entries of the working directory. Those above it and the root of the file system have names in it, too. -/
structure Files where
  entries : Entry

namespace Files

def empty : Files := ⟨.emptyDirectory⟩

def entry? (files : Files) (place : List String) : Option Entry :=
  let above := if FileName.isAbove place || place == ["/"] then some Entry.emptyDirectory else none
  (files.entries.find? place).or above

def content? (files : Files) (place : List String) : Option ByteArray :=
  match files.entry? place with
  | some (.file content) => some content
  | _ => none

def put (files : Files) (place : List String) (content : ByteArray) : Files :=
  ⟨Entry.put (.file content) files.entries place⟩

def putDirectory (files : Files) (place : List String) : Files :=
  if (files.entry? place).isSome then files else ⟨Entry.put .emptyDirectory files.entries place⟩

def follow (files : Files) (place : List String) (step : String) : Except FileFault (List String) :=
  match files.entry? place with
  | some (.directory _) =>
    if FileName.longestName < step.utf8ByteSize then .error .nameTooLong else .ok (FileName.next place step)
  | some (.file _) => .error .notDirectory
  | none => .error .notFound

/-- Where a path leads. All but its last step must lead to directories. -/
def locate (files : Files) (path : String) : Except FileFault (List String) :=
  match FileName.fault? path with
  | some fault => .error fault
  | none => (FileName.steps path).foldlM files.follow (FileName.start path)

def bytes (files : Files) (path : String) : Except FileFault ByteArray := do
  match files.entry? (← files.locate path) with
  | some (.file content) => if FileName.isOpen path then throw .notDirectory else return content
  | some (.directory _) => throw .isDirectory
  | none => throw .notFound

def text (files : Files) (path : String) : Except FileFault String := do
  match String.fromUTF8? (← files.bytes path) with
  | some text => return text
  | none => throw .notText

def write (files : Files) (path : String) (content : ByteArray) : Except FileFault Files := do
  let place ← files.locate path
  match files.entry? place with
  | some (.directory _) => throw .isDirectory
  | _ => if FileName.isOpen path then throw .isDirectory else return files.put place content

def enter (reached : Files × List String) (step : String) : Except FileFault (Files × List String) := do
  let place ← reached.1.follow reached.2 step
  return (reached.1.putDirectory place, place)

def store (files : Files) (path : String) (content : ByteArray) : Except FileFault Files := do
  if let some fault := FileName.fault? path then throw fault
  let (files, _) ← (FileName.names path).dropLast.foldlM enter (files, FileName.start path)
  files.write path content

end Files
end FormulaSynth.Document
