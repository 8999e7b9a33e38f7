import FormulaSynth.Number.Binary64

/-!
# Records in documents

What a value in a document may be read as. A record is read by the names of its fields: one that is missing
takes its default, and one that is not asked for counts for nothing.
-/

set_option autoImplicit false
namespace FormulaSynth.Document

class Datum (ν : Type) where
  text? : ν → Option String
  truth? : ν → Option Bool
  count? : ν → Option Nat
  float? : ν → Option Binary64
  items? : ν → Option (List ν)
  fields? : List String → ν → Option (List (Option ν))

/-- The named fields among `entries`, none of which may come twice. -/
def pick {ν : Type} (names : List String) (entries : List (String × ν)) : Option (List (Option ν)) :=
  names.mapM fun name =>
    match entries.filter (·.1 == name) with
    | [] => some none
    | [(_, value)] => some (some value)
    | _ => none

def orDefault {ν β : Type} (read : ν → Option β) (default : β) : Option ν → Option β
  | some value => read value
  | none => some default

def countBelow {ν : Type} [Datum ν] (limit : Nat) (value : ν) : Option Nat :=
  (Datum.count? value).filter (· < limit)

end FormulaSynth.Document
