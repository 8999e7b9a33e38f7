import FormulaSynth.Document.Json.Number
import FormulaSynth.Document.Record

set_option autoImplicit false
namespace FormulaSynth.Document.Json

inductive Value
  | null
  | truth (b : Bool)
  | number (negative : Bool) (literal : DecimalLiteral)
  | text (content : Option String)
  | array (items : List Value)
  | object (entries : List (Option String × Value))

namespace Value

def float? : Value → Option Binary64
  | number negative literal => (magnitude? literal).map fun b => if negative then b.neg else b
  | _ => none

def count? : Value → Option Nat
  | number false ⟨whole, none, []⟩ =>
    let n := Text.digitsValue 10 (whole.map Text.decimalDigit)
    if n < wordLimit then some n else none
  | _ => none

/-- A record is an object, or an array of its fields in order. -/
def fields? (names : List String) : Value → Option (List (Option Value))
  | object entries => do pick names (← entries.mapM fun (name, value) => return (← name, value))
  | array items =>
    if items.length ≤ names.length then
      some (items.map some ++ List.replicate (names.length - items.length) none)
    else none
  | _ => none

instance : Datum Value where
  text? | text content => content | _ => none
  truth? | truth b => some b | _ => none
  count? := count?
  float? := float?
  items? | array items => some items | _ => none
  fields? := fields?

end Value
end FormulaSynth.Document.Json
