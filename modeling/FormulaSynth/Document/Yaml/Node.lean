import FormulaSynth.Document.Yaml.Scan

set_option autoImplicit false
namespace FormulaSynth.Document.Yaml

inductive Node
  | scalar (style : ScalarStyle) (tag : Option String) (text : String)
  | sequence (items : List Node)
  | mapping (entries : List (Node × Node))
  | alias (id : Nat)
deriving Inhabited

def Node.empty : Node := .scalar .plain none ""

/-- What is left to read and the tag handles of the document, then the names of anchors with the numbers they have
    here, and the anchored nodes in the order of their beginnings. A node that is not complete is an alias to itself. -/
structure Reading where
  tokens : List Token
  handles : List (String × String)
  anchors : List (String × Nat)
  anchored : Array (Nat × Node)

abbrev Reader := StateT Reading Option

def coreTags : String := "tag:yaml.org,2002:"

def standardHandles : List (String × String) := [("!", "!"), ("!!", coreTags)]

namespace Reader

def peek? : Reader (Option Token) := do return (← get).tokens.head?

def skip : Reader Unit := modify fun r => { r with tokens := r.tokens.drop 1 }

def accept (t : Token) : Reader Bool := do
  if (← peek?) == some t then
    skip
    return true
  else return false

def orEmpty (stops : List Token) (read : Reader Node) : Reader Node := do
  if (← peek?).any stops.contains then return .empty else read

def valueOf (stops : List Token) (read : Reader Node) : Reader Node := do
  if ← accept .value then orEmpty stops read else return .empty

def separator (first : Bool) : Reader Unit := if first then pure () else do guard (← accept .flowEntry)

structure Properties where
  anchor : Option String
  tag : Option String

def Properties.isEmpty (p : Properties) : Bool := p.anchor.isNone && p.tag.isNone

def resolveTag (handle suffix : String) : Reader String := do
  if handle.isEmpty then return suffix
  else
    let (_, leading) ← StateT.lift (((← get).handles ++ standardHandles).find? (·.1 == handle))
    return leading ++ suffix

def anchor? : Reader (Option String) := do
  match ← peek? with
  | some (.anchor name) => skip; return some name
  | _ => return none

def tag? : Reader (Option String) := do
  match ← peek? with
  | some (.tag handle suffix) => skip; return some (← resolveTag handle suffix)
  | _ => return none

def properties : Reader Properties := do
  match ← anchor? with
  | some name => return ⟨some name, ← tag?⟩
  | none =>
    let tag ← tag?
    return ⟨← anchor?, tag⟩

/-- Begins an anchored node and answers its place. An anchor has the number of the names known before it, so one
    that renews a name shares its number with the next new name. -/
def announce (name : String) : Reader Nat := do
  let r ← get
  let id := r.anchors.length
  set { r with
    anchors := (name, id) :: r.anchors.filter (·.1 != name)
    anchored := r.anchored.push (id, .alias id) }
  return r.anchored.size

def complete (place : Nat) (n : Node) : Reader Unit :=
  modify fun r => { r with anchored := r.anchored.modify place fun (id, _) => (id, n) }

def aliasNamed (name : String) : Reader Node := do
  let (_, id) ← StateT.lift ((← get).anchors.find? (·.1 == name))
  return .alias id

def blockStops : List Token := [.key, .value, .blockEnd]
def flowSequenceStops : List Token := [.flowEntry, .flowSequenceEnd]
def flowMappingStops : List Token := [.flowEntry, .flowMappingEnd]

mutual

/-- A node. Block collections are admitted where `block` holds, and a sequence at the column of its key where
    `indentless` holds. -/
def node (fuel : Nat) (block indentless : Bool) : Reader Node := do
  match fuel with
  | 0 => failure
  | fuel + 1 =>
    match ← peek? with
    | some (.alias name) =>
      skip
      aliasNamed name
    | _ =>
      let p ← properties
      match p.anchor with
      | some name =>
        let place ← announce name
        let n ← content fuel block indentless p
        complete place n
        return n
      | none => content fuel block indentless p

def content (fuel : Nat) (block indentless : Bool) (p : Properties) : Reader Node := do
  match fuel with
  | 0 => failure
  | fuel + 1 =>
    match ← peek?, block, indentless with
    | some .blockEntry, _, true => return .sequence (← indentlessItems fuel)
    | some (.scalar style text), _, _ =>
      skip
      return .scalar style (p.tag.filter (· != "!")) text
    | some .flowSequenceStart, _, _ =>
      skip
      return .sequence (← flowItems fuel true)
    | some .flowMappingStart, _, _ =>
      skip
      return .mapping (← flowEntries fuel true)
    | some .blockSequenceStart, true, _ =>
      skip
      return .sequence (← blockItems fuel)
    | some .blockMappingStart, true, _ =>
      skip
      return .mapping (← blockEntries fuel)
    | _, _, _ => if p.isEmpty then failure else return .scalar .plain p.tag ""

def blockItems (fuel : Nat) : Reader (List Node) := do
  match fuel with
  | 0 => failure
  | fuel + 1 =>
    match ← peek? with
    | some .blockEntry =>
      skip
      let item ← orEmpty [.blockEntry, .blockEnd] (node fuel true false)
      return item :: (← blockItems fuel)
    | some .blockEnd =>
      skip
      return []
    | _ => failure

def indentlessItems (fuel : Nat) : Reader (List Node) := do
  match fuel with
  | 0 => failure
  | fuel + 1 =>
    if ← accept .blockEntry then
      let item ← orEmpty (.blockEntry :: blockStops) (node fuel true false)
      return item :: (← indentlessItems fuel)
    else return []

def blockEntries (fuel : Nat) : Reader (List (Node × Node)) := do
  match fuel with
  | 0 => failure
  | fuel + 1 =>
    match ← peek? with
    | some .key =>
      skip
      let key ← orEmpty blockStops (node fuel true true)
      let value ← valueOf blockStops (node fuel true true)
      return (key, value) :: (← blockEntries fuel)
    | some .blockEnd =>
      skip
      return []
    | _ => failure

def flowPair (fuel : Nat) : Reader Node := do
  match fuel with
  | 0 => failure
  | fuel + 1 =>
    let key ←
      if (← peek?).any (.value :: flowSequenceStops).contains then
        skip
        pure .empty
      else node fuel false false
    let value ← valueOf flowSequenceStops (node fuel false false)
    return .mapping [(key, value)]

def flowItems (fuel : Nat) (first : Bool) : Reader (List Node) := do
  match fuel with
  | 0 => failure
  | fuel + 1 =>
    if ← accept .flowSequenceEnd then return []
    else
      separator first
      match ← peek? with
      | some .flowSequenceEnd =>
        skip
        return []
      | some .key =>
        skip
        let pair ← flowPair fuel
        return pair :: (← flowItems fuel false)
      | _ =>
        let item ← node fuel false false
        return item :: (← flowItems fuel false)

def flowEntries (fuel : Nat) (first : Bool) : Reader (List (Node × Node)) := do
  match fuel with
  | 0 => failure
  | fuel + 1 =>
    if ← accept .flowMappingEnd then return []
    else
      separator first
      match ← peek? with
      | some .flowMappingEnd =>
        skip
        return []
      | some .key =>
        skip
        let key ← orEmpty (.value :: flowMappingStops) (node fuel false false)
        let value ← valueOf flowMappingStops (node fuel false false)
        return (key, value) :: (← flowEntries fuel false)
      | _ =>
        let key ← node fuel false false
        return (key, .empty) :: (← flowEntries fuel false)

end

def prologue (version : Bool) (handles : List (String × String)) :
    List Token → Option (List (String × String) × List Token)
  | .version major minor :: rest =>
    if version || major != 1 || !(minor == 1 || minor == 2) then none else prologue true handles rest
  | .tagHandle handle leading :: rest =>
    if handles.any (·.1 == handle) then none else prologue version ((handle, leading) :: handles) rest
  | rest => some (handles, rest)

def opensDocument : Token → Bool
  | .version .. | .tagHandle .. | .documentStart | .documentEnd => true
  | _ => false

def nodeFuel (tokens : List Token) : Nat := 3 * tokens.length + 3

def document (explicit : Bool) : Reader Node := do
  let next ← peek?
  if explicit && next.all opensDocument then return .empty
  else node (nodeFuel (← get).tokens) true false

end Reader

mutual

def Node.events : Node → Nat
  | .scalar .. => 1
  | .alias _ => 1
  | .sequence items => 2 + itemEvents items
  | .mapping entries => 2 + entryEvents entries

def itemEvents : List Node → Nat
  | [] => 0
  | n :: rest => n.events + itemEvents rest

def entryEvents : List (Node × Node) → Nat
  | [] => 0
  | (key, value) :: rest => key.events + value.events + entryEvents rest

end

structure Value where
  node : Node
  anchored : Array Node

namespace Value

/-- The nodes by the numbers of their anchors. Of several with one number the last counts, for aliases before it too. -/
def byNumber (anchored : Array (Nat × Node)) : Array Node :=
  anchored.foldl (fun nodes (id, n) => nodes.setIfInBounds id n) (Array.replicate anchored.size .empty)

def ofTokens? (tokens : List Token) : Option Value :=
  if tokens.isEmpty then some ⟨.empty, #[]⟩
  else do
    let (handles, rest) ← Reader.prologue false [] tokens
    let explicit := rest.head? == some .documentStart
    if !explicit && rest.length < tokens.length then none
    else
      let rest := if explicit then rest.drop 1 else rest
      let (node, after) ← (Reader.document explicit).run ⟨rest, handles, [], #[]⟩
      if after.tokens.all (· == .documentEnd) then return ⟨node, byNumber after.anchored⟩ else none

def parse? (text : String) : Option Value := (tokenize text).bind ofTokens?

end Value
end FormulaSynth.Document.Yaml
