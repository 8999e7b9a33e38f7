import FormulaSynth.Formula.Scan

/-!
# From tokens to a tree

The grammar, loosest first: sums, products, unary minus, and then numbers, names, calls and groups. Sums and
products associate to the left.

Two limits keep trees small. Groups, calls and unary minuses may enclose one another 256 deep, which a counter
in the cursor watches, and no sum or product may be taller than 1024. One layer of the grammar is written
over the next deeper one, so reading recurses on the number of layers and loops on the tokens.
-/

set_option autoImplicit false
namespace FormulaSynth.Formula

inductive BinaryOp
  | add
  | sub
  | mul
  | div
deriving DecidableEq, Repr

inductive Tree
  | number (value : Binary64) (position : Position)
  | ident (name : String) (position : Position)
  | neg (operand : Tree)
  | binary (op : BinaryOp) (left right : Tree)
  | call (name : String) (args : List Tree) (position : Position)
deriving Repr

namespace Tree

/-- Leaves have height one, as has a call without arguments. -/
def height : Tree → Nat
  | number _ _ => 1
  | ident _ _ => 1
  | neg operand => operand.height + 1
  | binary _ left right => max left.height right.height + 1
  | call _ args _ => heights args + 1
where
  heights : List Tree → Nat
    | [] => 0
    | t :: rest => max t.height (heights rest)

end Tree

def maxDepth : Nat := 256
def maxHeight : Nat := 1024

/-- What is left to read, where the text ends, and how deeply the place is enclosed. -/
structure Cursor where
  rest : List Token
  stop : Position
  depth : Nat

abbrev TokenReader (β : Type) := ExceptT Fault (StateM Cursor) β

structure Node where
  tree : Tree
  height : Nat

namespace TokenReader

def peek : TokenReader (Option Lexeme) := do return (← get).rest.head?.map Token.lexeme

def here : TokenReader Position := do
  let cursor ← get
  return match cursor.rest with
    | token :: _ => token.position
    | [] => cursor.stop

def advance : TokenReader Unit := modify fun cursor => { cursor with rest := cursor.rest.tail }

def remaining : TokenReader (List Token) := do return (← get).rest

def fail {β : Type} (cause : Fault.Cause) (position : Position) : TokenReader β := throw ⟨cause, position⟩

def failHere {β : Type} (cause : Fault.Cause) : TokenReader β := do fail cause (← here)

def expect (wanted : Lexeme) : TokenReader Unit := do
  let found ← peek
  if found = some wanted then advance else failHere (.missing wanted found)

def enter (position : Position) : TokenReader Unit := do
  if (← get).depth ≥ maxDepth then fail .tooDeep position
  modify fun cursor => { cursor with depth := cursor.depth + 1 }

def enclosed {β : Type} (position : Position) (inner : TokenReader β) : TokenReader β := do
  enter position
  ExceptT.mk do
    let outcome ← inner.run
    modify fun cursor => { cursor with depth := cursor.depth - 1 }
    return outcome

end TokenReader

open TokenReader

def joined (op : BinaryOp) (left right : Node) (position : Position) : TokenReader Node :=
  let height := max left.height right.height + 1
  if height > maxHeight then fail .tooLong position
  else pure ⟨.binary op left.tree right.tree, height⟩

/-- Operands joined by the operators of one rank, from the left. Each round takes a token, so the tokens left
    at the start count the rounds. -/
def chain (operator? : Lexeme → Option BinaryOp) (operand : TokenReader Node) :
    List Token → Node → TokenReader Node
  | [], left => pure left
  | _ :: rounds, left => do
    match (← peek).bind operator? with
    | none => pure left
    | some op =>
      let position ← here
      advance
      let right ← operand
      let both ← joined op left right position
      chain operator? operand rounds both

def sumOperator? : Lexeme → Option BinaryOp
  | .plus => some .add
  | .minus => some .sub
  | _ => none

def productOperator? : Lexeme → Option BinaryOp
  | .star => some .mul
  | .slash => some .div
  | _ => none

def product (unary : TokenReader Node) : TokenReader Node := do
  let first ← unary
  chain productOperator? unary (← remaining) first

def sum (unary : TokenReader Node) : TokenReader Node := do
  let first ← product unary
  chain sumOperator? (product unary) (← remaining) first

def lastArgument (done : List Node) : TokenReader (List Node) := do
  expect .closeParen
  pure done.reverse

def moreArguments (argument : TokenReader Node) : List Token → List Node → TokenReader (List Node)
  | [], done => lastArgument done
  | _ :: rounds, done => do
    if (← peek) = some .comma then
      advance
      let next ← argument
      moreArguments argument rounds (next :: done)
    else lastArgument done

def arguments (argument : TokenReader Node) : TokenReader (List Node) := do
  if (← peek) = some .closeParen then
    advance
    pure []
  else
    let first ← argument
    moreArguments argument (← remaining) [first]

structure Layer where
  sum : TokenReader Node
  unary : TokenReader Node

def primary (inner : Layer) : TokenReader Node := do
  let position ← here
  match ← peek with
  | some (.number value) =>
    advance
    pure ⟨.number value position, 1⟩
  | some (.ident name) =>
    advance
    if (← peek) = some .openParen then
      advance
      let args ← enclosed position (arguments inner.sum)
      pure ⟨.call name (args.map Node.tree) position, (args.map Node.height).foldr max 0 + 1⟩
    else pure ⟨.ident name position, 1⟩
  | some .openParen =>
    advance
    let node ← enclosed position inner.sum
    expect .closeParen
    if (← peek) = some .openParen then failHere .calleeNotName
    pure node
  | found => fail (.unexpected found) position

def unary (inner : Layer) : TokenReader Node := do
  let position ← here
  match ← peek with
  | some .minus =>
    advance
    let operand ← enclosed position inner.unary
    pure ⟨.neg operand.tree, operand.height + 1⟩
  | some .plus => fail .unaryPlus position
  | _ => primary inner

def Layer.around (inner : Layer) : Layer where
  sum := Formula.sum (Formula.unary inner)
  unary := Formula.unary inner

/-- The layer that `n` further ones may be nested in. The innermost one is never entered past the limit. -/
def layer : Nat → Layer
  | 0 => Layer.around ⟨failHere .tooDeep, failHere .tooDeep⟩
  | n + 1 => Layer.around (layer n)

def parseTokens (stream : TokenStream) : Except Fault Tree :=
  if stream.tokens.isEmpty then .error ⟨.emptyExpression, stream.stop⟩
  else
    let (outcome, cursor) := ((layer maxDepth).sum.run).run ⟨stream.tokens, stream.stop, 0⟩
    match outcome, cursor.rest with
    | .error fault, _ => .error fault
    | .ok node, [] => .ok node.tree
    | .ok _, token :: _ => .error ⟨.leftOver token.lexeme, token.position⟩

def parse (source : String) : Except Fault Tree := do parseTokens (← tokenize source)

end FormulaSynth.Formula
