import FormulaSynth.Formula.Builtin

set_option autoImplicit false
namespace FormulaSynth.Formula

inductive Op
  | const (slot : UInt8)
  | arg
  | neg
  | add
  | sub
  | mul
  | div
  | call (f : Builtin)
deriving DecidableEq, Repr

namespace Op

def pops : Op → Nat
  | const _ | arg => 0
  | neg => 1
  | add | sub | mul | div => 2
  | call f => f.arity

def effect (op : Op) : Int := 1 - op.pops

end Op

structure Program where
  code : Array Op
  constants : Array Binary64
  /-- Names of the functions called, in ascending order and once each. -/
  functions : List String
  maxStack : Nat
deriving DecidableEq, Repr

def Program.uses (p : Program) (name : String) : Bool := p.functions.contains name

/-- The depth after each instruction, and the greatest so far. -/
def depthStep (state : Int × Int) (op : Op) : Int × Int :=
  let depth := state.1 + op.effect
  (depth, max state.2 depth)

def deepest (code : Array Op) : Nat := (code.foldl depthStep (0, 0)).2.toNat

end FormulaSynth.Formula
