import FormulaSynth.Number.Basic

set_option autoImplicit false
namespace FormulaSynth.Formula

inductive Unary
  | abs | sin | cos | tan | asin | acos | atan | exp | log | log2 | sqrt | inverseSqrt
  | sign | floor | ceil | round | fract
deriving DecidableEq, Repr

inductive Binary
  | atan2 | pow | mod | min | max | step
deriving DecidableEq, Repr

inductive Ternary
  | clamp | smoothstep | until | after
deriving DecidableEq, Repr

inductive Builtin
  | unary (f : Unary)
  | binary (f : Binary)
  | ternary (f : Ternary)
deriving DecidableEq, Repr

namespace Builtin

def arity : Builtin → Nat
  | unary _ => 1
  | binary _ => 2
  | ternary _ => 3

def label : Builtin → String
  | unary f => match f with
    | .abs => "Abs" | .sin => "Sin" | .cos => "Cos" | .tan => "Tan" | .asin => "Asin" | .acos => "Acos"
    | .atan => "Atan" | .exp => "Exp" | .log => "Log" | .log2 => "Log2" | .sqrt => "Sqrt"
    | .inverseSqrt => "InverseSqrt" | .sign => "Sign" | .floor => "Floor" | .ceil => "Ceil"
    | .round => "Round" | .fract => "Fract"
  | binary f => match f with
    | .atan2 => "Atan2" | .pow => "Pow" | .mod => "Mod" | .min => "Min" | .max => "Max" | .step => "Step"
  | ternary f => match f with
    | .clamp => "Clamp" | .smoothstep => "Smoothstep" | .until => "Until" | .after => "After"

end Builtin

def Unary.apply {α : Type} [Number α] : Unary → α → α
  | .abs => Number.abs
  | .sin => Number.sin
  | .cos => Number.cos
  | .tan => Number.tan
  | .asin => Number.asin
  | .acos => Number.acos
  | .atan => Number.atan
  | .exp => Number.exp
  | .log => Number.log
  | .log2 => Number.log2
  | .sqrt => Number.sqrt
  | .inverseSqrt => Number.invSqrt
  | .sign => Number.sign
  | .floor => Number.floor
  | .ceil => Number.ceil
  | .round => Number.round
  | .fract => Number.fract

def Binary.apply {α : Type} [Number α] : Binary → α → α → α
  | .atan2 => Number.atan2
  | .pow => Number.pow
  | .mod => Number.mod
  | .min => Number.min
  | .max => Number.max
  | .step => Number.step

def Ternary.apply {α : Type} [Number α] : Ternary → α → α → α → α
  | .clamp => Number.clamp
  | .smoothstep => Number.smoothstep
  | .until => Number.untilGate
  | .after => Number.afterGate

structure BuiltinEntry where
  name : String
  params : List String
  builtin : Builtin
deriving DecidableEq, Repr

namespace BuiltinEntry

def arity (f : BuiltinEntry) : Nat := f.params.length

def signature (f : BuiltinEntry) : String := f.name ++ "(" ++ String.intercalate ", " f.params ++ ")"

end BuiltinEntry

def builtins : List BuiltinEntry := [
  ⟨"abs", ["x"], .unary .abs⟩,
  ⟨"acos", ["x"], .unary .acos⟩,
  ⟨"after", ["x", "v", "threshold"], .ternary .after⟩,
  ⟨"asin", ["x"], .unary .asin⟩,
  ⟨"atan", ["x"], .unary .atan⟩,
  ⟨"atan2", ["y", "x"], .binary .atan2⟩,
  ⟨"ceil", ["x"], .unary .ceil⟩,
  ⟨"clamp", ["x", "min", "max"], .ternary .clamp⟩,
  ⟨"cos", ["x"], .unary .cos⟩,
  ⟨"exp", ["x"], .unary .exp⟩,
  ⟨"floor", ["x"], .unary .floor⟩,
  ⟨"fract", ["x"], .unary .fract⟩,
  ⟨"inversesqrt", ["x"], .unary .inverseSqrt⟩,
  ⟨"log", ["x"], .unary .log⟩,
  ⟨"log2", ["x"], .unary .log2⟩,
  ⟨"max", ["x", "y"], .binary .max⟩,
  ⟨"min", ["x", "y"], .binary .min⟩,
  ⟨"mod", ["x", "y"], .binary .mod⟩,
  ⟨"pow", ["x", "y"], .binary .pow⟩,
  ⟨"round", ["x"], .unary .round⟩,
  ⟨"sign", ["x"], .unary .sign⟩,
  ⟨"sin", ["x"], .unary .sin⟩,
  ⟨"smoothstep", ["edge0", "edge1", "x"], .ternary .smoothstep⟩,
  ⟨"sqrt", ["x"], .unary .sqrt⟩,
  ⟨"step", ["edge", "x"], .binary .step⟩,
  ⟨"tan", ["x"], .unary .tan⟩,
  ⟨"until", ["x", "v", "threshold"], .ternary .until⟩]

def builtin? (name : String) : Option BuiltinEntry := builtins.find? fun f => f.name == name

theorem builtins_arity : ∀ f ∈ builtins, f.arity = f.builtin.arity := by decide

def namedConstants : List (String × Binary64) := [
  ("pi", ⟨0x400921fb54442d18⟩),
  ("phi", ⟨0x3ff9e3779b97f4a8⟩),
  ("e", ⟨0x4005bf0a8b145769⟩),
  ("eps", ⟨0x3e112e0be826d695⟩)]

def namedConstant? (name : String) : Option Binary64 := namedConstants.lookup name

end FormulaSynth.Formula
