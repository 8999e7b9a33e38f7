import FormulaSynth.Number.Basic

set_option autoImplicit false
namespace FormulaSynth

def Binary64.ofFloat (x : Float) : Binary64 := ⟨x.toBits⟩
def Binary64.toFloat (b : Binary64) : Float := Float.ofBits b.bits

def invSqrtMagic : UInt64 := 0x5fe6eb50c7b537a9

instance : Number Float where
  ofBinary64 := Binary64.toFloat
  ofNat := Float.ofNat
  abs := Float.abs
  sqrt := Float.sqrt
  floor := Float.floor
  ceil := Float.ceil
  round := Float.round
  sin := Float.sin
  cos := Float.cos
  tan := Float.tan
  asin := Float.asin
  acos := Float.acos
  atan := Float.atan
  exp := Float.exp
  log := Float.log
  log2 := Float.log2
  atan2 := Float.atan2
  pow := Float.pow
  invSqrtSeed x := Float.ofBits (invSqrtMagic - (x.toBits >>> 1))
  lt a b := a < b
  le a b := a ≤ b
  isFinite := Float.isFinite
  truncToNat x := x.toUInt64.toNat
  roundToNat x := (Binary64.ofFloat x).roundToNat

abbrev Sample := Float32

instance : Silence Sample := ⟨0⟩

instance : Narrow Float Sample := ⟨Float.toFloat32⟩

end FormulaSynth
