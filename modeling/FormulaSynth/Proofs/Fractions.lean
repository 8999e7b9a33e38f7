import FormulaSynth.Proofs.Nearest

set_option autoImplicit false
namespace FormulaSynth
open Number

namespace Binary64

section Distance
variable {q : ℚ}

end Distance
end Binary64

namespace Doubles

end Doubles

/-- How many of all, as a double. -/
def share (count total : ℕ) : Float := Number.ofNat count / Number.ofNat total

section Shares
open Doubles
variable {j k n : ℕ}

end Shares
end FormulaSynth
