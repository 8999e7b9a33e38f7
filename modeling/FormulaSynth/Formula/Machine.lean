import FormulaSynth.Formula.Code

set_option autoImplicit false
namespace FormulaSynth.Formula
variable {α : Type} [Number α]

def notANumber : α := Number.ofBinary64 Binary64.nan

def pop : List α → α × List α
  | [] => (notANumber, [])
  | a :: rest => (a, rest)

def popped1 (f : α → α) (stack : List α) : List α :=
  let (a, rest) := pop stack
  f a :: rest

/-- The operand pushed last is the last one. -/
def popped2 (f : α → α → α) (stack : List α) : List α :=
  let (b, rest) := pop stack
  let (a, rest) := pop rest
  f a b :: rest

def popped3 (f : α → α → α → α) (stack : List α) : List α :=
  let (c, rest) := pop stack
  let (b, rest) := pop rest
  let (a, rest) := pop rest
  f a b c :: rest

/-- One instruction, for a pool of constants and an argument. The top of the stack is the head of the list. -/
def Op.step (constants : Array Binary64) (x : α) (stack : List α) : Op → List α
  | .const slot => Number.ofBinary64 (constants.getD slot.toNat Binary64.nan) :: stack
  | .arg => x :: stack
  | .neg => popped1 (fun a => -a) stack
  | .add => popped2 (fun a b => a + b) stack
  | .sub => popped2 (fun a b => a - b) stack
  | .mul => popped2 (fun a b => a * b) stack
  | .div => popped2 (fun a b => a / b) stack
  | .call (.unary f) => popped1 f.apply stack
  | .call (.binary f) => popped2 f.apply stack
  | .call (.ternary f) => popped3 f.apply stack

def Program.exec (p : Program) (x : α) (stack : List α) : List α :=
  p.code.foldl (Op.step p.constants x) stack

structure Evaluator (α : Type) where
  stack : List α

def Evaluator.new : Evaluator α := ⟨[]⟩

def Evaluator.run (_ : Evaluator α) (p : Program) (x : α) : α × Evaluator α :=
  let stack := p.exec x []
  (stack.headD notANumber, ⟨stack⟩)

def Program.eval (p : Program) (x : α) : α := (Evaluator.new.run p x).1

end FormulaSynth.Formula
