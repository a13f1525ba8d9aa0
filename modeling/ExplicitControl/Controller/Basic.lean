import ExplicitControl.Scalar

namespace ExplicitControl

/-- An operand of a written instruction. -/
inductive Operand where
  | register (name : String)
  | constant (value : Scalar)
  | label (name : String)
  | operation (name : String)

/-- A written instruction. Which operands its kind takes is decided only when
it is assembled. -/
structure Instruction where
  kind : String
  operands : List Operand

/-- An entry of a controller: a label for the instruction that follows, or an
instruction. -/
inductive Entry where
  | label (name : String)
  | instruction (value : Instruction)

/-- A program of the machine as it is written. -/
abbrev Controller := List Entry

namespace Controller

/-- The instructions in order, without the labels. -/
def instructions (controller : Controller) : List Instruction :=
  controller.filterMap fun
    | .label _ => none
    | .instruction value => some value

end Controller

namespace Entry

/-- Puts a value into a register. -/
def assign (target : String) (source : List Operand) : Entry :=
  .instruction ⟨"assign", .register target :: source⟩

/-- Sets the flag to the truth value an operation gives. -/
def test (expression : List Operand) : Entry :=
  .instruction ⟨"test", expression⟩

/-- Continues at a label if the flag is set. -/
def branch (target : String) : Entry :=
  .instruction ⟨"branch", [.label target]⟩

/-- Continues at a label, or where a register says. -/
def goto (destination : Operand) : Entry :=
  .instruction ⟨"goto", [destination]⟩

/-- Pushes a register on the stack. -/
def save (register : String) : Entry :=
  .instruction ⟨"save", [.register register]⟩

/-- Pops the stack into a register. -/
def restore (register : String) : Entry :=
  .instruction ⟨"restore", [.register register]⟩

/-- Applies an operation for its effect. -/
def perform (expression : List Operand) : Entry :=
  .instruction ⟨"perform", expression⟩

end Entry

end ExplicitControl
