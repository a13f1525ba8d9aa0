import ExplicitControl.Controller.Basic
import ExplicitControl.Text.Quoted

namespace ExplicitControl

/-- An operand in parentheses. Texts are quoted, to tell them from names. -/
def Operand.display : Operand → String
  | .register name => "(reg " ++ name ++ ")"
  | .constant (.string s) => "(constant " ++ quoted s ++ ")"
  | .constant value => "(constant " ++ value.display ++ ")"
  | .label name => "(label " ++ name ++ ")"
  | .operation name => "(op " ++ name ++ ")"

namespace Instruction

/-- Kinds whose first operand is written as a bare register name. -/
def namesRegister (kind : String) : Bool :=
  kind = "assign" || kind = "save" || kind = "restore"

/-- The operands, the first one bare where the kind names a register. -/
def operandTexts (instruction : Instruction) : List String :=
  match instruction.operands with
  | .register name :: rest =>
    (if namesRegister instruction.kind then name else (Operand.register name).display)
      :: rest.map Operand.display
  | operands => operands.map Operand.display

/-- An instruction as a list in parentheses. -/
def display (instruction : Instruction) : String :=
  "(" ++ String.intercalate " " (instruction.kind :: instruction.operandTexts) ++ ")"

end Instruction

/-- A line of a listing: labels stand out, instructions are indented. -/
def Entry.display : Entry → String
  | .label name => name ++ ":"
  | .instruction value => "  " ++ value.display

end ExplicitControl
