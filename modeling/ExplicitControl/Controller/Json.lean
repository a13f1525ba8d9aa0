import ExplicitControl.Controller.Basic

namespace ExplicitControl

/-- An operand is an object with a single field that says what it is. -/
def Operand.ofJson? : Json → Option Operand
  | .object [("reg", .string name)] => some (.register name)
  | .object [("label", .string name)] => some (.label name)
  | .object [("op", .string name)] => some (.operation name)
  | .object [("constant", value)] => (Scalar.ofJson? value.canonical).map .constant
  | _ => none

/-- Writes an operand as a document. -/
def Operand.toJson : Operand → Json
  | .register name => .object [("reg", .string name)]
  | .constant value => .object [("constant", value.toJson)]
  | .label name => .object [("label", .string name)]
  | .operation name => .object [("op", .string name)]

/-- Reads the operands of an instruction, which must be an array. -/
def Operand.listOfJson? : Json → Option (List Operand)
  | .array items => items.mapM Operand.ofJson?
  | _ => none

namespace Instruction

/-- All values given for a key. -/
def valuesOf (key : String) (fields : List (String × Json)) : List Json :=
  (fields.filter fun field => field.1 = key).map Prod.snd

/-- An instruction is an object with a kind and possibly operands, each given
at most once, or an array of these two. -/
def ofJson? : Json → Option Instruction
  | .object fields =>
    match valuesOf "kind" fields, valuesOf "operands" fields with
    | [.string kind], [] => some ⟨kind, []⟩
    | [.string kind], [operands] => (Operand.listOfJson? operands).map (⟨kind, ·⟩)
    | _, _ => none
  | .array [.string kind] => some ⟨kind, []⟩
  | .array [.string kind, operands] => (Operand.listOfJson? operands).map (⟨kind, ·⟩)
  | _ => none

/-- Writes an instruction as a document. -/
def toJson (instruction : Instruction) : Json :=
  .object [("kind", .string instruction.kind),
    ("operands", .array (instruction.operands.map Operand.toJson))]

end Instruction

/-- A bare string is a label, everything else an instruction. -/
def Entry.ofJson? : Json → Option Entry
  | .string name => some (.label name)
  | document => (Instruction.ofJson? document).map .instruction

/-- Writes an entry as a document. -/
def Entry.toJson : Entry → Json
  | .label name => .string name
  | .instruction value => value.toJson

namespace Controller

/-- A controller is the array of its entries. -/
def ofJson? : Json → Option Controller
  | .array items => items.mapM Entry.ofJson?
  | _ => none

/-- Writes a controller as a document. -/
def toJson (controller : Controller) : Json :=
  .array (controller.map Entry.toJson)

end Controller

end ExplicitControl
