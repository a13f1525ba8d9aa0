import ExplicitControl.Controller.Json
import ExplicitControl.Machine.Basic
import ExplicitControl.Proofs.Document.Standard

namespace ExplicitControl

/-- Reading back a row that was written item by item gives the row of what
each item is read back as, if every item can be read. -/
theorem mapM_written {α : Type} {write : α → Json} {read : Json → Option α} {settle : α → α} {items : List α}
    (each : ∀ item ∈ items, read (write item) = some (settle item)) :
    (items.map write).mapM read = some (items.map settle) := by
  induction items with
  | nil => rfl
  | cons item rest ih =>
    obtain ⟨first, others⟩ := List.forall_mem_cons.mp each
    rw [List.map_cons, List.mapM_cons, first, ih others]
    rfl

namespace Operand

/-- The number of a constant is finite. -/
def Finite : Operand → Prop
  | .constant value => value.Finite
  | _ => True

instance : DecidablePred Finite
  | .constant value => inferInstanceAs (Decidable value.Finite)
  | .register _ => .isTrue trivial
  | .label _ => .isTrue trivial
  | .operation _ => .isTrue trivial

/-- The operand that is left of one that is written and read back. -/
def settled : Operand → Operand
  | .constant value => .constant value.settled
  | operand => operand

variable {operand : Operand}

theorem Finite.settled_eq (finite : operand.Finite) : operand.settled = operand := by
  cases operand with
  | constant value => exact congrArg constant (Scalar.Finite.settled_eq finite)
  | _ => rfl

theorem ofJson?_toJson (operand : Operand) : ofJson? operand.toJson = some operand.settled := by
  cases operand with
  | constant value =>
    have read : ofJson? (.object [("constant", value.toJson)]) =
        (Scalar.ofJson? value.toJson.canonical).map constant := by
      simp [ofJson?]
    rw [toJson, read, value.canonical_toJson, value.ofJson?_toJson]
    rfl
  | register name => rfl
  | label name => rfl
  | operation name => rfl

theorem toJson_standard (operand : Operand) : operand.toJson.Standard := by
  cases operand with
  | constant value => exact .field value.toJson_standard
  | register name => exact .field (.string name)
  | label name => exact .field (.string name)
  | operation name => exact .field (.string name)

end Operand

namespace Instruction

/-- The instruction that is left of one that is written and read back. -/
def settled (text : Instruction) : Instruction :=
  ⟨text.kind, text.operands.map Operand.settled⟩

theorem settled_eq {text : Instruction} (finite : ∀ operand ∈ text.operands, operand.Finite) :
    text.settled = text := by
  have each : ∀ operand ∈ text.operands, operand.settled = id operand := fun operand member =>
    (finite operand member).settled_eq
  have same : text.operands.map Operand.settled = text.operands :=
    (List.map_congr_left each).trans (List.map_id text.operands)
  rw [settled, same]

theorem ofJson?_toJson (text : Instruction) : ofJson? text.toJson = some text.settled := by
  have operands : Operand.listOfJson? (.array (text.operands.map Operand.toJson)) =
      some (text.operands.map Operand.settled) := mapM_written fun operand _ => operand.ofJson?_toJson
  have kinds : valuesOf "kind" [("kind", .string text.kind), ("operands", .array (text.operands.map Operand.toJson))] =
      [.string text.kind] := rfl
  have rows : valuesOf "operands" [("kind", .string text.kind),
      ("operands", .array (text.operands.map Operand.toJson))] =
      [.array (text.operands.map Operand.toJson)] := rfl
  simp only [toJson, ofJson?, kinds, rows, operands]
  rfl

theorem toJson_standard (text : Instruction) : text.toJson.Standard := by
  have sorted : ["kind", "operands"].Pairwise (· < ·) := by decide
  refine .object sorted fun field member => ?_
  rcases List.mem_cons.mp member with rfl | last
  · exact .string text.kind
  · rw [List.mem_singleton.mp last]
    refine .array fun item written => ?_
    obtain ⟨operand, _, rfl⟩ := List.mem_map.mp written
    exact operand.toJson_standard

end Instruction

namespace Entry

/-- The entry that is left of one that is written and read back. -/
def settled : Entry → Entry
  | .label name => .label name
  | .instruction text => .instruction text.settled

theorem ofJson?_toJson (entry : Entry) : ofJson? entry.toJson = some entry.settled := by
  cases entry with
  | label name => rfl
  | instruction text =>
    have read : ofJson? text.toJson = (Instruction.ofJson? text.toJson).map instruction := rfl
    rw [toJson, read, text.ofJson?_toJson]
    rfl

theorem toJson_standard (entry : Entry) : entry.toJson.Standard := by
  cases entry with
  | label name => exact .string name
  | instruction text => exact text.toJson_standard

end Entry

namespace Controller

/-- The numbers of all constants are finite. -/
def Finite (controller : Controller) : Prop :=
  ∀ text ∈ controller.instructions, ∀ operand ∈ text.operands, operand.Finite

instance : DecidablePred Finite := fun controller =>
  inferInstanceAs (Decidable (∀ text ∈ controller.instructions, ∀ operand ∈ text.operands, operand.Finite))

variable {controller : Controller}

theorem ofJson?_toJson (controller : Controller) : ofJson? controller.toJson = some (controller.map Entry.settled) :=
  mapM_written fun entry _ => entry.ofJson?_toJson

theorem Finite.settled_eq (finite : controller.Finite) : controller.map Entry.settled = controller := by
  have each : ∀ entry ∈ controller, entry.settled = id entry := by
    intro entry member
    cases entry with
    | label name => rfl
    | instruction text =>
      have listed : text ∈ controller.instructions := List.mem_filterMap.mpr ⟨.instruction text, member, rfl⟩
      exact congrArg Entry.instruction (Instruction.settled_eq (finite text listed))
  exact (List.map_congr_left each).trans (List.map_id controller)

theorem toJson_standard (controller : Controller) : controller.toJson.Standard := by
  refine .array fun item written => ?_
  obtain ⟨entry, _, rfl⟩ := List.mem_map.mp written
  exact entry.toJson_standard

/-- A controller of finite numbers is read back as it was written, whatever
its names, texts and kinds of instructions are, so that it assembles alike on
any machine. A single constant is read back as it was, or as null where it is
not finite: the format has no words for NaN and the infinities. -/
theorem survives_writing :
    (∀ controller : Controller, controller.Finite → controller.toJson.Standard ∧
      ofJson? controller.toJson = some controller ∧
      ∀ machine : Machine, (ofJson? controller.toJson).map machine.installController =
        some (machine.installController controller)) ∧
      ∀ value : Scalar, (value.Finite → Scalar.ofJson? value.toJson = some value) ∧
        (¬ value.Finite → Scalar.ofJson? value.toJson = some .null) := by
  refine ⟨fun controller finite => ?_, fun value => ⟨fun isFinite => ?_, fun strange => ?_⟩⟩
  · have readBack : ofJson? controller.toJson = some controller := by
      rw [controller.ofJson?_toJson, finite.settled_eq]
    refine ⟨controller.toJson_standard, readBack, fun machine => ?_⟩
    rw [readBack]
    rfl
  · rw [value.ofJson?_toJson, isFinite.settled_eq]
  · rw [value.ofJson?_toJson, Scalar.settled_eq_null strange]

/-- Names and texts that are the keys and words of the format itself. Nothing
in a controller is told from the format around it by what it says, only by
where it stands. -/
def confusing : Controller :=
  [.label "operands", .label "",
    .assign "constant" [.operation "label", .constant .undefined, .constant (.string "undefined"), .constant .null],
    .instruction ⟨"kind", []⟩,
    .test [.constant (.number 0.5), .label "reg", .constant (.number (-0.0)), .constant (.bool true)]]

theorem survives_writing_confusing : confusing.Finite ∧ confusing.toJson.Standard ∧
    ofJson? confusing.toJson = some confusing ∧
      ∀ machine : Machine, (ofJson? confusing.toJson).map machine.installController =
        some (machine.installController confusing) := by
  have finite : confusing.Finite := by decide
  obtain ⟨standard, readBack, assembled⟩ := survives_writing.1 confusing finite
  exact ⟨finite, standard, readBack, assembled⟩

end Controller

end ExplicitControl
