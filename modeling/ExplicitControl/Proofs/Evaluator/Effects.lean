import ExplicitControl.Proofs.Evaluator.World

namespace ExplicitControl.Evaluator

open Interpreter

variable {layout : Layout} {operation : HeapOperation} {ps : List Pointer} {p q : Pointer}
  {cells cells' : Cells}

theorem call_eq_run (direct : operation = .applyPrimitive → ps.length ≠ 2) :
    Operation.call operation.name (.addressAware operation) ps = operation.run ps := by
  funext memory
  simp only [Operation.call, Operation.callFuel_run _ _ direct]

theorem Yields.of_run {operands : List Pointer} (direct : operation = .applyPrimitive → ps.length ≠ 2)
    (gives : Action.Gives layout.program table (operation.run ps) cells ⟨p, operands⟩ cells') :
    Yields layout operation ps cells p cells' :=
  ⟨operands, by rw [call_eq_run direct]; exact gives⟩

theorem Declines.of_run {m : Mistake} (direct : operation = .applyPrimitive → ps.length ≠ 2)
    (refuses : Action.Refuses layout.program table (operation.run ps) cells (m.Shows layout.locate)) :
    Declines layout operation ps cells m := by
  unfold Declines
  rw [call_eq_run direct]
  exact refuses

namespace Yields

theorem identical (p q : Pointer) (cells : Cells) :
    Yields layout .identical [p, q] cells (.bool (p == q)) cells :=
  .of_run (by simp) (.pure _ _)

theorem isKind (kind : PointerKind) (p : Pointer) (cells : Cells) :
    Yields layout (.isKind kind) [p] cells (.bool (kind.test p)) cells :=
  .of_run (by simp) (.pure _ _)

theorem isNull (p : Pointer) (cells : Cells) :
    Yields layout (.isKind .null) [p] cells (.bool p.isNull) cells := by
  have same : PointerKind.null.test p = p.isNull := by
    cases p with
    | scalar value => cases value <;> rfl
    | pair a => rfl
    | program a => rfl
  exact same ▸ isKind .null p cells

theorem read {f : Memory → Except Error Pointer} {operands : List Pointer}
    (direct : operation = .applyPrimitive → ps.length ≠ 2)
    (run : operation.run ps = do return ⟨← Action.inspect f, operands⟩)
    (read : ∀ memory : Memory, memory.Bears layout.program table cells → f memory = .ok p) :
    Yields layout operation ps cells p cells :=
  .of_run direct (by rw [run]; exact (Action.Gives.inspect read).bind (.pure _ _))

theorem head {a : Nat} (held : cells[a]? = some (p, q)) : Yields layout .head [.pair a] cells p cells :=
  .read (by simp) rfl fun _ bears => bears.head_eq held

theorem tail {a : Nat} (held : cells[a]? = some (p, q)) : Yields layout .tail [.pair a] cells q cells :=
  .read (by simp) rfl fun _ bears => bears.tail_eq held

theorem returnContent {a : Nat} (held : cells[a]? = some (p, q)) :
    Yields layout .returnContent [.pair a] cells q cells :=
  .read (by simp) rfl fun _ bears => bears.tail_eq held

theorem setHead {a : Nat} (held : cells[a]? = some (p, q)) (value : Pointer) :
    Yields layout .setHead [.pair a, value] cells .undefined (cells.set a (value, q)) :=
  .of_run (by simp) ((Action.Gives.setHead held value).bind (.pure _ _))

theorem setTail {a : Nat} (held : cells[a]? = some (p, q)) (value : Pointer) :
    Yields layout .setTail [.pair a, value] cells .undefined (cells.set a (p, value)) :=
  .of_run (by simp) ((Action.Gives.setTail held value).bind (.pure _ _))

end Yields

theorem Declines.signal {cause : Signal} {m : Mistake}
    (shown : ∀ memory : Memory, memory.Bears layout.program table cells →
      m.Shows layout.locate (.eval (cause.error memory p))) : Declines layout (.signal cause) [p] cells m :=
  .of_run (by simp) (.bind (.inspect fun memory bears => ⟨_, rfl, shown memory bears⟩) _)

/-- What an operation reads off the program is what the interpreter reads off
the tree, mistakes included. -/
def Selects {α : Type} (layout : Layout) (operation : HeapOperation) (p : Pointer) (image : α → Pointer)
    (good : α → Prop) (x : Except Mistake α) : Prop :=
  ∀ cells, match x with
    | .ok a => good a ∧ Yields layout operation [p] cells (image a) cells
    | .error m => Declines layout operation [p] cells m

theorem Selects.of_reads {α : Type} {image : α → Pointer} {good : α → Prop} {x : Except Mistake α}
    {f : Memory → Except Error Pointer} (run : operation.run [p] = do return ⟨← Action.inspect f, [p]⟩)
    (reads : ∀ memory : Memory, memory.program = layout.program →
      Reads layout.locate (fun a q => q = image a ∧ good a) x (f memory)) :
    Selects layout operation p image good x := by
  have direct : operation = .applyPrimitive → [p].length ≠ 2 := by simp
  intro cells
  cases x with
  | ok a =>
    have read (memory : Memory) (same : memory.program = layout.program) :
        f memory = .ok (image a) ∧ good a := by
      have found := reads memory same
      generalize f memory = y at found
      cases found with | ok related => exact ⟨congrArg Except.ok related.1, related.2⟩
    have somewhere : ∃ memory : Memory, memory.program = layout.program :=
      ⟨{ (default : Memory) with program := layout.program }, rfl⟩
    obtain ⟨memory, same⟩ := somewhere
    exact ⟨(read memory same).2, .read direct run fun memory bears => (read memory bears.program).1⟩
  | error m =>
    refine Declines.of_run direct (run ▸ (Action.Refuses.inspect fun memory bears => ?_).bind _)
    have found := reads memory bears.program
    generalize f memory = y at found
    cases found with | error shown => exact ⟨_, rfl, shown⟩

/-- What is read is a part of the program. -/
abbrev SelectsNode (layout : Layout) (operation : HeapOperation) (node : Node) (x : Except Mistake Node) :
    Prop :=
  Selects layout operation (node.point layout.locate) (Node.point layout.locate)
    (Node.Placed layout.program layout.locate) x

section

variable {node : Node} (placed : node.Placed layout.program layout.locate)
include placed

theorem selects_part (part : Selector) : SelectsNode layout (.select part) node (node.item part.index) := by
  refine .of_reads rfl fun memory same => ?_
  rw [← same] at placed ⊢
  exact programItem_reads placed part.index

theorem selects_programHead : SelectsNode layout .programHead node node.head := by
  refine .of_reads rfl fun memory same => ?_
  rw [← same] at placed ⊢
  exact programHead_reads placed

theorem selects_programTail : SelectsNode layout .programTail node node.tail := by
  refine .of_reads rfl fun memory same => ?_
  rw [← same] at placed ⊢
  exact programTail_reads placed

theorem selects_declarationSymbol : SelectsNode layout .declarationSymbol node node.declarationSymbol := by
  refine .of_reads rfl fun memory same => ?_
  rw [← same] at placed ⊢
  exact declarationSymbol_reads placed

theorem selects_operand (operation : HeapOperation) (index : Nat)
    (run : ∀ p, operation.run [p] = do
      return ⟨← Action.inspect fun memory => do memory.programItem (← memory.programItem p 2) index, [p]⟩) :
    SelectsNode layout operation node (do (← node.item 2).item index) := by
  refine .of_reads (run _) fun memory same => ?_
  rw [← same] at placed ⊢
  refine (programItem_reads placed 2).bind ?_
  rintro operands _ ⟨rfl, operandsPlaced⟩
  exact programItem_reads operandsPlaced index

theorem selects_settlingValue : Selects layout .shortCircuitValue (node.point layout.locate) Pointer.bool
    (fun _ => True) node.settlingValue := by
  refine .of_reads rfl fun memory same => ?_
  rw [← same] at placed
  simpa only [and_true] using settlingValue_reads placed

/-- The text that the machine has for the form of an expression is the one of
the form that the interpreter sees. -/
theorem yields_expressionKind (cells : Cells) :
    Yields layout .expressionKind [node.point layout.locate] cells
      (.string (match node.kind with | some kind => kind.text | none => "unknown")) cells := by
  refine .read (by simp) rfl fun memory bears => ?_
  rw [← bears.program] at placed
  rw [classify_eq_kind placed]
  cases node.kind <;> rfl

end

/-- The tag of the pair that stands for a value. -/
def valueTag : Value → Option Tag
  | .scalar _ => none
  | .builtin _ => some .primitive
  | .closure _ _ _ _ => some .compound
  | .returned _ _ => some .returnValue

theorem tag_text_inj {one other : Tag} : one.text = other.text ↔ one = other := by
  cases one <;> cases other <;> decide

/-- Values are told apart by their tags: a pair that stands for a value
carries the tag of what it is. -/
theorem isTagged_yields {w : World layout} {value : Value} (depicts : w.picture.Depicts layout value p)
    (tag : Tag) : Yields layout (.isTagged tag) [p] w.heap (.bool (valueTag value = some tag)) w.heap := by
  refine .read (by simp) rfl fun memory bears => ?_
  have tested {a : Nat} {present : Tag} {q : Pointer} (held : w.picture.holds a (.string present.text) q) :
      tag.test memory (.pair a) = .ok (some present = some tag) := by
    change (memory.head (.pair a) >>= _) = _
    rw [bears.head_eq (w.fits.holds _ _ _ held)]
    simp only [Option.some.injEq, ← tag_text_inj]
    rfl
  cases depicts with
  | scalar value => rfl
  | builtin _ held => rw [tested held]; rfl
  | closure _ held => rw [tested held]; rfl
  | returned _ held => rw [tested held]; rfl

end ExplicitControl.Evaluator
