import ExplicitControl.Operation.Call
import ExplicitControl.Proofs.Memory.Walk
import ExplicitControl.Proofs.Program.Layout

namespace ExplicitControl

/-- The address that a pointer to a pair of the program has. -/
def Pointer.programAddress : Pointer → Nat
  | .program a => a
  | _ => 0

/-- Where the tail of a pair of the program leads. -/
def ProgramHeap.next? (program : ProgramHeap) : Pointer → Option Pointer
  | .program a => (program.cells[a]?).map Prod.snd
  | _ => none

namespace Interpreter

/-- A scalar is told by its pointer, anything else only by being a pair. -/
def Value.Outlines : Value → Pointer → Prop
  | .scalar value, p => p = .scalar value
  | _, p => ∃ a, p = .pair a

/-- The error in which a mistake shows, given the addresses of all places. -/
inductive Mistake.Shows (locate : List Bool → Nat) : Mistake → Error → Prop
  | notPair (got : Scalar) : Shows locate (.notPair got) (.value (.notProgramPair (.scalar got)))
  | unboundName (name : Node) :
      Shows locate (.unboundName name) (.eval (.unboundName (name.point locate)))
  | useBeforeDeclaration (name : Node) :
      Shows locate (.useBeforeDeclaration name) (.eval (.useBeforeDeclaration (name.point locate)))
  | assignToConstant (name : Node) :
      Shows locate (.assignToConstant name) (.eval (.assignToConstant (name.point locate)))
  | duplicateDeclaration (name : Node) :
      Shows locate (.duplicateDeclaration name) (.eval (.duplicateDeclaration (name.point locate)))
  | tooMany (expected got : Nat) : Shows locate (.tooMany expected got) (.eval (.tooMany expected got))
  | tooFew (expected got : Nat) : Shows locate (.tooFew expected got) (.eval (.tooFew expected got))
  | unknownExpression (tag : Node) :
      Shows locate (.unknownExpression tag) (.eval (.unknownExpression (tag.point locate)))
  | unknownOperator (operator : Node) :
      Shows locate (.unknownOperator operator) (.eval (.unknownOperator (operator.point locate)))
  | unknownFunction {value : Value} {p : Pointer} : value.Outlines p →
      Shows locate (.unknownFunction value) (.eval (.unknownFunction p))
  | nonBooleanPredicate {value : Value} {p : Pointer} : value.Outlines p →
      Shows locate (.nonBooleanPredicate value) (.eval (.nonBooleanPredicate p))
  | notScalar {value : Value} {p : Pointer} : value.Outlines p →
      Shows locate (.notScalar value) (.value (.notScalar p))
  | operand (function : String) (cause : OperandError) :
      Shows locate (.operand function cause) (.machine (.operand function cause))

/-- What the interpreter reads and what the machine reads belong together:
related results, or a mistake and the error in which it shows. -/
inductive Reads {α β : Type} (locate : List Bool → Nat) (rel : α → β → Prop) :
    Except Mistake α → Except Error β → Prop
  | ok {a : α} {b : β} : rel a b → Reads locate rel (.ok a) (.ok b)
  | error {m : Mistake} {e : Error} : m.Shows locate e → Reads locate rel (.error m) (.error e)

namespace Reads

variable {α β γ δ : Type} {locate : List Bool → Nat} {rel : α → β → Prop} {rel' : γ → δ → Prop}

theorem bind {x : Except Mistake α} {y : Except Error β} {f : α → Except Mistake γ}
    {g : β → Except Error δ} (first : Reads locate rel x y)
    (next : ∀ a b, rel a b → Reads locate rel' (f a) (g b)) : Reads locate rel' (x >>= f) (y >>= g) := by
  cases first with
  | ok related => exact next _ _ related
  | error shown => exact .error shown

theorem foldlM {f : α → γ → Except Mistake α} {g : β → δ → Except Error β}
    (step : ∀ a b c d, rel a b → rel' c d → Reads locate rel (f a c) (g b d)) {xs : List γ} {ys : List δ}
    (row : List.Forall₂ rel' xs ys) {a : α} {b : β} (start : rel a b) :
    Reads locate rel (xs.foldlM f a) (ys.foldlM g b) := by
  induction row generalizing a b with
  | nil => exact .ok start
  | cons first _ ih =>
    simp only [List.foldlM_cons]
    exact (step _ _ _ _ start first).bind fun _ _ next => ih next

end Reads

namespace Node

variable {locate : List Bool → Nat}

/-- Nodes are the same to the interpreter if their pointers are the same to
the machine, since places and addresses correspond one to one. -/
theorem point_same (injective : Function.Injective locate) (one other : Node) :
    (one.point locate == other.point locate) = (one == other) := by
  cases one with
  | leaf value => cases other <;> rfl
  | pair place head tail =>
    cases other with
    | leaf value => rfl
    | pair place' head' tail' =>
      change (locate place == locate place') = (place == place')
      rw [Bool.eq_iff_iff, beq_iff_eq, beq_iff_eq]
      exact injective.eq_iff

theorem point_isNull (node : Node) : (node.point locate).isNull = node.isNull := by
  cases node with
  | pair place head tail => rfl
  | leaf value => cases value <;> rfl

theorem point_contains (injective : Function.Injective locate) (found : List Node) (symbol : Node) :
    (found.map (point locate)).contains (symbol.point locate) = found.contains symbol := by
  induction found with
  | nil => rfl
  | cons name rest ih => simp only [List.map_cons, List.contains_cons, point_same injective, ih]

/-- A node and the pointer it is placed at. -/
def At (program : ProgramHeap) (locate : List Bool → Nat) (node : Node) (p : Pointer) : Prop :=
  p = node.point locate ∧ node.Placed program locate

theorem At.row_eq {program : ProgramHeap} {nodes : List Node} {ps : List Pointer}
    (row : List.Forall₂ (At program locate) nodes ps) : ps = nodes.map (point locate) := by
  induction row with
  | nil => rfl
  | cons first _ ih => rw [first.1, ih, List.map_cons]

/-- The number of pairs that a list has, up to its end. -/
def spine : Node → Nat
  | .leaf _ => 0
  | .pair _ _ tail => tail.spine + 1

end Node

section

variable {memory : Memory} {locate : List Bool → Nat} {node : Node}

open Node

theorem programHead_reads (placed : node.Placed memory.program locate) :
    Reads locate (At memory.program locate) node.head (memory.programHead (node.point locate)) := by
  cases node with
  | leaf value => exact .error (.notPair value)
  | pair place head tail =>
    obtain ⟨cell, headPlaced, _⟩ := placed
    simp only [Memory.programHead, point, ProgramHeap.head, ProgramHeap.cell, cell]
    exact .ok ⟨rfl, headPlaced⟩

theorem programTail_reads (placed : node.Placed memory.program locate) :
    Reads locate (At memory.program locate) node.tail (memory.programTail (node.point locate)) := by
  cases node with
  | leaf value => exact .error (.notPair value)
  | pair place head tail =>
    obtain ⟨cell, _, tailPlaced⟩ := placed
    simp only [Memory.programTail, point, ProgramHeap.tail, ProgramHeap.cell, cell]
    exact .ok ⟨rfl, tailPlaced⟩

theorem programItem_reads (placed : node.Placed memory.program locate) (index : Nat) :
    Reads locate (At memory.program locate) (node.item index)
      (memory.programItem (node.point locate) index) := by
  induction index generalizing node with
  | zero => exact programHead_reads placed
  | succ index ih =>
    refine (programTail_reads placed).bind ?_
    rintro tail _ ⟨rfl, tailPlaced⟩
    exact ih tailPlaced

theorem listItems_reads (placed : node.Placed memory.program locate) (start : Pointer) {fuel : Nat}
    (enough : node.spine < fuel) :
    Reads locate (List.Forall₂ (At memory.program locate)) node.items
      (listItems memory.programHead memory.programTail start fuel (node.point locate)) := by
  induction node generalizing fuel with
  | leaf value =>
    cases fuel with
    | zero => exact absurd enough (Nat.not_lt_zero _)
    | succ fuel => cases value <;> first | exact .ok .nil | exact .error (.notPair _)
  | pair place head tail _ tailIH =>
    cases fuel with
    | zero => exact absurd enough (Nat.not_lt_zero _)
    | succ fuel =>
      have tailEnough : tail.spine < fuel := Nat.lt_of_succ_lt_succ enough
      obtain ⟨cell, headPlaced, tailPlaced⟩ := placed
      simp only [listItems, Memory.programHead, Memory.programTail, point, ProgramHeap.head,
        ProgramHeap.tail, ProgramHeap.cell, cell]
      refine (tailIH tailPlaced tailEnough).bind fun _ _ rest => ?_
      exact .ok (.cons ⟨rfl, headPlaced⟩ rest)

/-- The pairs of a list have different addresses, so a list is no longer than
the program heap is large. The machine gives up reading a list after that many
steps. -/
theorem spine_le_size (placed : node.Placed memory.program locate) :
    node.spine ≤ memory.program.size := by
  have stops : Stops memory.program.next? node.spine (node.point locate) := by
    induction node with
    | leaf value => exact .stop rfl
    | pair place head tail _ tailIH =>
      obtain ⟨cell, _, tailPlaced⟩ := placed
      refine .step ?_ (tailIH tailPlaced)
      simp only [ProgramHeap.next?, point, cell, Option.map_some]
  refine @Stops.le_limit _ _ _ _ _ Pointer.programAddress ?_ ?_ stops
  · intro p q taken
    cases p with
    | program a =>
      obtain ⟨cell, found, _⟩ := Option.map_eq_some_iff.mp taken
      exact (Array.getElem?_eq_some_iff.mp found).1
    | scalar value => cases taken
    | pair a => cases taken
  · intro p q r s taken taken' same
    cases p with
    | program a =>
      cases r with
      | program b =>
        obtain rfl : a = b := same
        exact Option.some.inj (taken.symm.trans taken')
      | scalar value => cases taken'
      | pair b => cases taken'
    | scalar value => cases taken
    | pair a => cases taken

/-- The items of a list that the machine reads are placed where the
interpreter reads them. -/
theorem programItems_reads (placed : node.Placed memory.program locate) :
    Reads locate (List.Forall₂ (At memory.program locate)) node.items
      (memory.programItems (node.point locate)) :=
  listItems_reads placed _ (Nat.lt_succ_of_le (spine_le_size placed))

/-- The form of an expression is read off its tag, which is the same scalar in
the tree and on the heap. -/
theorem classify_eq_kind {program : ProgramHeap} (placed : node.Placed program locate) :
    ExpressionKind.classify program (node.point locate) = node.kind := by
  cases node with
  | leaf value => rfl
  | pair place head tail =>
    obtain ⟨cell, _, _⟩ := placed
    simp only [ExpressionKind.classify, point, ProgramHeap.head, ProgramHeap.cell, cell]
    cases head with
    | leaf value => cases value <;> rfl
    | pair place head tail => rfl

theorem declarationSymbol_reads (placed : node.Placed memory.program locate) :
    Reads locate (At memory.program locate) node.declarationSymbol
      (Environment.declarationSymbol memory (node.point locate)) := by
  refine (programItem_reads placed 1).bind ?_
  rintro name _ ⟨rfl, namePlaced⟩
  exact programItem_reads namePlaced 1

theorem addSymbol_reads (injective : Function.Injective locate) {found : List Node} {ps : List Pointer}
    (row : List.Forall₂ (At memory.program locate) found ps) (placed : node.Placed memory.program locate) :
    Reads locate (List.Forall₂ (At memory.program locate)) (addSymbol found node)
      (Environment.addSymbol ps (node.point locate)) := by
  have mapped : ps = found.map (point locate) := At.row_eq row
  simp only [addSymbol, Environment.addSymbol, mapped, point_contains injective]
  split
  · exact .error (.duplicateDeclaration node)
  · exact .ok (mapped ▸ List.rel_append row (.cons ⟨rfl, placed⟩ .nil))

theorem statements_reads (placed : node.Placed memory.program locate) :
    Reads locate (List.Forall₂ (At memory.program locate)) node.statements
      (Environment.statements memory (node.point locate)) := by
  unfold Node.statements Environment.statements
  rw [classify_eq_kind placed]
  split
  · refine (programItem_reads placed 1).bind ?_
    rintro list _ ⟨rfl, listPlaced⟩
    exact programItems_reads listPlaced
  · exact .ok (.cons ⟨rfl, placed⟩ .nil)

/-- The names that a body declares are the same to both, found in the same
order, and so is the first that is declared twice. -/
theorem declaredNames_reads (injective : Function.Injective locate)
    (placed : node.Placed memory.program locate) :
    Reads locate (List.Forall₂ (At memory.program locate)) node.declaredNames
      (Environment.declaredNames memory (node.point locate)) := by
  refine (statements_reads placed).bind fun _ _ row => Reads.foldlM ?_ row .nil
  rintro found ps statement _ foundRow ⟨rfl, statementPlaced⟩
  have declares : Environment.declares memory (statement.point locate) = statement.declares := by
    cases isKind : statement.kind with
    | none => simp only [Environment.declares, classify_eq_kind statementPlaced, Node.declares, isKind]
    | some kind => simp only [Environment.declares, classify_eq_kind statementPlaced, Node.declares, isKind]
  rw [declares]
  split
  · refine (declarationSymbol_reads statementPlaced).bind ?_
    rintro symbol _ ⟨rfl, symbolPlaced⟩
    exact addSymbol_reads injective foundRow symbolPlaced
  · exact .ok foundRow

theorem parameterNames_reads (injective : Function.Injective locate)
    (placed : node.Placed memory.program locate) :
    Reads locate (List.Forall₂ (At memory.program locate)) node.parameterNames
      (Environment.parameterNames memory (node.point locate)) := by
  refine (programItems_reads placed).bind fun _ _ row => Reads.foldlM ?_ row .nil
  rintro found ps parameter _ foundRow ⟨rfl, parameterPlaced⟩
  refine (programItem_reads parameterPlaced 1).bind ?_
  rintro symbol _ ⟨rfl, symbolPlaced⟩
  exact addSymbol_reads injective foundRow symbolPlaced

theorem settlingValue_reads (placed : node.Placed memory.program locate) :
    Reads locate (fun settling p => p = .bool settling) node.settlingValue
      (ExplicitControl.settlingValue memory (node.point locate)) := by
  refine (programItem_reads placed 1).bind ?_
  rintro name _ ⟨rfl, namePlaced⟩
  refine (programItem_reads namePlaced 1).bind ?_
  rintro operator _ ⟨rfl, operatorPlaced⟩
  cases operator with
  | pair place head tail => exact .error (.unknownOperator _)
  | leaf value =>
    cases value with
    | string s =>
      by_cases isAnd : s = "&&"
      · subst isAnd
        exact .ok rfl
      · by_cases isOr : s = "||"
        · subst isOr
          exact .ok rfl
        · simp only [point]
          split
          · exact absurd (by simp_all) isAnd
          · exact absurd (by simp_all) isOr
          · split
            · exact absurd (by simp_all) isAnd
            · exact absurd (by simp_all) isOr
            · exact .error (.unknownOperator _)
    | _ => exact .error (.unknownOperator _)

end

end Interpreter

end ExplicitControl
