import ExplicitControl.Error
import ExplicitControl.Tree.Basic

namespace ExplicitControl

/-- The heap of the installed program: pairs at consecutive addresses, never
moved and never changed once a tree is in place. The root points to the tree
installed last. -/
structure ProgramHeap where
  cells : Array (Pointer × Pointer) := #[]
  root : Option Pointer := none
  deriving Inhabited

namespace ProgramHeap

/-- The number of pairs. -/
def size (heap : ProgramHeap) : Nat :=
  heap.cells.size

/-- Adds one pair. -/
def alloc (heap : ProgramHeap) (head tail : Pointer) : Pointer × ProgramHeap :=
  match heap with
  | ⟨cells, root⟩ => (.program cells.size, ⟨cells.push (head, tail), root⟩)

/-- A pair whose cell has been set aside, with the trees that go into it. -/
structure Vacancy where
  address : Nat
  head : Tree
  tail : Tree

/-- The pairs laid out once the cell and all cells below it are filled. -/
def Vacancy.pairs (vacancy : Vacancy) : Nat :=
  vacancy.head.pairs + vacancy.tail.pairs + 1

/-- Sets a cell aside for a tree that is a pair, and notes what goes into it.
An atom needs no cell. -/
def place (tree : Tree) (cells : Array (Pointer × Pointer)) (vacancies : List Vacancy) :
    Pointer × Array (Pointer × Pointer) × List Vacancy :=
  match tree with
  | .atom value => (.scalar value, cells, vacancies)
  | .pair head tail =>
    (.program cells.size, cells.push (.undefined, .undefined),
      ⟨cells.size, head, tail⟩ :: vacancies)

/-- The pairs laid out once all cells set aside are filled. -/
def pending : List Vacancy → Nat
  | [] => 0
  | vacancy :: vacancies => vacancy.pairs + pending vacancies

theorem place_pending (tree : Tree) (cells : Array (Pointer × Pointer)) (vacancies : List Vacancy) :
    pending (place tree cells vacancies).2.2 = pending vacancies + tree.pairs := by
  cases tree with
  | atom value => rfl
  | pair head tail =>
    simp only [place, pending, Vacancy.pairs, Tree.pairs]
    omega

set_option linter.unusedVariables false in
/-- Fills the cells set aside, the last one noted first. -/
def fill : List Vacancy → Array (Pointer × Pointer) → Array (Pointer × Pointer)
  | [], cells => cells
  | ⟨address, head, tail⟩ :: vacancies, cells =>
    match headPlaced : place head cells vacancies with
    | (headPointer, cells, vacancies) =>
      match tailPlaced : place tail cells vacancies with
      | (tailPointer, cells, vacancies) =>
        fill vacancies (cells.setIfInBounds address (headPointer, tailPointer))
  termination_by vacancies => pending vacancies
  decreasing_by
    have headCount := congrArg (fun placed => pending placed.2.2) headPlaced
    have tailCount := congrArg (fun placed => pending placed.2.2) tailPlaced
    simp only [place_pending] at headCount tailCount
    simp only [pending, Vacancy.pairs]
    omega

/-- Lays a tree out after the pairs that are there, and makes it the root. -/
def install (heap : ProgramHeap) (tree : Tree) : Pointer × ProgramHeap :=
  match heap with
  | ⟨cells, _⟩ =>
    match place tree cells [] with
    | (root, cells, vacancies) => (root, ⟨fill vacancies cells, some root⟩)

/-- The pair at an address. -/
def cell (heap : ProgramHeap) (address : Nat) : Except HeapError (Pointer × Pointer) :=
  match heap.cells[address]? with
  | some cell => .ok cell
  | none => .error (.fault .program address heap.size)

/-- The head of a pair. -/
def head (heap : ProgramHeap) (address : Nat) : Except HeapError Pointer :=
  return (← heap.cell address).1

/-- The tail of a pair. -/
def tail (heap : ProgramHeap) (address : Nat) : Except HeapError Pointer :=
  return (← heap.cell address).2

end ProgramHeap

end ExplicitControl
