import ExplicitControl.Proofs.Memory.Matching

namespace ExplicitControl

/-- A reference to a pair that is held stays below an address. -/
def Contents.Below (limit : Nat) : Contents → Prop
  | .pointer p => p.Below limit
  | _ => True

theorem Contents.Below.mono {low high : Nat} {c : Contents} (below : c.Below low) (le : low ≤ high) :
    c.Below high := by
  cases c with
  | pointer p => exact Pointer.Below.mono below le
  | label position => trivial
  | unassigned => trivial

/-- The heap has its regions, and every pair in use is whole and refers to
pairs in use only. -/
structure PairHeap.Sound (heap : PairHeap) : Prop extends PairHeap.Sized heap where
  closed : ∀ a < heap.free, ∃ head tail, heap.Holds a head tail ∧
    head.Below heap.free ∧ tail.Below heap.free

theorem PairHeap.Sound.plain {heap : PairHeap} (sound : heap.Sound) : heap.Plain := by
  intro a inUse
  obtain ⟨head, tail, holds, _⟩ := sound.closed a inUse
  exact ⟨head, tail, holds⟩

/-- The program refers to no run-time pair. -/
structure ProgramHeap.Pairless (program : ProgramHeap) : Prop where
  cells : ∀ (a : Nat) (head tail : Pointer), program.cells[a]? = some (head, tail) →
    head.Below 0 ∧ tail.Below 0
  root : ∀ p, program.root = some p → p.Below 0

namespace Memory

/-- No reference to a pair dangles: every pair that a register, the stack, a
pair in use or the program refers to is in use, and none has been moved away. -/
structure Sound (memory : Memory) : Prop where
  heap : memory.heap.Sound
  registers : ∀ register ∈ memory.registers.toList, register.contents.Below memory.heap.free
  stack : ∀ saved ∈ memory.stack.items.toList, saved.Below memory.heap.free
  program : memory.program.Pairless

/-- Registers, stack and heap refer to pairs in use only, whatever the program
refers to. -/
structure Closed (memory : Memory) : Prop where
  heap : memory.heap.Sound
  registers : ∀ register ∈ memory.registers.toList, register.contents.Below memory.heap.free
  stack : ∀ saved ∈ memory.stack.items.toList, saved.Below memory.heap.free

variable {memory : Memory}

theorem Sound.closed (sound : memory.Sound) : memory.Closed :=
  ⟨sound.heap, sound.registers, sound.stack⟩

theorem Closed.sound (closed : memory.Closed) (program : memory.program.Pairless) : memory.Sound :=
  ⟨closed.heap, closed.registers, closed.stack, program⟩

/-- Every root of a collection is in use, those that a computation has pending
among them, so the collection has nothing to fail on. -/
theorem Closed.roots_below (closed : memory.Closed) {pending : List Pointer}
    (below : ∀ p ∈ pending, p.Below memory.heap.free) :
    ∀ p ∈ memory.roots pending, p.Below memory.heap.free := by
  have held {slots : List Contents} (inside : ∀ c ∈ slots, c.Below memory.heap.free) :
      ∀ p ∈ Contents.pointers slots, p.Below memory.heap.free := by
    intro p member
    obtain ⟨c, inSlots, isPointer⟩ := List.mem_filterMap.mp member
    cases c with
    | pointer q => exact Option.some.inj isPointer ▸ inside _ inSlots
    | label position => cases isPointer
    | unassigned => cases isPointer
  intro p member
  rcases List.mem_append.mp member with inRegister | rest
  · refine held (fun c inside => ?_) p inRegister
    obtain ⟨register, inRegisters, rfl⟩ := List.mem_map.mp inside
    exact closed.registers register inRegisters
  rcases List.mem_append.mp rest with inStack | isPending
  · exact held closed.stack p inStack
  · exact below p isPending

theorem mem_roots_of_register (pending : List Pointer) {register : Register} {p : Pointer}
    (member : register ∈ memory.registers.toList) (held : register.contents = .pointer p) :
    p ∈ memory.roots pending := by
  refine List.mem_append_left _ (List.mem_filterMap.mpr ⟨register.contents, ?_, by rw [held]; rfl⟩)
  exact List.mem_map.mpr ⟨register, member, rfl⟩

theorem mem_roots_of_stack (pending : List Pointer) {p : Pointer}
    (member : .pointer p ∈ memory.stack.items.toList) : p ∈ memory.roots pending :=
  List.mem_append_right _ (List.mem_append_left _ (List.mem_filterMap.mpr ⟨_, member, rfl⟩))

theorem mem_roots_of_pending {pending : List Pointer} {p : Pointer} (member : p ∈ pending) :
    p ∈ memory.roots pending :=
  List.mem_append_right _ (List.mem_append_right _ member)

/-- What can be reached in a heap without dangling references is in use, so it
is no more than the pairs in use. -/
theorem Closed.reaches_lt (closed : memory.Closed) {roots : List Pointer}
    (below : ∀ p ∈ roots, p.Below memory.heap.free) {a : Nat}
    (reached : memory.heap.Reaches roots a) : a < memory.heap.free := by
  have member : a ∈ List.range memory.heap.free := by
    refine reached.subset_of_closed (fun p isRoot => ?_) (fun b inside head tail holds => ?_)
    · have inUse := below p isRoot
      cases p with
      | pair a => exact List.mem_range.mpr inUse
      | scalar value => trivial
      | program address => trivial
    · obtain ⟨head', tail', holds', headBelow, tailBelow⟩ :=
        closed.heap.closed b (List.mem_range.mp inside)
      obtain ⟨rfl, rfl⟩ := holds.unique holds'
      have within {p : Pointer} (inUse : p.Below memory.heap.free) :
          p.Within (List.range memory.heap.free) := by
        cases p with
        | pair a => exact List.mem_range.mpr inUse
        | scalar value => trivial
        | program address => trivial
      exact ⟨within headBelow, within tailBelow⟩
  exact List.mem_range.mp member

/-- A pair in use has stayed where it is. -/
theorem carries_refl {p : Pointer} (below : p.Below memory.heap.free) :
    p.Matches (memory.heap.Carries memory.heap) p := by
  cases p with
  | pair a => exact .pair ((PairHeap.carries_iff_of_eq rfl).mpr ⟨below, rfl⟩)
  | scalar value => exact .scalar value
  | program address => exact .program address

theorem carries_refl_contents {c : Contents} (below : c.Below memory.heap.free) :
    c.Matches (memory.heap.Carries memory.heap) c := by
  cases c with
  | pointer p => exact .pointer (carries_refl below)
  | label position => exact .label position
  | unassigned => exact .unassigned

/-- A memory without dangling references matches itself, every pair in use
standing for itself. -/
theorem Closed.matches_self (closed : memory.Closed) :
    memory.Matches (memory.heap.Carries memory.heap) memory where
  heap := {
    unique := by
      refine ⟨fun a b c one other => ?_, fun a b c one other => ?_⟩
      · rw [PairHeap.carries_iff_of_eq rfl] at one other
        exact one.2.trans other.2.symm
      · rw [PairHeap.carries_iff_of_eq rfl] at one other
        exact one.2.symm.trans other.2
    pairs := by
      intro a b carried
      obtain ⟨inUse, rfl⟩ := (PairHeap.carries_iff_of_eq rfl).mp carried
      obtain ⟨head, tail, holds, headBelow, tailBelow⟩ := closed.heap.closed a inUse
      exact ⟨head, tail, head, tail, holds, holds, carries_refl headBelow, carries_refl tailBelow⟩ }
  registers := List.forall₂_same.mpr fun register member =>
    ⟨rfl, carries_refl_contents (closed.registers register member)⟩
  stack := List.forall₂_same.mpr fun saved member =>
    carries_refl_contents (closed.stack saved member)
  pushes := rfl
  maxDepth := rfl
  allocated := rfl
  program := rfl
  operations := rfl

end Memory

end ExplicitControl
