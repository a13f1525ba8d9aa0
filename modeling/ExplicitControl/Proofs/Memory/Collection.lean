import ExplicitControl.Proofs.Collector.Compaction
import ExplicitControl.Proofs.Memory.Sound

namespace ExplicitControl

/-- The contents with every pair address put through a function. -/
def Contents.rename (f : Nat → Nat) : Contents → Contents
  | .pointer p => .pointer (p.rename f)
  | other => other

@[simp] theorem Contents.refill_label (position : Nat) (fresh : List Pointer) :
    refill (.label position) fresh = (.label position, fresh) := by
  cases fresh <;> rfl

@[simp] theorem Contents.refill_unassigned (fresh : List Pointer) :
    refill .unassigned fresh = (.unassigned, fresh) := by
  cases fresh <;> rfl

/-- Refilling a row of slots with its own pointers, renamed, renames the row
and hands on what follows them. That is how registers, stack and pending
pointers get back what belongs to them from one list of roots. -/
theorem Contents.refillAll_rename (f : Nat → Nat) (slots : List Contents) (rest : List Pointer)
    (done : Array Contents) :
    refillAll done slots ((pointers slots).map (Pointer.rename f) ++ rest) =
      (done ++ slots.map (rename f), rest) := by
  induction slots generalizing done with
  | nil => simp [refillAll, pointers]
  | cons slot slots ih =>
    have step := ih (done.push (slot.rename f))
    cases slot with
    | pointer p => simpa [refillAll, refill, pointers, pointer?, rename] using step
    | label position =>
      have skipped : pointers (.label position :: slots) = pointers slots := rfl
      simpa [refillAll, skipped, rename] using step
    | unassigned =>
      have skipped : pointers (.unassigned :: slots) = pointers slots := rfl
      simpa [refillAll, skipped, rename] using step

namespace Memory

/-- The memory after a collection that has given pairs new addresses. -/
def relocated (memory : Memory) (f : Nat → Nat) (heap : PairHeap) (event : Event) : Memory where
  heap := heap
  program := memory.program
  registers := memory.registers.map fun register =>
    { register with contents := register.contents.rename f }
  stack := { memory.stack with items := memory.stack.items.map (Contents.rename f) }
  operations := memory.operations
  journal := memory.journal.push event

theorem collect_eq_relocated {memory : Memory} {pending : List Pointer} {f : Nat → Nat}
    {after : PairHeap} {live : Nat}
    (collected : memory.heap.collect (memory.roots pending) =
      ⟨after, (memory.roots pending).map (Pointer.rename f), .ok live⟩) :
    ∃ event, memory.collect pending =
      ⟨memory.relocated f after event, pending.map (Pointer.rename f), .ok ()⟩ := by
  obtain ⟨heap, program, registers, ⟨items, pushes, maxDepth⟩, operations, journal⟩ := memory
  refine ⟨.collected after.statistics.collections live heap.free after.capacity, ?_⟩
  simp only [collect]
  rw [collected]
  simp only [roots, List.map_append, Contents.refillAll_rename, relocated,
    Reservation.mk.injEq, Memory.mk.injEq, Stack.mk.injEq, true_and, and_true]
  constructor
  · apply Array.toList_inj.mp
    simp [registerContents, List.zipWith_map_right, List.zipWith_self]
  · apply Array.toList_inj.mp
    simp

variable {memory : Memory} {pending : List Pointer} {order : List Nat} {result : Collection}

theorem compacted_root (compacted : memory.heap.Compacted (memory.roots pending) order result)
    {p : Pointer} (isRoot : p ∈ memory.roots pending) : p.Within order := by
  cases p with
  | pair a => exact (compacted.reached a).mpr (.root isRoot)
  | scalar value => trivial
  | program address => trivial

/-- After a collection every pair that was kept stands for its copy. The
relation is one to one because a pair has one place in the order in which
pairs were copied. -/
theorem relocated_matches
    (compacted : memory.heap.Compacted (memory.roots pending) order result) (event : Event) :
    memory.Matches (fun a b => a ∈ order ∧ order.idxOf a = b)
      (memory.relocated order.idxOf result.heap event) where
  heap := {
    unique := by
      refine ⟨?_, ?_⟩
      · rintro a b c ⟨member, rfl⟩ ⟨member', same⟩
        exact ((List.idxOf_inj member').mp same).symm
      · rintro a b c ⟨_, rfl⟩ ⟨_, rfl⟩
        rfl
    pairs := by
      rintro a b ⟨member, rfl⟩
      obtain ⟨head, tail, holds, headIn, tailIn, moved⟩ := compacted.moved a member
      refine ⟨head, tail, _, _, holds, moved, .rename ?_, .rename ?_⟩
      · rintro c rfl
        exact ⟨headIn, rfl⟩
      · rintro c rfl
        exact ⟨tailIn, rfl⟩ }
  registers := by
    simp only [relocated, Array.toList_map, List.forall₂_map_right_iff, List.forall₂_same]
    intro register member
    refine ⟨rfl, ?_⟩
    match held : register.contents with
    | .unassigned => exact .unassigned
    | .label position => exact .label position
    | .pointer p =>
      refine .pointer (.rename ?_)
      rintro a rfl
      exact ⟨compacted_root compacted (mem_roots_of_register pending member held), rfl⟩
  stack := by
    simp only [relocated, Array.toList_map, List.forall₂_map_right_iff, List.forall₂_same]
    intro saved member
    cases saved with
    | unassigned => exact .unassigned
    | label position => exact .label position
    | pointer p =>
      refine .pointer (.rename ?_)
      rintro a rfl
      exact ⟨compacted_root compacted (mem_roots_of_stack pending member), rfl⟩
  pushes := rfl
  maxDepth := rfl
  allocated := by simp only [relocated, compacted.statistics]
  program := rfl
  operations := rfl

/-- After a collection no reference dangles, whether it is in a register, on
the stack or in a pair. -/
theorem relocated_closed
    (compacted : memory.heap.Compacted (memory.roots pending) order result) (event : Event) :
    (memory.relocated order.idxOf result.heap event).Closed where
  heap := { compacted.sized with closed := PairHeap.check_eq_ok_iff.mp compacted.check }
  registers := by
    simp only [relocated, Array.toList_map, List.forall_mem_map, compacted.free]
    intro register member
    match held : register.contents with
    | .unassigned => trivial
    | .label position => trivial
    | .pointer p =>
      exact Pointer.forward_below
        (compacted_root compacted (mem_roots_of_register pending member held))
  stack := by
    simp only [relocated, Array.toList_map, List.forall_mem_map, compacted.free]
    intro saved member
    cases saved with
    | unassigned => trivial
    | label position => trivial
    | pointer p =>
      exact Pointer.forward_below (compacted_root compacted (mem_roots_of_stack pending member))

/-- A collection in a memory without dangling references succeeds. The memory
it leaves matches the one before, and has in use what could be reached. -/
theorem Closed.collect (closed : memory.Closed) (below : ∀ p ∈ pending, p.Below memory.heap.free) :
    ∃ (order : List Nat) (after : Memory),
      memory.collect pending = ⟨after, pending.map (Pointer.forward order), .ok ()⟩ ∧
      order.Nodup ∧ (∀ a, a ∈ order ↔ memory.heap.Reaches (memory.roots pending) a) ∧
      after.heap.free = order.length ∧ after.heap.capacity = memory.heap.capacity ∧
      after.heap.statistics.collections = memory.heap.statistics.collections + 1 ∧
      (∀ a b, memory.heap.Carries after.heap a b ↔ a ∈ order ∧ order.idxOf a = b) ∧
      memory.Matches (memory.heap.Carries after.heap) after ∧
      List.Forall₂ (Pointer.Matches (memory.heap.Carries after.heap)) pending (pending.map (Pointer.forward order)) ∧
      after.Closed := by
  have rootsBelow := closed.roots_below below
  rcases PairHeap.collect_cases closed.heap.toSized closed.heap.plain (memory.roots pending) with
    ⟨b, reached, outside, _⟩ | ⟨order, compacted⟩
  · exact absurd (closed.reaches_lt rootsBelow reached) (Nat.not_lt.mpr outside)
  have collected : memory.heap.collect (memory.roots pending) =
      ⟨(memory.heap.collect (memory.roots pending)).heap,
        (memory.roots pending).map (Pointer.rename order.idxOf), .ok order.length⟩ := by
    rw [← compacted.outcome, ← Pointer.forward, ← compacted.roots]
  obtain ⟨event, result⟩ := collect_eq_relocated collected
  have carried : memory.heap.Carries (memory.heap.collect (memory.roots pending)).heap =
      fun a b => a ∈ order ∧ order.idxOf a = b := by
    funext a b
    exact propext (compacted.carried a b)
  have pendingMatched : List.Forall₂ (Pointer.Matches fun a b => a ∈ order ∧ order.idxOf a = b) pending
      (pending.map (Pointer.forward order)) := by
    rw [List.forall₂_map_right_iff, List.forall₂_same]
    intro p member
    refine .rename ?_
    rintro a rfl
    exact ⟨(compacted.reached a).mpr (.root (mem_roots_of_pending member)), rfl⟩
  exact ⟨order, _, result, compacted.nodup, compacted.reached, compacted.free, compacted.capacity,
    congrArg HeapStatistics.collections compacted.statistics, compacted.carried,
    by exact carried ▸ relocated_matches compacted event, by exact carried ▸ pendingMatched,
    relocated_closed compacted event⟩

/-- What setting room aside leaves: a memory that matches the one before, with
the pending pointers where they are now. Every pair in it comes from there,
and the heap is the same or was collected once. -/
structure Moved (memory : Memory) (pending : List Pointer) (after : Memory) (moved : List Pointer) : Prop where
  matched : memory.Matches (memory.heap.Carries after.heap) after
  pending : List.Forall₂ (Pointer.Matches (memory.heap.Carries after.heap)) pending moved
  sound : after.Sound
  covered : ∀ b < after.heap.free, ∃ a, memory.heap.Carries after.heap a b
  capacity : after.heap.capacity = memory.heap.capacity
  collected : after.heap = memory.heap ∨
    after.heap.statistics.collections = memory.heap.statistics.collections + 1

/-- Setting room aside either leaves a matching memory with enough room, or
fails because what can be reached leaves too little. -/
theorem Sound.reserve_cases (sound : memory.Sound)
    (below : ∀ p ∈ pending, p.Below memory.heap.free) (count : Nat) :
    (∃ (after : Memory) (moved : List Pointer),
      memory.reserve count pending = ⟨after, moved, .ok ()⟩ ∧ memory.Moved pending after moved ∧
      count ≤ after.heap.available) ∨
    (∃ (after : Memory) (moved : List Pointer) (order : List Nat),
      memory.reserve count pending =
        ⟨after, moved, .error (.heap (.exhausted memory.heap.capacity order.length))⟩ ∧
      order.Nodup ∧ (∀ a, a ∈ order ↔ memory.heap.Reaches (memory.roots pending) a) ∧
      memory.heap.capacity < order.length + count) := by
  by_cases room : count ≤ memory.heap.available
  · refine .inl ⟨memory, pending, by simp [reserve, room], ?_, room⟩
    exact {
      matched := sound.closed.matches_self
      pending := List.forall₂_same.mpr fun p member => carries_refl (below p member)
      sound := sound
      covered := fun b inUse => ⟨b, (PairHeap.carries_iff_of_eq rfl).mpr ⟨inUse, rfl⟩⟩
      capacity := rfl
      collected := .inl rfl }
  obtain ⟨order, after, collected, nodup, reached, free, capacity, counted, carried, matched, pendingMatched,
    closed⟩ := sound.closed.collect below
  have sound' := closed.sound (matched.program ▸ sound.program)
  by_cases room' : count ≤ after.heap.available
  · left
    refine ⟨after, pending.map (Pointer.forward order), by simp [reserve, room, collected, room'], ?_, room'⟩
    refine ⟨matched, pendingMatched, sound', fun b inUse => ?_, capacity, .inr counted⟩
    rw [free] at inUse
    exact ⟨order[b], (carried _ _).mpr ⟨List.getElem_mem inUse, nodup.idxOf_getElem b inUse⟩⟩
  · right
    refine ⟨after.record (.shortage count order.length memory.heap.capacity),
      pending.map (Pointer.forward order), order, ?_, nodup, reached, ?_⟩
    · simp only [reserve, room, collected, room', if_false, free, capacity]
    have inUse := sound'.heap.free
    rw [PairHeap.available, free, capacity] at room'
    omega

end Memory

end ExplicitControl
