import ExplicitControl.Memory.Basic

namespace ExplicitControl

namespace Contents

/-- Puts the next replacement in the place of a pointer, and hands on the
replacements not used. -/
def refill : Contents → List Pointer → Contents × List Pointer
  | .pointer _, fresh :: rest => (.pointer fresh, rest)
  | other, rest => (other, rest)

/-- Replaces the pointers in a row of slots, in order. `done` holds the slots
dealt with so far. -/
def refillAll (done : Array Contents) : List Contents → List Pointer → Array Contents × List Pointer
  | [], fresh => (done, fresh)
  | slot :: rest, fresh =>
    match slot.refill fresh with
    | (slot, fresh) => refillAll (done.push slot) rest fresh

/-- The pointers in a row of slots, in order. -/
def pointers (slots : List Contents) : List Pointer :=
  slots.filterMap Contents.pointer?

end Contents

/-- What an attempt to set room aside leaves: the memory, the pending pointers
where they are now, and whether there is room. -/
structure Reservation where
  memory : Memory
  pending : List Pointer
  outcome : Except Error Unit

namespace Memory

/-- What the registers hold, in order. -/
def registerContents (memory : Memory) : List Contents :=
  memory.registers.toList.map Register.contents

/-- The pointers a collection starts from: those in registers, then those on
the stack from the bottom up, then those an operation still needs. -/
def roots (memory : Memory) (pending : List Pointer) : List Pointer :=
  Contents.pointers memory.registerContents
    ++ (Contents.pointers memory.stack.items.toList ++ pending)

/-- Collects, with the registers, the stack and the pending pointers as roots,
and puts the roots back where they came from, also when the collection
fails. -/
def collect (memory : Memory) (pending : List Pointer) : Reservation :=
  let roots := memory.roots pending
  let held := memory.registerContents
  match memory with
  | ⟨heap, program, registers, ⟨items, pushes, maxDepth⟩, operations, journal⟩ =>
    let limit := heap.free
    match heap.collect roots with
    | ⟨heap, roots, outcome⟩ =>
      match Contents.refillAll #[] held roots with
      | (held, roots) =>
        match Contents.refillAll #[] items.toList roots with
        | (items, pending) =>
          let registers := registers.zipWith
            (fun register contents => { register with contents := contents }) held
          let stack : Stack := ⟨items, pushes, maxDepth⟩
          match outcome with
          | .ok live =>
            let event := .collected heap.statistics.collections live limit heap.capacity
            ⟨⟨heap, program, registers, stack, operations, journal.push event⟩, pending, .ok ()⟩
          | .error cause =>
            ⟨⟨heap, program, registers, stack, operations, journal⟩, pending,
              .error (.heap cause)⟩

/-- Makes sure that a number of pairs can be allocated, by a collection if
they do not fit as it is. The pending pointers take part in it. -/
def reserve (memory : Memory) (count : Nat) (pending : List Pointer) : Reservation :=
  if count ≤ memory.heap.available then ⟨memory, pending, .ok ()⟩
  else
    match memory.collect pending with
    | ⟨memory, pending, .error cause⟩ => ⟨memory, pending, .error cause⟩
    | ⟨memory, pending, .ok ()⟩ =>
      if count ≤ memory.heap.available then ⟨memory, pending, .ok ()⟩
      else
        let free := memory.heap.free
        let capacity := memory.heap.capacity
        ⟨memory.record (.shortage count free capacity), pending,
          .error (.heap (.exhausted capacity free))⟩

end Memory

namespace Action

/-- Sets room for a number of pairs aside and answers the pending pointers,
which may have moved. -/
def reserve (count : Nat) (pending : List Pointer) : Action (List Pointer) := fun memory =>
  match memory.reserve count pending with
  | ⟨memory, pending, .ok ()⟩ => .ok pending memory
  | ⟨memory, _, .error cause⟩ => .error cause memory

/-- Allocates a pair in room set aside before. Nothing moves. -/
def allocReserved (head tail : Pointer) : Action Pointer := do
  return .pair (← onHeap (PairHeap.alloc head tail))

/-- Allocates a pair, collecting first if the heap is full. -/
def allocPair (head tail : Pointer) : Action Pointer := do
  let moved ← reserve 1 [head, tail]
  allocReserved (moved.getD 0 head) (moved.getD 1 tail)

end Action

end ExplicitControl
