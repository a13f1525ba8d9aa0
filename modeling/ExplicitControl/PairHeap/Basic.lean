import ExplicitControl.Error

namespace ExplicitControl

/-- What the head of a slot holds: a pointer, or the new address of a pair
that has been moved away. -/
inductive Head where
  | value (pointer : Pointer)
  | moved (target : Nat)
  deriving Inhabited

/-- One place for a pair. -/
structure Slot where
  head : Head
  tail : Pointer
  deriving Inhabited

/-- A slot that was never written. -/
def Slot.blank : Slot := ⟨.value .undefined, .undefined⟩

/-- One half of the pair heap. -/
abbrev Region := Array Slot

/-- A region of blank slots. -/
def Region.blank (capacity : Nat) : Region :=
  Array.replicate capacity Slot.blank

/-- Counters of a pair heap: collections, pairs copied by them, pairs
allocated, pairs in use right after the last collection, and the highest
number of pairs in use. -/
structure HeapStatistics where
  collections : Nat := 0
  copied : Nat := 0
  allocated : Nat := 0
  liveAfterLast : Nat := 0
  highWater : Nat := 0
  deriving DecidableEq, Repr, Inhabited

/-- The heap of run-time pairs: two regions of equal size, of which one is in
use up to the free address and the other waits for the next collection. -/
structure PairHeap where
  active : Region
  spare : Region
  free : Nat
  capacity : Nat
  statistics : HeapStatistics
  deriving Inhabited

namespace PairHeap

/-- The capacity of a heap when nothing else is asked for. -/
def defaultCapacity : Nat := 10000

/-- An empty heap. -/
def empty (capacity : Nat) : PairHeap where
  active := Region.blank capacity
  spare := Region.blank capacity
  free := 0
  capacity := capacity
  statistics := {}

/-- How many pairs can still be allocated. -/
def available (heap : PairHeap) : Nat :=
  heap.capacity - heap.free

/-- Gives the heap another capacity and forgets every pair. The counters go
on. -/
def resize (heap : PairHeap) (capacity : Nat) : PairHeap :=
  { empty capacity with statistics := heap.statistics }

/-- Forgets every pair and starts the counters over. -/
def reset (heap : PairHeap) : PairHeap :=
  { heap with free := 0, statistics := {} }

/-- Writes a pair at the free address, which is answered. A full heap is
refused; nothing is collected here. -/
def alloc (head tail : Pointer) : EStateM HeapError PairHeap Nat := fun
  | ⟨active, spare, free, capacity, statistics⟩ =>
    if free = capacity then
      .error (.exhausted capacity free) ⟨active, spare, free, capacity, statistics⟩
    else if free < active.size then
      .ok free
        { active := active.setIfInBounds free ⟨.value head, tail⟩
          spare := spare
          free := free + 1
          capacity := capacity
          statistics := { statistics with
            allocated := statistics.allocated + 1
            highWater := max statistics.highWater (free + 1) } }
    else .error (.overrun free active.size) ⟨active, spare, free, capacity, statistics⟩

/-- The slot of a pair in use. -/
def slot (heap : PairHeap) (address : Nat) : Except HeapError Slot :=
  if address < heap.free then
    match heap.active[address]? with
    | some slot => .ok slot
    | none => .error (.overrun address heap.active.size)
  else .error (.fault .pair address heap.free)

/-- The head of a pair. A pair that has been moved away is not there. -/
def head (heap : PairHeap) (address : Nat) : Except HeapError Pointer := do
  match (← heap.slot address).head with
  | .value pointer => return pointer
  | .moved _ => throw (.fault .pair address heap.free)

/-- The tail of a pair. -/
def tail (heap : PairHeap) (address : Nat) : Except HeapError Pointer :=
  return (← heap.slot address).tail

/-- Replaces the slot of a pair in use. -/
def setSlot (heap : PairHeap) (address : Nat) (slot : Slot) : PairHeap :=
  match heap with
  | ⟨active, spare, free, capacity, statistics⟩ =>
    ⟨active.setIfInBounds address slot, spare, free, capacity, statistics⟩

/-- Replaces the head of a pair. -/
def setHead (address : Nat) (value : Pointer) : EStateM HeapError PairHeap Unit := fun heap =>
  match heap.slot address with
  | .ok slot => .ok () (heap.setSlot address { slot with head := .value value })
  | .error fault => .error fault heap

/-- Replaces the tail of a pair. -/
def setTail (address : Nat) (value : Pointer) : EStateM HeapError PairHeap Unit := fun heap =>
  match heap.slot address with
  | .ok slot => .ok () (heap.setSlot address { slot with tail := value })
  | .error fault => .error fault heap

/-- Refuses a reference to a pair beyond the free address. -/
def checkPointer (heap : PairHeap) : Pointer → Except HeapError Unit
  | .pair address =>
    if address < heap.free then .ok () else .error (.fault .pair address heap.free)
  | _ => .ok ()

/-- Checks one pair: it has not been moved, and its head and tail refer to
pairs in use only. -/
def checkSlot (heap : PairHeap) (address : Nat) : Except HeapError Unit := do
  heap.checkPointer (← heap.head address)
  heap.checkPointer (← heap.tail address)

/-- Checks the pairs from `address` on, as many as `count`. -/
def checkFrom (heap : PairHeap) (address : Nat) : (count : Nat) → Except HeapError Unit
  | 0 => .ok ()
  | count + 1 =>
    match heap.checkSlot address with
    | .ok () => checkFrom heap (address + 1) count
    | .error fault => .error fault

/-- Checks that every pair in use is whole and refers to pairs in use only. -/
def check (heap : PairHeap) : Except HeapError Unit :=
  heap.checkFrom 0 heap.free

end PairHeap

end ExplicitControl
