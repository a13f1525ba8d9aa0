import ExplicitControl.Memory.Reserve

namespace ExplicitControl

/-- The items of a list, given how to read head and tail of its pairs. A list
of at most `fuel - 1` pairs is read to its end, which must be null; a longer
one is reported by its start. -/
def listItems (head tail : Pointer → Except Error Pointer) (start : Pointer) :
    (fuel : Nat) → Pointer → Except Error (List Pointer)
  | 0, _ => .error (.machine (.endless start))
  | fuel + 1, list =>
    if list.isNull then .ok []
    else do
      let item ← head list
      let rest ← tail list
      return item :: (← listItems head tail start fuel rest)

/-- The item at an index of a list. -/
def listRef (head tail : Pointer → Except Error Pointer) (list : Pointer) :
    (index : Nat) → Except Error Pointer
  | 0 => head list
  | index + 1 => do listRef head tail (← tail list) index

namespace Memory

/-- The items of a list on the pair heap. A list with more pairs than the
heap has comes back to itself. -/
def items (memory : Memory) (list : Pointer) : Except Error (List Pointer) :=
  listItems memory.head memory.tail list (memory.heap.free + 1) list

/-- The item at an index of a list on the pair heap. -/
def item (memory : Memory) (list : Pointer) (index : Nat) : Except Error Pointer :=
  listRef memory.head memory.tail list index

/-- The items of a list of the program. -/
def programItems (memory : Memory) (list : Pointer) : Except Error (List Pointer) :=
  listItems memory.programHead memory.programTail list (memory.program.size + 1) list

/-- The item at an index of a list of the program. -/
def programItem (memory : Memory) (list : Pointer) (index : Nat) : Except Error Pointer :=
  listRef memory.programHead memory.programTail list index

/-- The last pair of a list, found by following tails. -/
def lastPair (memory : Memory) (start : Pointer) : (fuel : Nat) → Pointer → Except Error Pointer
  | 0, _ => .error (.machine (.endless start))
  | fuel + 1, list => do
    let rest ← memory.tail list
    if rest.isNull then return list else lastPair memory start fuel rest

end Memory

namespace Action

/-- Builds a list in room set aside before, its last pair first. -/
def buildList : List Pointer → Action Pointer
  | [] => pure .null
  | item :: rest => do
    let tail ← buildList rest
    allocReserved item tail

end Action

end ExplicitControl
