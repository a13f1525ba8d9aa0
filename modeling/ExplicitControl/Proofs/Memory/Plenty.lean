import ExplicitControl.Memory.List
import ExplicitControl.Operation.Call
import ExplicitControl.Proofs.Memory.Twin

namespace ExplicitControl

/-- Pairs in the order of their addresses. -/
abbrev Cells := List (Pointer × Pointer)

/-- The pairs in use are those of a list, and none was ever collected. So
addresses never change, and what an action does can be told from the list
alone. -/
structure PairHeap.Stores (heap : PairHeap) (cells : Cells) : Prop extends PairHeap.Sized heap where
  uncollected : heap.statistics.collections = 0
  used : heap.free = cells.length
  holds : ∀ a head tail, cells[a]? = some (head, tail) → heap.Holds a head tail

namespace PairHeap.Stores

variable {heap : PairHeap} {cells : Cells} {a : Nat} {head tail head' tail' : Pointer}

theorem getElem?_of_holds (stores : heap.Stores cells) (holds : heap.Holds a head tail) :
    cells[a]? = some (head, tail) := by
  have inside : a < cells.length := stores.used ▸ holds.lt
  obtain ⟨rfl, rfl⟩ := holds.unique (stores.holds a _ _ (List.getElem?_eq_getElem inside))
  exact List.getElem?_eq_getElem inside

theorem grown (stores : heap.Stores cells) (room : cells.length < heap.capacity) (head tail : Pointer) :
    (heap.grown head tail).Stores (cells ++ [(head, tail)]) where
  active := by simpa [PairHeap.grown] using stores.active
  spare := stores.spare
  free := by
    rw [grown_free, grown_capacity, stores.used]
    exact room
  uncollected := stores.uncollected
  used := by simp only [grown_free, stores.used, List.length_append, List.length_singleton]
  holds := by
    intro a head' tail' found
    have available : 0 < heap.available := by
      simp only [PairHeap.available, stores.used]
      omega
    rcases Nat.lt_or_ge a cells.length with old | new
    · rw [List.getElem?_append_left old] at found
      exact (stores.holds a head' tail' found).grown
    · have last := (List.getElem?_eq_some_iff.mp found).1
      simp only [List.length_append, List.length_singleton] at last
      obtain rfl : a = cells.length := by omega
      rw [List.getElem?_append_right (Nat.le_refl _), Nat.sub_self] at found
      cases found
      rw [← stores.used]
      exact holds_grown_new stores.toSized available

theorem replaced (stores : heap.Stores cells) (old : cells[a]? = some (head', tail'))
    (head tail : Pointer) : (heap.replaced a head tail).Stores (cells.set a (head, tail)) where
  active := by simpa [PairHeap.replaced, setSlot] using stores.active
  spare := stores.spare
  free := stores.free
  uncollected := stores.uncollected
  used := by simp only [replaced_free, stores.used, List.length_set]
  holds := by
    intro b head₁ tail₁ found
    by_cases same : a = b
    · subst same
      rw [List.getElem?_set_self (List.getElem?_eq_some_iff.mp old).1] at found
      cases found
      exact (stores.holds a head' tail' old).replaced_self
    · rw [List.getElem?_set_ne same] at found
      exact (stores.holds b head₁ tail₁ found).replaced_other same

end PairHeap.Stores

/-- What a memory has besides registers and stack: a program, operations, and
pairs. -/
structure Memory.Bears (program : ProgramHeap) (operations : OperationTable) (cells : Cells)
    (memory : Memory) : Prop where
  heap : memory.heap.Stores cells
  program : memory.program = program
  operations : memory.operations = operations

namespace Memory.Bears

variable {program : ProgramHeap} {operations : OperationTable} {cells cells' : Cells} {memory : Memory}
  {a : Nat} {head tail : Pointer}

theorem withHeap {heap : PairHeap} (bears : memory.Bears program operations cells)
    (stores : heap.Stores cells') : (memory.withHeap heap).Bears program operations cells' :=
  ⟨stores, bears.program, bears.operations⟩

theorem head_eq (bears : memory.Bears program operations cells) (found : cells[a]? = some (head, tail)) :
    memory.head (.pair a) = .ok head := by
  simp only [Memory.head, (bears.heap.holds a head tail found).head_eq]
  rfl

theorem tail_eq (bears : memory.Bears program operations cells) (found : cells[a]? = some (head, tail)) :
    memory.tail (.pair a) = .ok tail := by
  simp only [Memory.tail, (bears.heap.holds a head tail found).tail_eq]
  rfl

end Memory.Bears

namespace Action

section

variable (program : ProgramHeap) (operations : OperationTable)

/-- Given room enough, an action gives a value and turns some pairs into
others, which are no fewer. How much room is enough is left open: the
statement is about any heap that has it. -/
structure Gives {α : Type} (action : Action α) (cells : Cells) (value : α) (cells' : Cells) : Prop where
  le : cells.length ≤ cells'.length
  runs : ∀ memory : Memory, memory.Bears program operations cells →
    cells'.length ≤ memory.heap.capacity →
    ∃ heap, action memory = .ok value (memory.withHeap heap) ∧ heap.Stores cells' ∧
      heap.capacity = memory.heap.capacity

/-- An action fails, whatever room there is, and for one of some causes. -/
def Refuses {α : Type} (action : Action α) (cells : Cells) (causes : Error → Prop) : Prop :=
  ∀ memory : Memory, memory.Bears program operations cells →
    ∃ cause memory', action memory = .error cause memory' ∧ causes cause

end

variable {α β : Type} {program : ProgramHeap} {operations : OperationTable} {cells cells' cells'' : Cells}

namespace Gives

theorem pure (value : α) (cells : Cells) :
    Gives program operations (Pure.pure value : Action α) cells value cells where
  le := Nat.le_refl _
  runs := fun memory bears _ => ⟨memory.heap, rfl, bears.heap, rfl⟩

theorem bind {x : Action α} {f : α → Action β} {a : α} {b : β}
    (first : Gives program operations x cells a cells')
    (next : Gives program operations (f a) cells' b cells'') :
    Gives program operations (x >>= f) cells b cells'' where
  le := first.le.trans next.le
  runs := by
    intro memory bears room
    obtain ⟨heap, ran, stores, capacity⟩ := first.runs memory bears (next.le.trans room)
    obtain ⟨heap', ran', stores', capacity'⟩ :=
      next.runs (memory.withHeap heap) (bears.withHeap stores) (room.trans capacity.symm.le)
    refine ⟨heap', ?_, stores', capacity'.trans capacity⟩
    change EStateM.bind x f memory = _
    simp only [EStateM.bind, ran, ran']
    rfl

theorem inspect {f : Memory → Except Error α} {a : α}
    (read : ∀ memory : Memory, memory.Bears program operations cells → f memory = .ok a) :
    Gives program operations (Action.inspect f) cells a cells where
  le := Nat.le_refl _
  runs := by
    intro memory bears _
    refine ⟨memory.heap, ?_, bears.heap, rfl⟩
    simp only [Action.inspect, read memory bears]
    rfl

/-- Room that is used up afterwards can be set aside, and nothing moves. The
room asked for is there because the action that follows leaves as many pairs
more. -/
theorem reserve {count : Nat} {pending : List Pointer} {f : List Pointer → Action β} {b : β}
    (enough : cells.length + count ≤ cells'.length)
    (next : Gives program operations (f pending) cells b cells') :
    Gives program operations (Action.reserve count pending >>= f) cells b cells' where
  le := next.le
  runs := by
    intro memory bears room
    have available : count ≤ memory.heap.available := by
      simp only [PairHeap.available, bears.heap.used]
      omega
    obtain ⟨heap, ran, stores, capacity⟩ := next.runs memory bears room
    refine ⟨heap, ?_, stores, capacity⟩
    change EStateM.bind (Action.reserve count pending) f memory = _
    simp only [EStateM.bind, Action.reserve, Memory.reserve, if_pos available, ran]

theorem allocReserved (head tail : Pointer) (cells : Cells) :
    Gives program operations (Action.allocReserved head tail) cells (.pair cells.length)
      (cells ++ [(head, tail)]) where
  le := by simp
  runs := by
    intro memory bears room
    simp only [List.length_append, List.length_singleton] at room
    have available : 0 < memory.heap.available := by
      simp only [PairHeap.available, bears.heap.used]
      omega
    refine ⟨memory.heap.grown head tail, ?_, bears.heap.grown room head tail, rfl⟩
    rw [← bears.heap.used]
    change EStateM.bind (Action.onHeap (PairHeap.alloc head tail)) _ memory = _
    simp only [EStateM.bind, Action.onHeap, PairHeap.alloc_eq_grown bears.heap.toSized available]
    rfl

theorem setHead {a : Nat} {head tail : Pointer} (old : cells[a]? = some (head, tail)) (value : Pointer) :
    Gives program operations (Action.setHead (.pair a) value) cells () (cells.set a (value, tail)) where
  le := by simp
  runs := by
    intro memory bears _
    refine ⟨memory.heap.replaced a value tail, ?_, bears.heap.replaced old value tail, rfl⟩
    simp only [Action.setHead, Action.onHeap, PairHeap.setHead_eq_replaced (bears.heap.holds a head tail old)]
    rfl

theorem setTail {a : Nat} {head tail : Pointer} (old : cells[a]? = some (head, tail)) (value : Pointer) :
    Gives program operations (Action.setTail (.pair a) value) cells () (cells.set a (head, value)) where
  le := by simp
  runs := by
    intro memory bears _
    refine ⟨memory.heap.replaced a head value, ?_, bears.heap.replaced old head value, rfl⟩
    simp only [Action.setTail, Action.onHeap, PairHeap.setTail_eq_replaced (bears.heap.holds a head tail old)]
    rfl

theorem mapError {x : Action α} {a : α} (reword : Error → Error)
    (gives : Gives program operations x cells a cells') :
    Gives program operations (Action.mapError reword x) cells a cells' where
  le := gives.le
  runs := by
    intro memory bears room
    obtain ⟨heap, ran, stores, capacity⟩ := gives.runs memory bears room
    refine ⟨heap, ?_, stores, capacity⟩
    simp only [Action.mapError, ran]

end Gives

namespace Refuses

variable {causes : Error → Prop}

theorem bind {x : Action α} (refuses : Refuses program operations x cells causes) (f : α → Action β) :
    Refuses program operations (x >>= f) cells causes := by
  intro memory bears
  obtain ⟨cause, memory', failed, isCause⟩ := refuses memory bears
  refine ⟨cause, memory', ?_, isCause⟩
  change EStateM.bind x f memory = _
  simp only [EStateM.bind, failed]

theorem after {x : Action α} {f : α → Action β} {a : α} (gives : Gives program operations x cells a cells)
    (refuses : Refuses program operations (f a) cells causes) :
    Refuses program operations (x >>= f) cells causes := by
  intro memory bears
  obtain ⟨heap, ran, stores, _⟩ := gives.runs memory bears (bears.heap.used ▸ bears.heap.free)
  obtain ⟨cause, memory', failed, isCause⟩ := refuses (memory.withHeap heap) (bears.withHeap stores)
  refine ⟨cause, memory', ?_, isCause⟩
  change EStateM.bind x f memory = _
  simp only [EStateM.bind, ran, failed]

theorem inspect {f : Memory → Except Error α}
    (read : ∀ memory : Memory, memory.Bears program operations cells →
      ∃ cause, f memory = .error cause ∧ causes cause) :
    Refuses program operations (Action.inspect f) cells causes := by
  intro memory bears
  obtain ⟨cause, failed, isCause⟩ := read memory bears
  refine ⟨cause, memory, ?_, isCause⟩
  simp only [Action.inspect, failed]

theorem mapError {x : Action α} {reword : Error → Error}
    (refuses : Refuses program operations x cells fun cause => causes (reword cause)) :
    Refuses program operations (Action.mapError reword x) cells causes := by
  intro memory bears
  obtain ⟨cause, memory', failed, isCause⟩ := refuses memory bears
  refine ⟨reword cause, memory', ?_, isCause⟩
  simp only [Action.mapError, failed]

end Refuses

end Action

end ExplicitControl
