import ExplicitControl.Proofs.Memory.Plenty

namespace ExplicitControl

/-- A collection that succeeds is counted, so a counter that stands still
shows that there was none. -/
theorem PairHeap.collect_counted {heap after : PairHeap} {roots moved : List Pointer} {live : Nat}
    (collected : heap.collect roots = ⟨after, moved, .ok live⟩) :
    after.statistics.collections = heap.statistics.collections + 1 := by
  obtain ⟨active, spare, limit, capacity, statistics⟩ := heap
  simp only [PairHeap.collect] at collected
  split at collected
  · cases collected
  · split at collected
    · cases collected
    · cases collected
      rfl

/-- Room is set aside by a collection, which is counted, or nothing is done. -/
theorem Memory.reserve_quiet {memory after : Memory} {count : Nat} {pending moved : List Pointer}
    (reserved : memory.reserve count pending = ⟨after, moved, .ok ()⟩) :
    after = memory ∧ moved = pending ∨
      after.heap.statistics.collections = memory.heap.statistics.collections + 1 := by
  unfold Memory.reserve at reserved
  split at reserved
  · cases reserved
    exact .inl ⟨rfl, rfl⟩
  · right
    obtain ⟨heap, program, registers, ⟨items, pushes, maxDepth⟩, operations, journal⟩ := memory
    simp only [Memory.collect] at reserved
    generalize ran : heap.collect _ = collection at reserved
    obtain ⟨heap', roots, outcome⟩ := collection
    cases outcome with
    | error cause => cases reserved
    | ok live =>
      have counted := PairHeap.collect_counted ran
      simp only at reserved
      split at reserved
      · cases reserved
        exact counted
      · cases reserved

namespace Action

variable {α β : Type}

theorem bind_eq_ok_iff {x : Action α} {f : α → Action β} {memory after : Memory} {b : β} :
    (x >>= f) memory = .ok b after ↔ ∃ a between, x memory = .ok a between ∧ f a between = .ok b after := by
  change EStateM.bind x f memory = _ ↔ _
  unfold EStateM.bind
  cases x memory with
  | ok a between => simp
  | error cause failed => simp

theorem inspect_eq_ok_iff {f : Memory → Except Error α} {memory after : Memory} {a : α} :
    Action.inspect f memory = .ok a after ↔ f memory = .ok a ∧ after = memory := by
  unfold Action.inspect
  cases f memory with
  | ok value => simp [eq_comm]
  | error cause => simp

/-- An action that never collects. -/
def Quiet (action : Action α) : Prop :=
  ∀ memory value after, action memory = .ok value after →
    after.heap.statistics.collections = memory.heap.statistics.collections

namespace Quiet

theorem pure (value : α) : Quiet (Pure.pure value) := by
  intro memory value' after done
  cases done
  rfl

theorem bind {x : Action α} {f : α → Action β} (first : Quiet x) (next : ∀ a, Quiet (f a)) :
    Quiet (x >>= f) := by
  intro memory value after done
  obtain ⟨a, between, ran, done⟩ := bind_eq_ok_iff.mp done
  exact (next a _ _ _ done).trans (first _ _ _ ran)

theorem inspect (f : Memory → Except Error α) : Quiet (Action.inspect f) := by
  intro memory value after done
  rw [(inspect_eq_ok_iff.mp done).2]

theorem onHeap {change : EStateM HeapError PairHeap α}
    (counts : ∀ heap value after, change heap = .ok value after →
      after.statistics.collections = heap.statistics.collections) : Quiet (Action.onHeap change) := by
  intro memory value after done
  simp only [Action.onHeap] at done
  cases changed : change memory.heap with
  | ok value' heap =>
    rw [changed] at done
    cases done
    exact counts _ _ _ changed
  | error cause heap =>
    rw [changed] at done
    cases done

theorem allocReserved (head tail : Pointer) : Quiet (Action.allocReserved head tail) := by
  refine (onHeap ?_).bind fun _ => .pure _
  intro heap value after done
  simp only [PairHeap.alloc] at done
  split at done
  · cases done
  · split at done
    · cases done
      rfl
    · cases done

theorem setTail (pair value : Pointer) : Quiet (Action.setTail pair value) := by
  cases pair with
  | pair address =>
    refine onHeap ?_
    intro heap value' after done
    simp only [PairHeap.setTail] at done
    split at done
    · cases done
      rfl
    · cases done
  | _ => exact fun _ _ _ done => by cases done

theorem buildList (items : List Pointer) : Quiet (Action.buildList items) := by
  induction items with
  | nil => exact .pure _
  | cons item rest ih => exact ih.bind fun _ => .allocReserved _ _

theorem allocBindings (bindings : List Binding) : Quiet (Environment.allocBindings bindings) := by
  induction bindings with
  | nil => exact .pure _
  | cons binding rest ih => exact (allocReserved _ _).bind fun _ => ih.bind fun _ => .pure _

theorem push (bindings : List Binding) (enclosing : Pointer) : Quiet (Environment.push bindings enclosing) :=
  (allocBindings _).bind fun _ => (buildList _).bind fun _ => (buildList _).bind fun _ =>
    (allocReserved _ _).bind fun _ => .allocReserved _ _

theorem allocPrimitives (names : List String) : Quiet (Environment.allocPrimitives names) := by
  induction names with
  | nil => exact .pure _
  | cons name rest ih => exact (allocReserved _ _).bind fun _ => ih.bind fun _ => .pure _

/-- Linking a pair that has been allocated already to the end of a list never
collects. -/
theorem appendTo (list cell : Pointer) (moved : List Pointer) : Quiet (
    if list.isNull then return (⟨cell, moved⟩ : Applied)
    else do
      let last ← Action.inspect fun memory => memory.lastPair list (memory.heap.free + 1) list
      Action.setTail last cell
      return ⟨list, moved⟩) := by
  split
  · exact .pure _
  · exact (inspect _).bind fun _ => (setTail _ _).bind fun _ => .pure _

end Quiet

section

variable (program : ProgramHeap) (operations : OperationTable)

/-- Where an action succeeds without collecting, it has changed nothing but
the pairs, and what it gives can be read off the list of them. This goes from
what happened back to what was there, where `Gives` goes forward. -/
def Brings (action : Action α) (cells : Cells) (post : α → Cells → Prop) : Prop :=
  ∀ memory value after, memory.Bears program operations cells → action memory = .ok value after →
    after.heap.statistics.collections = 0 →
    ∃ cells', after = memory.withHeap after.heap ∧ after.heap.Stores cells' ∧ post value cells'

end

namespace Brings

variable {program : ProgramHeap} {operations : OperationTable} {cells : Cells} {post : α → Cells → Prop}
  {post' : β → Cells → Prop}

theorem mono {action : Action α} {post' : α → Cells → Prop} (brings : Brings program operations action cells post)
    (weaker : ∀ a cells', post a cells' → post' a cells') : Brings program operations action cells post' := by
  intro memory value after bears done quiet
  obtain ⟨cells', same, stores, holds⟩ := brings memory value after bears done quiet
  exact ⟨cells', same, stores, weaker _ _ holds⟩

theorem pure {value : α} (holds : post value cells) : Brings program operations (Pure.pure value) cells post := by
  intro memory value' after bears done _
  cases done
  exact ⟨cells, rfl, bears.heap, holds⟩

theorem throw (cause : Error) : Brings program operations (MonadExcept.throw cause : Action α) cells post :=
  fun _ _ _ _ done => by cases done

/-- What follows an action may not collect, so that nothing was collected in
between either: the counter of collections never goes down. -/
theorem bind {x : Action α} {f : α → Action β} (first : Brings program operations x cells post)
    (next : ∀ a cells', post a cells' → Brings program operations (f a) cells' post')
    (quiet : ∀ a, Quiet (f a)) : Brings program operations (x >>= f) cells post' := by
  intro memory value after bears done uncollected
  obtain ⟨a, between, ran, done⟩ := bind_eq_ok_iff.mp done
  have still := (quiet a _ _ _ done).symm.trans uncollected
  obtain ⟨cells', same, stores, holds⟩ := first memory a between bears ran still
  have bears' : between.Bears program operations cells' := by
    rw [same]
    exact bears.withHeap stores
  obtain ⟨cells'', same', stores', holds'⟩ := next a cells' holds between value after bears' done uncollected
  refine ⟨cells'', ?_, stores', holds'⟩
  rw [same', same]
  rfl

/-- What is looked up first changes nothing, whatever follows. -/
theorem inspect_bind {f : Memory → Except Error α} {g : α → Action β}
    (next : ∀ memory a, memory.Bears program operations cells → f memory = .ok a →
      Brings program operations (g a) cells post') :
    Brings program operations (Action.inspect f >>= g) cells post' := by
  intro memory value after bears done uncollected
  obtain ⟨a, between, ran, rest⟩ := bind_eq_ok_iff.mp done
  obtain ⟨found, rfl⟩ := inspect_eq_ok_iff.mp ran
  exact next _ a bears found _ value after bears rest uncollected

/-- Where nothing was collected, setting room aside has moved nothing, and the
pending pointers are those that were handed in. -/
theorem reserve_bind {count : Nat} {pending : List Pointer} {f : List Pointer → Action β}
    (next : Brings program operations (f pending) cells post') (quiet : ∀ moved, Quiet (f moved)) :
    Brings program operations (Action.reserve count pending >>= f) cells post' := by
  intro memory value after bears done uncollected
  obtain ⟨moved, between, ran, rest⟩ := bind_eq_ok_iff.mp done
  have still := (quiet moved _ _ _ rest).symm.trans uncollected
  simp only [Action.reserve] at ran
  split at ran
  · rename_i reserved
    cases ran
    rcases Memory.reserve_quiet reserved with ⟨rfl, rfl⟩ | counted
    · exact next _ value after bears rest uncollected
    · omega
  · cases ran

theorem allocReserved {head tail : Pointer} {post : Pointer → Cells → Prop}
    (holds : post (.pair cells.length) (cells ++ [(head, tail)])) :
    Brings program operations (Action.allocReserved head tail) cells post := by
  intro memory value after bears done _
  obtain ⟨a, between, ran, done⟩ := bind_eq_ok_iff.mp done
  cases done
  have room : cells.length < memory.heap.capacity := by
    by_contra full
    have used : memory.heap.free = memory.heap.capacity := by
      have inside := bears.heap.free
      rw [bears.heap.used] at inside ⊢
      omega
    simp only [Action.onHeap, PairHeap.alloc, used, if_true] at ran
    cases ran
  have available : 0 < memory.heap.available := by
    simp only [PairHeap.available, bears.heap.used]
    omega
  simp only [Action.onHeap, PairHeap.alloc_eq_grown bears.heap.toSized available] at ran
  cases ran
  rw [bears.heap.used]
  exact ⟨_, rfl, bears.heap.grown room head tail, holds⟩

theorem setHead {p value : Pointer} {post : Unit → Cells → Prop}
    (holds : ∀ a head tail, p = .pair a → cells[a]? = some (head, tail) → post () (cells.set a (value, tail))) :
    Brings program operations (Action.setHead p value) cells post := by
  intro memory done after bears ran _
  cases p with
  | pair a =>
    by_cases inside : a < cells.length
    · have found : cells[a]? = some (cells[a].1, cells[a].2) := List.getElem?_eq_getElem inside
      simp only [Action.setHead, Action.onHeap,
        PairHeap.setHead_eq_replaced (bears.heap.holds a _ _ found)] at ran
      cases ran
      exact ⟨_, rfl, bears.heap.replaced found _ _, holds a _ _ rfl found⟩
    · have beyond : memory.heap.slot a = .error (.fault .pair a memory.heap.free) := by
        rw [PairHeap.slot, if_neg (bears.heap.used ▸ inside)]
      simp only [Action.setHead, Action.onHeap, PairHeap.setHead, beyond] at ran
      cases ran
  | scalar value => cases ran
  | program a => cases ran

theorem setTail {p value : Pointer} {post : Unit → Cells → Prop}
    (holds : ∀ a head tail, p = .pair a → cells[a]? = some (head, tail) → post () (cells.set a (head, value))) :
    Brings program operations (Action.setTail p value) cells post := by
  intro memory done after bears ran _
  cases p with
  | pair a =>
    by_cases inside : a < cells.length
    · have found : cells[a]? = some (cells[a].1, cells[a].2) := List.getElem?_eq_getElem inside
      simp only [Action.setTail, Action.onHeap,
        PairHeap.setTail_eq_replaced (bears.heap.holds a _ _ found)] at ran
      cases ran
      exact ⟨_, rfl, bears.heap.replaced found _ _, holds a _ _ rfl found⟩
    · have beyond : memory.heap.slot a = .error (.fault .pair a memory.heap.free) := by
        rw [PairHeap.slot, if_neg (bears.heap.used ▸ inside)]
      simp only [Action.setTail, Action.onHeap, PairHeap.setTail, beyond] at ran
      cases ran
  | scalar value => cases ran
  | program a => cases ran

theorem mapError {reword : Error → Error} {action : Action α}
    (brings : Brings program operations action cells post) :
    Brings program operations (Action.mapError reword action) cells post := by
  intro memory value after bears done uncollected
  simp only [Action.mapError] at done
  cases ran : action memory with
  | ok value' between =>
    rw [ran] at done
    cases done
    exact brings memory _ _ bears ran uncollected
  | error cause failed =>
    rw [ran] at done
    cases done

end Brings

end Action

/-- A heap has one list of pairs. -/
theorem PairHeap.Stores.unique {heap : PairHeap} {cells cells' : Cells} (one : heap.Stores cells)
    (other : heap.Stores cells') : cells = cells' := by
  refine List.ext_getElem? fun a => ?_
  by_cases inside : a < cells.length
  · have found : cells[a]? = some (cells[a].1, cells[a].2) := List.getElem?_eq_getElem inside
    rw [found, other.getElem?_of_holds (one.holds a _ _ found)]
  · have same : cells'.length = cells.length := other.used.symm.trans one.used
    rw [List.getElem?_eq_none (Nat.le_of_not_lt inside), List.getElem?_eq_none (same ▸ Nat.le_of_not_lt inside)]

/-- What is read off a memory is there in the list of its pairs. -/
theorem Memory.Bears.of_head {program : ProgramHeap} {operations : OperationTable} {cells : Cells} {memory : Memory}
    {p value : Pointer} (bears : memory.Bears program operations cells) (read : memory.head p = .ok value) :
    ∃ a tail, p = .pair a ∧ cells[a]? = some (value, tail) := by
  cases p with
  | pair a =>
    simp only [Memory.head] at read
    cases found : memory.heap.head a with
    | error cause => rw [found] at read; cases read
    | ok head =>
      rw [found] at read
      cases read
      obtain ⟨tail, holds⟩ := PairHeap.head_eq_ok_iff.mp found
      exact ⟨a, tail, rfl, bears.heap.getElem?_of_holds holds⟩
  | scalar value => cases read
  | program a => cases read

theorem Memory.Bears.of_tail {program : ProgramHeap} {operations : OperationTable} {cells : Cells} {memory : Memory}
    {p value : Pointer} (bears : memory.Bears program operations cells) (read : memory.tail p = .ok value) :
    ∃ a head, p = .pair a ∧ cells[a]? = some (head, value) := by
  cases p with
  | pair a =>
    by_cases inside : a < cells.length
    · have found : cells[a]? = some (cells[a].1, cells[a].2) := List.getElem?_eq_getElem inside
      rw [bears.tail_eq found] at read
      cases read
      exact ⟨a, _, rfl, found⟩
    · simp only [Memory.tail, PairHeap.tail, PairHeap.slot, if_neg (bears.heap.used ▸ inside : ¬ a < memory.heap.free)]
        at read
      cases read
  | scalar value => cases read
  | program a => cases read

end ExplicitControl
