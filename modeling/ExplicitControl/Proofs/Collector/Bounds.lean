import ExplicitControl.Proofs.Collector.Recovery

namespace ExplicitControl

namespace Evacuation

variable {heap : PairHeap} {order : List Nat} {e : Evacuation}

/-- A scan of any number of slots stops at a reference out of the heap, or has
finished some of the copies. It need not have been given enough steps to
finish them all, since a collection is to be bounded at every stage and not
only at its end. -/
theorem scan_copied (sized : heap.Sized) (fuel : Nat) {slot : Nat} (copied : Copied heap order slot e)
    (slotLe : slot ≤ order.length) :
    (∃ b e', scan slot fuel e = .error (.fault .pair b heap.free) e' ∧ ∃ kept last, Copied heap kept last e') ∨
    (∃ e', scan slot fuel e = .ok () e' ∧ ∃ kept last, Copied heap kept last e') := by
  induction fuel generalizing slot order e with
  | zero => exact .inr ⟨e, rfl, order, slot, copied⟩
  | succ fuel ih =>
    by_cases more : slot < order.length
    · have entry : order[slot]? = some order[slot] := List.getElem?_eq_getElem more
      obtain ⟨head, tail, holds, _⟩ := copied.waiting slot _ le_rfl entry
      have step : scan slot (fuel + 1) e = (do scanSlot slot; scan (slot + 1) fuel) e := by
        rw [scan_succ, copied.next, if_pos more]
      rw [step]
      rcases scanSlot_cases sized copied entry holds with
        ⟨b, e', _, _, failed, kept, copied'⟩ | ⟨added, e', scanned, copied', _⟩
      · exact .inl ⟨b, e', by simp only [bind, EStateM.bind, failed], kept, slot, copied'⟩
      · have resumed : (do scanSlot slot; scan (slot + 1) fuel) e = scan (slot + 1) fuel e' := by
          simp only [bind, EStateM.bind, scanned]
        have further : slot + 1 ≤ (order ++ added).length := by
          rw [List.length_append]
          omega
        rw [resumed]
        exact ih copied' further
    · have ended : scan slot (fuel + 1) e = .ok () e := by
        rw [scan_succ, copied.next, if_neg more]
        rfl
      exact .inr ⟨e, ended, order, slot, copied⟩

end Evacuation

namespace PairHeap

/-- Anything that a heap can be asked: a call that changes it, or a question. -/
inductive Request where
  | change (call : Call)
  | readHead (address : Nat)
  | readTail (address : Nat)
  | check

namespace Request

/-- The heap after a request. A question leaves it as it is. -/
def run (heap : PairHeap) : Request → PairHeap
  | .change call => call.run heap
  | _ => heap

/-- The request is answered by an error. -/
def Fails (heap : PairHeap) (cause : HeapError) : Request → Prop
  | .change (.alloc head tail) => ∃ after, PairHeap.alloc head tail heap = .error cause after
  | .change (.setHead address value) => ∃ after, PairHeap.setHead address value heap = .error cause after
  | .change (.setTail address value) => ∃ after, PairHeap.setTail address value heap = .error cause after
  | .change (.collect roots) => (heap.collect roots).outcome = .error cause
  | .change .reset => False
  | .change (.resize _) => False
  | .readHead address => heap.head address = .error cause
  | .readTail address => heap.tail address = .error cause
  | .check => heap.check = .error cause

end Request

/-- How far a collection has come once it has relocated the roots and scanned
so many of the copies, and what has stopped it, if anything has. -/
def evacuate (heap : PairHeap) (roots : List Pointer) (count : Nat) : Except HeapError Unit × Evacuation :=
  match Evacuation.relocateRoots [] roots ⟨heap.active, heap.spare, heap.free, 0⟩ with
  | (.error fault, _, stopped) => (.error fault, stopped)
  | (.ok (), _, rooted) =>
    match Evacuation.scan 0 count rooted with
    | .error fault stopped => (.error fault, stopped)
    | .ok () scanned => (.ok (), scanned)

variable {heap : PairHeap} {roots : List Pointer} {address count : Nat} {cause : HeapError}

/-- A collection is an evacuation of which as many copies are scanned as pairs
were in use. An evacuation with fewer scans is a stage on the way to it. -/
theorem collect_outcome_eq : (heap.collect roots).outcome =
    (heap.evacuate roots heap.free).1.map fun () => (heap.evacuate roots heap.free).2.next := by
  unfold collect evacuate
  obtain ⟨active, spare, free, capacity, statistics⟩ := heap
  simp only
  rcases Evacuation.relocateRoots [] roots ⟨active, spare, free, 0⟩ with ⟨fault | ⟨⟨⟩⟩, roots', e⟩
  · rfl
  · simp only
    rcases Evacuation.scan 0 free e with ⟨⟨⟩, e'⟩ | ⟨fault, e'⟩ <;> rfl

/-- Wherever an evacuation stands, it has copied distinct pairs in use, and
only a reference out of the heap can have stopped it. The copies are therefore
no more than the pairs that were in use. -/
theorem evacuate_copied (sized : heap.Sized) (roots : List Pointer) (count : Nat) :
    (∃ kept last, Evacuation.Copied heap kept last (heap.evacuate roots count).2) ∧
      ∀ cause, (heap.evacuate roots count).1 = .error cause → ∃ b, cause = .fault .pair b heap.free := by
  rcases Evacuation.relocateRoots_cases sized (Evacuation.Copied.start heap) roots [] with
    ⟨b, roots', e', _, _, failed, kept, copied⟩ | ⟨rooted, e₁, moved, copied₁, _, _⟩
  · have stopped : heap.evacuate roots count = (.error (.fault .pair b heap.free), e') := by
      rw [evacuate, failed]
    rw [stopped]
    exact ⟨⟨kept, 0, copied⟩, fun cause same => ⟨b, (Except.error.inj same).symm⟩⟩
  · rcases Evacuation.scan_copied sized count copied₁ (Nat.zero_le _) with
      ⟨b, e', failed, copied⟩ | ⟨e', scanned, copied⟩
    · have stopped : heap.evacuate roots count = (.error (.fault .pair b heap.free), e') := by
        rw [evacuate, moved]
        simp only [failed]
      rw [stopped]
      exact ⟨copied, fun cause same => ⟨b, (Except.error.inj same).symm⟩⟩
    · have underway : heap.evacuate roots count = (.ok (), e') := by
        rw [evacuate, moved]
        simp only [scanned]
      rw [underway]
      exact ⟨copied, fun cause same => by cases same⟩

section

/-- Where both regions have the size of the capacity, reading a slot fails
only at or above the free address: a slot below it is never missing from the
region. -/
theorem Sized.slot_error (sized : heap.Sized) (failed : heap.slot address = .error cause) :
    cause = .fault .pair address heap.free := by
  unfold slot at failed
  by_cases inUse : address < heap.free
  · have inside : address < heap.active.size := sized.active ▸ Nat.lt_of_lt_of_le inUse sized.free
    rw [if_pos inUse, Array.getElem?_eq_getElem inside] at failed
    cases failed
  · rw [if_neg inUse] at failed
    exact (Except.error.inj failed).symm

theorem Sized.head_error (sized : heap.Sized) (failed : heap.head address = .error cause) :
    cause = .fault .pair address heap.free := by
  unfold PairHeap.head at failed
  cases read : heap.slot address with
  | error fault =>
    simp only [read, bind, Except.bind] at failed
    cases failed
    exact sized.slot_error read
  | ok slot =>
    obtain ⟨head | target, tail⟩ := slot
    · simp only [read, bind, Except.bind] at failed
      cases failed
    · simp only [read, bind, Except.bind] at failed
      exact (Except.error.inj failed).symm

theorem Sized.tail_error (sized : heap.Sized) (failed : heap.tail address = .error cause) :
    cause = .fault .pair address heap.free := by
  unfold PairHeap.tail at failed
  cases read : heap.slot address with
  | error fault =>
    simp only [read, bind, Except.bind] at failed
    cases failed
    exact sized.slot_error read
  | ok slot =>
    simp only [read, bind, Except.bind] at failed
    cases failed

theorem checkPointer_error {p : Pointer} (failed : heap.checkPointer p = .error cause) :
    ∃ a, cause = .fault .pair a heap.free := by
  cases p with
  | pair a =>
    by_cases inUse : a < heap.free
    · simp only [checkPointer, if_pos inUse] at failed
      cases failed
    · simp only [checkPointer, if_neg inUse] at failed
      exact ⟨a, (Except.error.inj failed).symm⟩
  | scalar s => cases failed
  | program a => cases failed

theorem Sized.checkSlot_error (sized : heap.Sized) (failed : heap.checkSlot address = .error cause) :
    ∃ a, cause = .fault .pair a heap.free := by
  unfold checkSlot at failed
  cases headRead : heap.head address with
  | error fault =>
    simp only [headRead, bind, Except.bind] at failed
    cases failed
    exact ⟨address, sized.head_error headRead⟩
  | ok head =>
    cases headChecked : heap.checkPointer head with
    | error fault =>
      simp only [headRead, headChecked, bind, Except.bind] at failed
      cases failed
      exact checkPointer_error headChecked
    | ok _ =>
      cases tailRead : heap.tail address with
      | error fault =>
        simp only [headRead, headChecked, tailRead, bind, Except.bind] at failed
        cases failed
        exact ⟨address, sized.tail_error tailRead⟩
      | ok tail =>
        simp only [headRead, headChecked, tailRead, bind, Except.bind] at failed
        exact checkPointer_error failed

theorem Sized.checkFrom_error (sized : heap.Sized) (failed : heap.checkFrom address count = .error cause) :
    ∃ a, cause = .fault .pair a heap.free := by
  induction count generalizing address with
  | zero => cases failed
  | succ count ih =>
    rw [checkFrom] at failed
    cases checked : heap.checkSlot address with
    | error fault =>
      rw [checked] at failed
      exact sized.checkSlot_error (checked.trans failed)
    | ok _ =>
      rw [checked] at failed
      exact ih failed

theorem Sized.alloc_error (sized : heap.Sized) {head tail : Pointer} {after : PairHeap}
    (failed : alloc head tail heap = .error cause after) : cause = .exhausted heap.capacity heap.free := by
  obtain ⟨active, spare, free, capacity, statistics⟩ := heap
  by_cases full : free = capacity
  · simp only [alloc, if_pos full] at failed
    cases failed
    rfl
  · have inside : free < active.size := sized.active ▸ Nat.lt_of_le_of_ne sized.free full
    simp only [alloc, if_neg full, if_pos inside] at failed
    cases failed

end

/-- A request fails for want of room, or at an address where no pair is. An
overrun, which is what reading or writing beyond the end of a region would
give, is not among the errors. -/
theorem Request.fails_expectedly (sized : heap.Sized) {request : Request} (failed : request.Fails heap cause) :
    cause = .exhausted heap.capacity heap.free ∨ ∃ a, cause = .fault .pair a heap.free := by
  cases request with
  | change call =>
    cases call with
    | alloc head tail =>
      obtain ⟨after, failed⟩ := failed
      exact .inl (sized.alloc_error failed)
    | setHead address value =>
      obtain ⟨after, failed⟩ := failed
      unfold PairHeap.setHead at failed
      cases read : heap.slot address with
      | ok slot =>
        rw [read] at failed
        cases failed
      | error fault =>
        rw [read] at failed
        cases failed
        exact .inr ⟨address, sized.slot_error read⟩
    | setTail address value =>
      obtain ⟨after, failed⟩ := failed
      unfold PairHeap.setTail at failed
      cases read : heap.slot address with
      | ok slot =>
        rw [read] at failed
        cases failed
      | error fault =>
        rw [read] at failed
        cases failed
        exact .inr ⟨address, sized.slot_error read⟩
    | collect roots =>
      have stopped : (heap.collect roots).outcome = .error cause := failed
      rcases gather_cases sized roots with ⟨b, _, _, outcome, _⟩ | ⟨order, gathered⟩
      · exact .inr ⟨b, Except.error.inj (stopped.symm.trans outcome)⟩
      · cases stopped.symm.trans gathered.outcome
    | reset => exact failed.elim
    | resize capacity => exact failed.elim
  | readHead address => exact .inr ⟨address, sized.head_error failed⟩
  | readTail address => exact .inr ⟨address, sized.tail_error failed⟩
  | check => exact .inr (sized.checkFrom_error failed)

/-- Every request, a collection that fails included, leaves both regions as
large as the capacity and the free address within it. -/
theorem Request.run_sized (sized : heap.Sized) (request : Request) : (request.run heap).Sized := by
  cases request with
  | change call => exact call.run_sized sized
  | readHead address => exact sized
  | readTail address => exact sized
  | check => exact sized

theorem sized_foldl_run (sized : heap.Sized) (requests : List Request) : (requests.foldl Request.run heap).Sized := by
  induction requests generalizing heap with
  | nil => exact sized
  | cons request rest ih => exact ih (request.run_sized sized)

/-- A heap stays inside its regions whatever it is asked next. -/
structure Contained (heap : PairHeap) : Prop where
  /-- Both regions have the size of the capacity, and no more pairs are in
  use. -/
  sized : heap.Sized
  /-- The pairs in use and the room left make up the capacity. -/
  room : heap.free + heap.available = heap.capacity
  /-- A request fails for want of room, or at an address where no pair is. It
  never touches a slot beyond the end of a region. -/
  fails : ∀ (request : Request) (cause : HeapError), request.Fails heap cause →
    cause = .exhausted heap.capacity heap.free ∨ ∃ a, cause = .fault .pair a heap.free
  /-- However far a collection gets, nothing but a reference out of the heap
  stops it. It finds every slot that it reads or copies to, and writes a copy
  back to the slot that it has just read. -/
  stopped : ∀ (roots : List Pointer) (count : Nat) (cause : HeapError),
    (heap.evacuate roots count).1 = .error cause → ∃ a, cause = .fault .pair a heap.free
  /-- Both regions keep their size meanwhile, and no more pairs are copied than
  are in use, so that the slots of the copies are inside. -/
  underway : ∀ (roots : List Pointer) (count : Nat),
    (heap.evacuate roots count).2.source.size = heap.capacity ∧
      (heap.evacuate roots count).2.target.size = heap.capacity ∧
      (heap.evacuate roots count).2.next ≤ heap.free
  /-- Nor does it leave more. -/
  copies : ∀ (roots : List Pointer) (live : Nat), (heap.collect roots).outcome = .ok live →
    (heap.collect roots).heap.free = live ∧ live ≤ heap.free

theorem Sized.contained (sized : heap.Sized) : heap.Contained where
  sized := sized
  room := Nat.add_sub_of_le sized.free
  fails := fun _ _ => Request.fails_expectedly sized
  stopped := fun roots count => (evacuate_copied sized roots count).2
  underway := by
    intro roots count
    obtain ⟨kept, last, copied⟩ := (evacuate_copied sized roots count).1
    have bound : (heap.evacuate roots count).2.next ≤ heap.free := copied.next ▸ copied.length_le
    exact ⟨copied.sourceSize.trans sized.active, copied.targetSize.trans sized.spare, bound⟩
  copies := by
    intro roots live ended
    rcases gather_cases sized roots with ⟨_, _, _, failed, _⟩ | ⟨order, gathered⟩
    · cases failed.symm.trans ended
    have kept : order.length = live := Except.ok.inj (gathered.outcome.symm.trans ended)
    obtain ⟨_, _, copied⟩ := (evacuate_copied sized roots heap.free).1
    have bound : (heap.evacuate roots heap.free).2.next ≤ heap.free := copied.next ▸ copied.length_le
    have counted : (heap.evacuate roots heap.free).2.next = live := by
      rw [collect_outcome_eq] at ended
      cases finished : (heap.evacuate roots heap.free).1 with
      | error fault =>
        rw [finished] at ended
        cases ended
      | ok _ =>
        rw [finished] at ended
        exact Except.ok.inj ended
    exact ⟨gathered.free.trans kept, counted ▸ bound⟩

/-- Whatever a heap has been asked since it was empty, failing collections
among it, it stays inside its regions: both have the size of its capacity,
nothing it can be asked next ends with an overrun, and no collection, however
far it gets, copies more pairs than were in use. -/
theorem requests_contained (capacity : Nat) (requests : List Request) :
    (requests.foldl Request.run (empty capacity)).Contained :=
  (sized_foldl_run (sized_empty capacity) requests).contained

/-- A pair that a failed collection has moved away is not copied again. -/
example : (interrupted.evacuate [.pair 0, .pair 1] 2).2.next = 1 := rfl

end PairHeap

end ExplicitControl
