import ExplicitControl.Proofs.Collector.Compaction
import ExplicitControl.Proofs.Memory.Update

namespace ExplicitControl

/-- The check of the heap succeeds, and the roots refer to pairs in use only. -/
def Collection.Sound (result : Collection) : Prop :=
  result.heap.check = .ok () ∧ ∀ a, .pair a ∈ result.roots → a < result.heap.free

namespace PairHeap

/-- A call that changes a heap. -/
inductive Call where
  | alloc (head tail : Pointer)
  | setHead (address : Nat) (value : Pointer)
  | setTail (address : Nat) (value : Pointer)
  | collect (roots : List Pointer)
  | reset
  | resize (capacity : Nat)

/-- What a change leaves of a heap, whether it succeeds or not. -/
def left {α : Type} (change : EStateM HeapError PairHeap α) (heap : PairHeap) : PairHeap :=
  match change heap with
  | .ok _ after => after
  | .error _ after => after

namespace Call

/-- The heap after a call, whether it succeeds or not. -/
def run (heap : PairHeap) : Call → PairHeap
  | .alloc head tail => left (PairHeap.alloc head tail) heap
  | .setHead address value => left (PairHeap.setHead address value) heap
  | .setTail address value => left (PairHeap.setTail address value) heap
  | .collect roots => (heap.collect roots).heap
  | .reset => heap.reset
  | .resize capacity => heap.resize capacity

/-- Whether a collection has failed and left its marks, after a call. -/
def tears (heap : PairHeap) (torn : Bool) : Call → Bool
  | .collect roots => !(heap.collect roots).outcome.isOk
  | .reset => false
  | .resize _ => false
  | _ => torn

end Call

/-- The heaps that calls lead to from an empty one, and whether a collection
has failed since the last one that succeeded or since the heap was emptied. A
collection that fails leaves marks behind, and a later one that meets such a
mark follows it. -/
inductive Reached : PairHeap → Bool → Prop
  | empty (capacity : Nat) : Reached (empty capacity) false
  | call {heap torn} (call : Call) : Reached heap torn → Reached (call.run heap) (call.tears heap torn)

variable {heap : PairHeap} {roots : List Pointer} {order : List Nat} {result : Collection}

section

variable {address : Nat} {value : Pointer} {slot : Slot}

/-- An allocation that fails leaves the heap as it was; otherwise there was
room for one more pair, and the heap has grown by it. -/
theorem left_alloc (sized : heap.Sized) (head tail : Pointer) :
    left (alloc head tail) heap = heap ∨
      0 < heap.available ∧ left (alloc head tail) heap = heap.grown head tail := by
  by_cases room : 0 < heap.available
  · exact .inr ⟨room, by rw [left, alloc_eq_grown sized room]⟩
  · have full : heap.free = heap.capacity := by
      have bound := sized.free
      simp only [available] at room
      omega
    left
    obtain ⟨active, spare, free, capacity, statistics⟩ := heap
    simp only [left, alloc, if_pos full]

theorem left_setHead : left (setHead address value) heap = heap ∨
    ∃ slot : Slot, left (setHead address value) heap = heap.setSlot address { slot with head := .value value } := by
  cases read : heap.slot address with
  | ok slot => exact .inr ⟨slot, by simp only [left, setHead, read]⟩
  | error fault => exact .inl (by simp only [left, setHead, read])

theorem left_setTail : left (setTail address value) heap = heap ∨
    ∃ slot : Slot, heap.slot address = .ok slot ∧
      left (setTail address value) heap = heap.setSlot address { slot with tail := value } := by
  cases read : heap.slot address with
  | ok slot => exact .inr ⟨slot, rfl, by simp only [left, setTail, read]⟩
  | error fault => exact .inl (by simp only [left, setTail, read])

theorem Sized.setSlot (sized : heap.Sized) (address : Nat) (slot : Slot) : (heap.setSlot address slot).Sized :=
  ⟨Array.size_setIfInBounds.trans sized.active, sized.spare, sized.free⟩

theorem Plain.grown (plain : heap.Plain) (sized : heap.Sized) (room : 0 < heap.available) (head tail : Pointer) :
    (heap.grown head tail).Plain := by
  intro a inUse
  rcases Nat.lt_succ_iff_lt_or_eq.mp inUse with old | rfl
  · obtain ⟨_, _, holds⟩ := plain a old
    exact ⟨_, _, holds.grown⟩
  · exact ⟨_, _, holds_grown_new sized room⟩

theorem Plain.setSlot (plain : heap.Plain) {head : Pointer} (whole : slot.head = .value head) :
    (heap.setSlot address slot).Plain := by
  intro a inUse
  obtain ⟨oldHead, oldTail, _, stored⟩ := plain a inUse
  by_cases same : address = a
  · refine ⟨head, slot.tail, inUse, ?_⟩
    have inside : a < heap.active.size := (Array.getElem?_eq_some_iff.mp stored).1
    rw [PairHeap.setSlot, same, Array.getElem?_setIfInBounds_self_of_lt inside, ← whole]
  · refine ⟨oldHead, oldTail, inUse, ?_⟩
    rw [PairHeap.setSlot, Array.getElem?_setIfInBounds_ne same]
    exact stored

theorem Plain.exists_head (plain : heap.Plain) (read : heap.slot address = .ok slot) :
    ∃ head, slot.head = .value head := by
  unfold PairHeap.slot at read
  split at read
  · obtain ⟨head, tail, _, stored⟩ := plain address ‹_›
    rw [stored] at read
    cases read
    exact ⟨head, rfl⟩
  · cases read

theorem sized_empty (capacity : Nat) : (empty capacity).Sized :=
  ⟨Array.size_replicate, Array.size_replicate, Nat.zero_le _⟩

end

theorem Gathered.plain (gathered : Gathered heap roots order result) : result.heap.Plain := by
  intro i inUse
  rw [gathered.free] at inUse
  obtain ⟨_, _, _, holds⟩ := gathered.moved _ (List.getElem_mem inUse)
  rw [gathered.nodup.idxOf_getElem i inUse] at holds
  exact ⟨_, _, holds⟩

theorem Call.run_sized (sized : heap.Sized) (call : Call) : (call.run heap).Sized := by
  cases call with
  | alloc head tail =>
    rcases left_alloc sized head tail with same | ⟨room, grown⟩
    · rw [run, same]
      exact sized
    · rw [run, grown]
      exact sized.grown room head tail
  | setHead address value =>
    rcases left_setHead with same | ⟨slot, set⟩
    · rw [run, same]
      exact sized
    · rw [run, set]
      exact sized.setSlot address _
  | setTail address value =>
    rcases left_setTail with same | ⟨slot, _, set⟩
    · rw [run, same]
      exact sized
    · rw [run, set]
      exact sized.setSlot address _
  | collect roots =>
    rcases gather_cases sized roots with ⟨_, _, _, _, after⟩ | ⟨_, gathered⟩
    · exact after
    · exact gathered.sized
  | reset => exact ⟨sized.active, sized.spare, Nat.zero_le _⟩
  | resize capacity => exact ⟨(sized_empty capacity).active, (sized_empty capacity).spare, Nat.zero_le _⟩

/-- As long as no collection has failed, no pair in use is left marked. A
collection that succeeds leaves none either, so failing once is made good by
the next success. -/
theorem Call.run_plain (sized : heap.Sized) {torn : Bool} (plain : torn = false → heap.Plain) (call : Call)
    (whole : call.tears heap torn = false) : (call.run heap).Plain := by
  cases call with
  | alloc head tail =>
    rcases left_alloc sized head tail with same | ⟨room, grown⟩
    · rw [run, same]
      exact plain whole
    · rw [run, grown]
      exact (plain whole).grown sized room head tail
  | setHead address value =>
    rcases left_setHead with same | ⟨slot, set⟩
    · rw [run, same]
      exact plain whole
    · rw [run, set]
      exact (plain whole).setSlot rfl
  | setTail address value =>
    rcases left_setTail with same | ⟨slot, read, set⟩
    · rw [run, same]
      exact plain whole
    · obtain ⟨head, whole'⟩ := (plain whole).exists_head read
      rw [run, set]
      exact (plain whole).setSlot whole'
  | collect roots =>
    rcases gather_cases sized roots with ⟨_, _, _, failed, _⟩ | ⟨_, gathered⟩
    · rw [tears, failed] at whole
      cases whole
    · exact gathered.plain
  | reset => exact fun a inUse => absurd inUse (Nat.not_lt_zero a)
  | resize capacity => exact fun a inUse => absurd inUse (Nat.not_lt_zero a)

/-- Both regions keep their size, and marks are met only where a collection
has failed. This is the invariant of all the heaps that calls lead to, carried
by one lemma for each call. -/
theorem Reached.sized_plain {torn : Bool} (reached : Reached heap torn) :
    heap.Sized ∧ (torn = false → heap.Plain) := by
  induction reached with
  | empty capacity => exact ⟨sized_empty capacity, fun _ a inUse => absurd inUse (Nat.not_lt_zero a)⟩
  | call call _ ih => exact ⟨call.run_sized ih.1, call.run_plain ih.1 ih.2⟩

/-- A reference to a pair is followed to a pair that is kept, or to where a
mark leads. Only the second can go wrong: a mark is an address in a region
that has been given up since. -/
theorem Gathered.forward_below (gathered : Gathered heap roots order result)
    (marks : ∀ a target, heap.Reaches roots a → heap.mark? a = some target → target < order.length) {p : Pointer}
    (reaches : ∀ a, p = .pair a → heap.Reaches roots a) : (heap.forward order p).Below order.length := by
  cases p with
  | pair a =>
    cases marked : heap.mark? a with
    | none =>
      have member := (gathered.reached a).mpr ⟨reaches a rfl, marked⟩
      simpa only [forward, Pointer.rename, marked, Option.getD_none, Pointer.Below] using
        List.idxOf_lt_length_of_mem member
    | some target =>
      simpa only [forward, Pointer.rename, marked, Option.getD_some, Pointer.Below] using
        marks a target (reaches a rfl) marked
  | scalar s => trivial
  | program a => trivial

/-- What a successful collection leaves is sound exactly when each mark that
it meets leads to one of the pairs it keeps. A mark that leads further makes a
root or a copy dangle, and nothing later repairs it. -/
theorem Gathered.sound_iff (gathered : Gathered heap roots order result) :
    result.Sound ↔ ∀ a target, heap.Reaches roots a → heap.mark? a = some target → target < order.length := by
  constructor
  · rintro ⟨checked, below⟩ a target reaches marked
    have followed : heap.forward order (.pair a) = .pair target := by
      simp only [forward, Pointer.rename, marked, Option.getD_some]
    have whole := check_eq_ok_iff.mp checked
    rw [gathered.free] at below whole
    cases reaches with
    | root member =>
      refine below target ?_
      rw [gathered.roots, ← followed]
      exact List.mem_map_of_mem member
    | head reachesB holds =>
      have member := (gathered.reached _).mpr ⟨reachesB, holds.mark?_eq⟩
      obtain ⟨_, _, holds', moved⟩ := gathered.moved _ member
      obtain ⟨_, _, moved', headBelow, _⟩ := whole _ (List.idxOf_lt_length_of_mem member)
      rw [← (holds.unique holds').1, followed] at moved
      rw [← (moved.unique moved').1] at headBelow
      exact headBelow
    | tail reachesB holds =>
      have member := (gathered.reached _).mpr ⟨reachesB, holds.mark?_eq⟩
      obtain ⟨_, _, holds', moved⟩ := gathered.moved _ member
      obtain ⟨_, _, moved', _, tailBelow⟩ := whole _ (List.idxOf_lt_length_of_mem member)
      rw [← (holds.unique holds').2, followed] at moved
      rw [← (moved.unique moved').2] at tailBelow
      exact tailBelow
  · intro marks
    refine ⟨check_eq_ok_iff.mpr fun i inUse => ?_, fun a member => ?_⟩
    · rw [gathered.free] at inUse ⊢
      have inOrder := List.getElem_mem inUse
      have reaches := ((gathered.reached _).mp inOrder).1
      obtain ⟨head, tail, holds, moved⟩ := gathered.moved _ inOrder
      rw [gathered.nodup.idxOf_getElem i inUse] at moved
      refine ⟨_, _, moved, gathered.forward_below marks ?_, gathered.forward_below marks ?_⟩
      · rintro b rfl
        exact .head reaches holds
      · rintro b rfl
        exact .tail reaches holds
    · rw [gathered.roots] at member
      obtain ⟨p, isRoot, followed⟩ := List.mem_map.mp member
      have below := gathered.forward_below (p := p) marks fun b isPair => .root (isPair ▸ isRoot)
      rw [followed] at below
      exact gathered.free ▸ below

/-- A collection that succeeds, after any calls, leaves a sound heap exactly
when each mark that it meets leads to one of the pairs it keeps. There are no
marks to be met unless a collection has failed since the last one that
succeeded or since the heap was emptied. -/
theorem collect_sound_iff {torn : Bool} (reached : Reached heap torn) {live : Nat}
    (ended : (heap.collect roots).outcome = .ok live) :
    ((heap.collect roots).Sound ↔
      ∀ a target, heap.Reaches roots a → heap.mark? a = some target → target < live) ∧
      (torn = false → (heap.collect roots).Sound) := by
  obtain ⟨sized, plain⟩ := reached.sized_plain
  rcases gather_cases sized roots with ⟨_, _, _, failed, _⟩ | ⟨order, gathered⟩
  · rw [failed] at ended
    cases ended
  have kept : order.length = live := Except.ok.inj (gathered.outcome.symm.trans ended)
  rw [← kept]
  refine ⟨gathered.sound_iff, fun whole => gathered.sound_iff.mpr fun a target reaches marked => ?_⟩
  obtain ⟨_, _, holds⟩ := plain whole a (gathered.inside a reaches)
  rw [holds.mark?_eq] at marked
  cases marked

/-- Two pairs, and a collection that fails after it has moved one of them. -/
def interrupted : PairHeap :=
  [.alloc .null .null, .alloc .null .null, .collect [.pair 0, .pair 9]].foldl Call.run (empty 2)

theorem reached_interrupted : Reached interrupted true :=
  .call (.collect [.pair 0, .pair 9]) (.call (.alloc .null .null) (.call (.alloc .null .null) (.empty 2)))

/-- The mark leads to a pair that is kept, although to another one than the
root referred to. What is left is sound all the same, and the law promises no
more. -/
theorem collect_interrupted_sound :
    Reached interrupted true ∧ interrupted.mark? 0 = some 0 ∧
      (interrupted.collect [.pair 1, .pair 0]).outcome = .ok 1 ∧ (interrupted.collect [.pair 1, .pair 0]).Sound := by
  have ended : (interrupted.collect [.pair 1, .pair 0]).outcome = .ok 1 := rfl
  refine ⟨reached_interrupted, rfl, ended, (collect_sound_iff reached_interrupted ended).1.mpr ?_⟩
  intro a target reaches marked
  have inUse : a ∈ [1, 0] := by
    refine reaches.subset_of_closed (by simp [Pointer.Within]) fun b member head tail holds => ?_
    simp only [List.mem_cons, List.not_mem_nil, or_false] at member
    rcases member with rfl | rfl
    · obtain ⟨rfl, rfl⟩ := holds.unique (⟨by decide, rfl⟩ : interrupted.Holds 1 .null .null)
      exact ⟨trivial, trivial⟩
    · cases holds.2
  simp only [List.mem_cons, List.not_mem_nil, or_false] at inUse
  rcases inUse with rfl | rfl
  · cases marked
  · cases marked
    exact Nat.one_pos

/-- The mark leads to where nothing is kept, so the collection succeeds with
no pair in use and leaves the root as a reference to nothing. -/
theorem collect_interrupted_unsound :
    Reached interrupted true ∧ (interrupted.collect [.pair 0]).outcome = .ok 0 ∧
      ¬ (interrupted.collect [.pair 0]).Sound := by
  refine ⟨reached_interrupted, rfl, fun sound => ?_⟩
  exact Nat.not_lt_zero 0 (sound.2 0 (.head _))

end PairHeap

end ExplicitControl
