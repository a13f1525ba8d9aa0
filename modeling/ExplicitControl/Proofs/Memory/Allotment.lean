import ExplicitControl.Environment
import ExplicitControl.Proofs.Memory.Quiet
import ExplicitControl.Proofs.Memory.Reservation
import ExplicitControl.Proofs.Memory.Walk

namespace ExplicitControl

namespace PairHeap

/-- The heap once so many pairs have been allocated. Every pair that was held
before still is. -/
structure Enlarged (before : PairHeap) (count : Nat) (after : PairHeap) : Prop where
  sized : after.Sized
  capacity : after.capacity = before.capacity
  spare : after.spare = before.spare
  free : after.free = before.free + count
  allocated : after.statistics.allocated = before.statistics.allocated + count
  collections : after.statistics.collections = before.statistics.collections
  kept : ∀ a head tail, before.Holds a head tail → after.Holds a head tail

variable {before between after heap : PairHeap} {count more a b : Nat} {head tail p q : Pointer}
  {items : List Pointer}

namespace Enlarged

theorem refl (sized : heap.Sized) : heap.Enlarged 0 heap :=
  ⟨sized, rfl, rfl, rfl, rfl, rfl, fun _ _ _ => id⟩

theorem trans (first : before.Enlarged count between) (next : between.Enlarged more after) :
    before.Enlarged (count + more) after where
  sized := next.sized
  capacity := next.capacity.trans first.capacity
  spare := next.spare.trans first.spare
  free := by rw [next.free, first.free, Nat.add_assoc]
  allocated := by rw [next.allocated, first.allocated, Nat.add_assoc]
  collections := next.collections.trans first.collections
  kept := fun a head tail holds => next.kept a head tail (first.kept a head tail holds)

theorem grown (sized : heap.Sized) (room : 0 < heap.available) (head tail : Pointer) :
    heap.Enlarged 1 (heap.grown head tail) where
  sized := sized.grown room head tail
  capacity := rfl
  spare := rfl
  free := rfl
  allocated := rfl
  collections := rfl
  kept := fun _ _ _ holds => holds.grown

theorem available (enlarged : before.Enlarged count after) : after.available = before.available - count := by
  simp only [PairHeap.available, enlarged.capacity, enlarged.free]
  omega

/-- Allocating in room set aside moves nothing, so where a pair has gone from
an earlier heap is the same before and after. -/
theorem carries_iff (enlarged : between.Enlarged count after) :
    before.Carries after a b ↔ before.Carries between a b := by
  simp only [Carries, enlarged.collections, enlarged.spare]

end Enlarged

theorem Lists.kept (lists : before.Lists p items)
    (kept : ∀ a head tail, before.Holds a head tail → after.Holds a head tail) :
    after.Lists p items := by
  induction lists with
  | nil => exact .nil
  | cons holds _ ih => exact .cons (kept _ _ _ holds) ih

/-- A list and its copy, item by item. What stands for the first pair of a
list is the first pair of a list of what stands for its items. -/
theorem Matches.lists {ρ : Nat → Nat → Prop} {left right : PairHeap} (matched : left.Matches ρ right)
    (lists : left.Lists p items) (same : p.Matches ρ q) :
    ∃ items', right.Lists q items' ∧ List.Forall₂ (Pointer.Matches ρ) items items' := by
  induction lists generalizing q with
  | nil =>
    cases same
    exact ⟨[], .nil, .nil⟩
  | cons holds _ ih =>
    cases same with
    | pair related =>
      obtain ⟨_, _, item, rest, holds', held, itemMatched, restMatched⟩ := matched.pairs _ _ related
      obtain ⟨rfl, rfl⟩ := holds.unique holds'
      obtain ⟨items', lists', rows⟩ := ih restMatched
      exact ⟨item :: items', .cons held lists', .cons itemMatched rows⟩

end PairHeap

namespace Memory

variable {memory : Memory} {p start : Pointer} {items : List Pointer}

theorem chained_of_lists (lists : memory.heap.Lists p items) : Chained memory.head memory.tail p items := by
  induction lists with
  | nil => exact .nil
  | @cons a item rest items holds _ ih =>
    have headRead : memory.head (.pair a) = .ok item := by
      simp only [Memory.head, holds.head_eq]
      rfl
    have tailRead : memory.tail (.pair a) = .ok rest := by
      simp only [Memory.tail, holds.tail_eq]
      rfl
    exact .cons rfl headRead tailRead ih

theorem items_of_lists (lists : memory.heap.Lists p items) : memory.items p = .ok items :=
  (chained_of_lists lists).listItems_eq (items_walk memory p)

theorem length_le_free {items : List Pointer} (lists : memory.heap.Lists p items) : items.length ≤ memory.heap.free :=
  (items_walk memory p).bound _ _ (chained_of_lists lists).stops

theorem item_of_lists {item : Pointer} {index : Nat} (lists : memory.heap.Lists p items)
    (found : items[index]? = some item) : memory.item p index = .ok item :=
  (chained_of_lists lists).listRef_eq found

/-- What is read off as a list is one, so reading items decides the shape of
what was read. -/
theorem lists_of_listItems {fuel : Nat} (read : listItems memory.head memory.tail start fuel p = .ok items) :
    memory.heap.Lists p items := by
  induction fuel generalizing p items with
  | zero => cases read
  | succ fuel ih =>
    simp only [listItems] at read
    split at read
    · rename_i isNull
      cases read
      cases p with
      | scalar value =>
        cases value with
        | null => exact .nil
        | _ => cases isNull
      | program address => cases isNull
      | pair a => cases isNull
    · obtain ⟨item, headRead, read⟩ := Read.bind_eq_ok_iff.mp read
      obtain ⟨rest, tailRead, read⟩ := Read.bind_eq_ok_iff.mp read
      obtain ⟨more, moreRead, read⟩ := Read.bind_eq_ok_iff.mp read
      cases read
      cases p with
      | scalar value => cases headRead
      | program address => cases headRead
      | pair a =>
        obtain ⟨tail, holds⟩ : ∃ tail, memory.heap.Holds a item tail := by
          simp only [Memory.head] at headRead
          cases found : memory.heap.head a with
          | ok value =>
            rw [found] at headRead
            cases headRead
            exact PairHeap.head_eq_ok_iff.mp found
          | error fault =>
            rw [found] at headRead
            cases headRead
        simp only [Memory.tail, holds.tail_eq] at tailRead
        cases tailRead
        exact .cons holds (ih moreRead)

end Memory

namespace Memory

/-- What setting room aside leaves where it succeeds: a memory without
dangling references that matches the one before, the room, and pending
pointers that stand for what they stood for. One collection at most has been
made. -/
structure Granted (memory : Memory) (count : Nat) (pending : List Pointer) (after : Memory) (moved : List Pointer) :
    Prop where
  closed : after.Closed
  room : count ≤ after.heap.available
  matched : memory.Matches (memory.heap.Carries after.heap) after
  reached : ∀ a, memory.heap.Reaches (memory.roots pending) a → ∃ b, memory.heap.Carries after.heap a b
  pending : List.Forall₂ (Pointer.Matches (memory.heap.Carries after.heap)) pending moved
  collections : after.heap.statistics.collections ≤ memory.heap.statistics.collections + 1

variable {memory after : Memory} {pending moved : List Pointer} {count : Nat}

/-- Where room is granted in a memory without dangling references, none
dangles afterwards, and everything that could be reached is still there. -/
theorem Closed.granted (closed : memory.Closed) (below : ∀ p ∈ pending, p.Below memory.heap.free)
    (reserved : memory.reserve count pending = ⟨after, moved, .ok ()⟩) : memory.Granted count pending after moved := by
  by_cases room : count ≤ memory.heap.available
  · simp only [reserve, if_pos room] at reserved
    cases reserved
    exact {
      closed := closed
      room := room
      matched := closed.matches_self
      pending := List.forall₂_same.mpr fun p member => carries_refl (below p member)
      reached := fun a reached =>
        ⟨a, (PairHeap.carries_iff_of_eq rfl).mpr ⟨closed.reaches_lt (closed.roots_below below) reached, rfl⟩⟩
      collections := Nat.le_succ _ }
  · obtain ⟨order, memory', collected, nodup, reached, free, capacity, counted, carried, matched, pendingMatched,
      closed'⟩ := closed.collect below
    simp only [reserve, if_neg room, collected] at reserved
    split at reserved
    · rename_i enough
      cases reserved
      exact {
        closed := closed'
        room := enough
        matched := matched
        pending := pendingMatched
        reached := fun a isReached => ⟨_, (carried a _).mpr ⟨(reached a).mpr isReached, rfl⟩⟩
        collections := counted.le }
    · cases reserved

/-- Once room has been made, every pair there is comes from before. -/
theorem Closed.covered (closed : memory.Closed) (below : ∀ p ∈ pending, p.Below memory.heap.free)
    (reserved : memory.reserve count pending = ⟨after, moved, .ok ()⟩) {b : Nat} (inUse : b < after.heap.free) :
    ∃ a, memory.heap.Carries after.heap a b := by
  by_cases room : count ≤ memory.heap.available
  · simp only [reserve, if_pos room] at reserved
    cases reserved
    exact ⟨b, (PairHeap.carries_iff_of_eq rfl).mpr ⟨inUse, rfl⟩⟩
  · obtain ⟨order, memory', collected, nodup, _, free, _, _, carried, _⟩ := closed.collect below
    simp only [reserve, if_neg room, collected] at reserved
    split at reserved
    · cases reserved
      rw [free] at inUse
      exact ⟨order[b], (carried _ _).mpr ⟨List.getElem_mem inUse, nodup.idxOf_getElem b inUse⟩⟩
    · cases reserved

/-- Where setting room aside fails, it has collected once and done nothing
else. Nothing is allocated, and the memory is the same as before but for where
its pairs lie. -/
theorem Closed.refused {cause : Error} (closed : memory.Closed) (below : ∀ p ∈ pending, p.Below memory.heap.free)
    (reserved : memory.reserve count pending = ⟨after, moved, .error cause⟩) :
    after.heap.statistics.collections = memory.heap.statistics.collections + 1 ∧
      after.heap.statistics.allocated = memory.heap.statistics.allocated ∧ memory.Isomorphic pending after moved := by
  by_cases room : count ≤ memory.heap.available
  · simp only [reserve, if_pos room] at reserved
    cases reserved
  · obtain ⟨order, memory', collected, _, _, _, _, counted, _, matched, pendingMatched, _⟩ := closed.collect below
    simp only [reserve, if_neg room, collected] at reserved
    split at reserved
    · cases reserved
    · cases reserved
      exact ⟨counted, matched.allocated.symm, _, { matched with }, pendingMatched⟩

theorem Granted.below {p q : Pointer} (granted : memory.Granted count pending after moved)
    (related : p.Matches (memory.heap.Carries after.heap) q) : q.Below after.heap.free :=
  related.symm.below fun _ _ related => granted.matched.heap.lt_right related

/-- Two pending pointers, and where they are now. -/
theorem Granted.two {p q : Pointer} (granted : memory.Granted count [p, q] after moved) :
    ∃ p' q', p.Matches (memory.heap.Carries after.heap) p' ∧ q.Matches (memory.heap.Carries after.heap) q' ∧
      moved = [p', q'] := by
  obtain _ | ⟨first, rest⟩ := granted.pending
  obtain _ | ⟨second, none⟩ := rest
  cases none
  exact ⟨_, _, first, second, rfl⟩

/-- A new pair of what is in use leaves nothing dangling. -/
theorem Closed.grown {head tail : Pointer} (closed : memory.Closed) (room : 1 ≤ memory.heap.available)
    (headBelow : head.Below memory.heap.free) (tailBelow : tail.Below memory.heap.free) :
    (memory.withHeap (memory.heap.grown head tail)).Closed where
  heap := closed.heap.grown room headBelow tailBelow
  registers := fun register member => (closed.registers register member).mono (Nat.le_succ _)
  stack := fun saved member => (closed.stack saved member).mono (Nat.le_succ _)

end Memory

namespace Action

variable {α β : Type} {memory : Memory} {count more : Nat}

theorem inspect_bind_ok {f : Memory → Except Error α} {g : α → Action β} {a : α} (read : f memory = .ok a) :
    (Action.inspect f >>= g) memory = g a memory := by
  change EStateM.bind (Action.inspect f) g memory = _
  simp only [EStateM.bind, Action.inspect, read]

theorem inspect_bind_error {f : Memory → Except Error α} {g : α → Action β} {cause : Error}
    (failed : f memory = .error cause) : (Action.inspect f >>= g) memory = .error cause memory := by
  change EStateM.bind (Action.inspect f) g memory = _
  simp only [EStateM.bind, Action.inspect, failed]

theorem allocReserved_eq_grown (sized : memory.heap.Sized) (room : 1 ≤ memory.heap.available) (head tail : Pointer) :
    Action.allocReserved head tail memory
      = .ok (.pair memory.heap.free) (memory.withHeap (memory.heap.grown head tail)) := by
  refine bind_eq_ok_iff.mpr ⟨memory.heap.free, memory.withHeap (memory.heap.grown head tail), ?_, rfl⟩
  simp only [Action.onHeap, PairHeap.alloc_eq_grown sized room]
  rfl

/-- With room for a number of pairs an action allocates just so many, and does
nothing else. What it reads in between may fail, but not because a pair or the
room for one were missing. -/
def Allots (action : Action α) (memory : Memory) (count : Nat) (post : α → PairHeap → Prop) : Prop :=
  memory.heap.Sized → count ≤ memory.heap.available →
    ∃ value heap, action memory = .ok value (memory.withHeap heap) ∧ memory.heap.Enlarged count heap ∧ post value heap

namespace Allots

variable {post : α → PairHeap → Prop} {post' : β → PairHeap → Prop}

theorem pure {value : α} (holds : post value memory.heap) : Allots (Pure.pure value) memory 0 post :=
  fun sized _ => ⟨value, memory.heap, rfl, .refl sized, holds⟩

theorem bind {x : Action α} {f : α → Action β} (first : Allots x memory count post)
    (next : ∀ value heap, memory.heap.Enlarged count heap → post value heap →
      Allots (f value) (memory.withHeap heap) more post') : Allots (x >>= f) memory (count + more) post' := by
  intro sized room
  obtain ⟨value, heap, ran, enlarged, holds⟩ := first sized (by omega)
  have enough : more ≤ heap.available := by
    have available := enlarged.available
    omega
  obtain ⟨value', heap', ran', enlarged', holds'⟩ := next value heap enlarged holds enlarged.sized enough
  exact ⟨value', heap', bind_eq_ok_iff.mpr ⟨value, _, ran, ran'⟩, enlarged.trans enlarged', holds'⟩

theorem mono {action : Action α} {post' : α → PairHeap → Prop} (allots : Allots action memory count post)
    (weaker : ∀ value heap, memory.heap.Enlarged count heap → post value heap → post' value heap) :
    Allots action memory count post' := by
  intro sized room
  obtain ⟨value, heap, ran, enlarged, holds⟩ := allots sized room
  exact ⟨value, heap, ran, enlarged, weaker value heap enlarged holds⟩

theorem allocReserved (head tail : Pointer) :
    Allots (Action.allocReserved head tail) memory 1 fun p heap => ∃ a, p = .pair a ∧ heap.Holds a head tail :=
  fun sized room => ⟨_, _, allocReserved_eq_grown sized room head tail, .grown sized room head tail, _, rfl,
    PairHeap.holds_grown_new sized room⟩

theorem buildList (items : List Pointer) :
    Allots (Action.buildList items) memory items.length fun p heap => heap.Lists p items := by
  induction items with
  | nil => exact .pure .nil
  | cons item rest ih =>
    refine ih.bind fun tail heap enlarged lists => (allocReserved item tail).mono ?_
    rintro p heap' enlarged' ⟨a, rfl, holds⟩
    exact .cons holds (lists.kept enlarged'.kept)

end Allots

end Action

end ExplicitControl
