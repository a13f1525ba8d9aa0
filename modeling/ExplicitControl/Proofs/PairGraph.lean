import ExplicitControl.PairHeap.Collector
import Mathlib.Data.Set.Function

namespace ExplicitControl

namespace Pointer

/-- The pointer with every pair address put through a function. -/
def rename (f : Nat → Nat) : Pointer → Pointer
  | .pair a => .pair (f a)
  | other => other

/-- A reference to a pair stays below an address. Other pointers always do. -/
def Below (limit : Nat) : Pointer → Prop
  | .pair a => a < limit
  | _ => True

/-- A reference to a pair is to one of a list. -/
def Within (addresses : List Nat) : Pointer → Prop
  | .pair a => a ∈ addresses
  | _ => True

theorem Below.mono {low high : Nat} {p : Pointer} (below : p.Below low) (le : low ≤ high) :
    p.Below high := by
  cases p with
  | pair a => exact Nat.lt_of_lt_of_le below le
  | scalar s => trivial
  | program a => trivial

/-- Renaming a pointer asks the function only for the address of its pair, so
functions that agree on the listed addresses rename alike every pointer whose
pair is listed. -/
theorem rename_congr {f g : Nat → Nat} {addresses : List Nat} {p : Pointer}
    (within : p.Within addresses) (agree : ∀ a ∈ addresses, f a = g a) :
    p.rename f = p.rename g := by
  cases p with
  | pair a => exact congrArg Pointer.pair (agree a within)
  | scalar s => rfl
  | program a => rfl

end Pointer

namespace PairHeap

/-- Both regions have room for as many pairs as the capacity says, and no more
than that are in use. -/
structure Sized (heap : PairHeap) : Prop where
  active : heap.active.size = heap.capacity
  spare : heap.spare.size = heap.capacity
  free : heap.free ≤ heap.capacity

/-- The pair in use at an address, which has not been moved away. A heap is
read as a graph through this relation: a node is a held pair, and its edges
are the references among its head and tail. -/
def Holds (heap : PairHeap) (address : Nat) (head tail : Pointer) : Prop :=
  address < heap.free ∧ heap.active[address]? = some ⟨.value head, tail⟩

/-- A proper list. -/
inductive Lists (heap : PairHeap) : Pointer → List Pointer → Prop
  | nil : Lists heap .null []
  | cons {a : Nat} {item rest : Pointer} {items : List Pointer} :
      heap.Holds a item rest → Lists heap rest items → Lists heap (.pair a) (item :: items)

/-- No pair in use has been moved away. -/
def Plain (heap : PairHeap) : Prop :=
  ∀ a < heap.free, ∃ head tail, heap.Holds a head tail

/-- The addresses met by following heads and tails from the roots. What lies
beyond the free address is met and not followed, so a reference that dangles
is seen as an address reached at or above the free one. -/
inductive Reaches (heap : PairHeap) (roots : List Pointer) : Nat → Prop
  | root {a} : .pair a ∈ roots → Reaches heap roots a
  | head {a b tail} : Reaches heap roots a → heap.Holds a (.pair b) tail → Reaches heap roots b
  | tail {a b head} : Reaches heap roots a → heap.Holds a head (.pair b) → Reaches heap roots b

/-- Where the pair at an address has gone from one heap to a later one. It has
stayed, or the collection in between has left its new address behind. -/
def Carries (before after : PairHeap) (a b : Nat) : Prop :=
  a < before.free ∧
    if after.statistics.collections = before.statistics.collections then a = b
    else ∃ tail, after.spare[a]? = some ⟨.moved b, tail⟩

variable {heap : PairHeap} {a : Nat} {head tail head' tail' : Pointer}

theorem carries_iff_of_eq {before after : PairHeap} {b : Nat}
    (same : after.statistics.collections = before.statistics.collections) :
    before.Carries after a b ↔ a < before.free ∧ a = b := by
  rw [Carries, if_pos same]

theorem Holds.lt (holds : heap.Holds a head tail) : a < heap.free :=
  holds.1

/-- An address holds one pair at most, so whatever two readings of the same
address find is the same head and the same tail. -/
theorem Holds.unique (one : heap.Holds a head tail) (other : heap.Holds a head' tail') :
    head = head' ∧ tail = tail' := by
  have same := one.2.symm.trans other.2
  simp only [Option.some.injEq, Slot.mk.injEq, Head.value.injEq] at same
  exact same

theorem Lists.unique {p : Pointer} {items items' : List Pointer} (one : heap.Lists p items)
    (other : heap.Lists p items') :
    items = items' := by
  induction one generalizing items' with
  | nil =>
    cases other
    rfl
  | cons holds _ ih =>
    cases other with
    | cons holds' rest =>
      obtain ⟨rfl, rfl⟩ := holds.unique holds'
      rw [ih rest]

/-- The head can be read exactly where a pair is held: reading fails beyond
the free address and at the mark of a pair that has been moved. -/
theorem head_eq_ok_iff : heap.head a = .ok head ↔ ∃ tail, heap.Holds a head tail := by
  constructor
  · intro read
    unfold PairHeap.head slot at read
    by_cases inUse : a < heap.free
    · rw [if_pos inUse] at read
      match found : heap.active[a]? with
      | none => simp [found, bind, Except.bind] at read
      | some ⟨.moved new, tail⟩ =>
        simp [found, bind, Except.bind, throw, throwThe, MonadExceptOf.throw] at read
      | some ⟨.value value, tail⟩ =>
        simp only [found, bind, Except.bind, pure, Except.pure, Except.ok.injEq] at read
        exact ⟨tail, inUse, by rw [found, read]⟩
    · simp [inUse, bind, Except.bind] at read
  · rintro ⟨tail, inUse, found⟩
    simp [PairHeap.head, slot, inUse, found, bind, Except.bind, pure, Except.pure]

theorem Holds.head_eq (holds : heap.Holds a head tail) : heap.head a = .ok head :=
  head_eq_ok_iff.mpr ⟨tail, holds⟩

theorem Holds.tail_eq (holds : heap.Holds a head tail) : heap.tail a = .ok tail := by
  obtain ⟨inUse, found⟩ := holds
  simp [PairHeap.tail, slot, inUse, found, bind, Except.bind, pure, Except.pure]

/-- Whatever contains the roots and is closed under heads and tails contains
all that can be reached. Every bound on the live data is shown in this way,
for the list of the addresses that a collection has copied. -/
theorem Reaches.subset_of_closed {roots : List Pointer} {addresses : List Nat}
    (rooted : ∀ p ∈ roots, p.Within addresses)
    (closed : ∀ a ∈ addresses, ∀ head tail, heap.Holds a head tail →
      head.Within addresses ∧ tail.Within addresses)
    (reached : heap.Reaches roots a) : a ∈ addresses := by
  induction reached with
  | root member => exact rooted _ member
  | head _ holds ih => exact (closed _ ih _ _ holds).1
  | tail _ holds ih => exact (closed _ ih _ _ holds).2

theorem checkPointer_eq_ok_iff {p : Pointer} : heap.checkPointer p = .ok () ↔ p.Below heap.free := by
  cases p with
  | pair a =>
    by_cases inUse : a < heap.free <;> simp [checkPointer, Pointer.Below, inUse]
  | scalar s => simp [checkPointer, Pointer.Below]
  | program a => simp [checkPointer, Pointer.Below]

theorem checkSlot_eq_ok_iff : heap.checkSlot a = .ok () ↔
    ∃ head tail, heap.Holds a head tail ∧ head.Below heap.free ∧ tail.Below heap.free := by
  constructor
  · intro checked
    unfold checkSlot at checked
    match headRead : heap.head a with
    | .error fault => simp [headRead, bind, Except.bind] at checked
    | .ok head =>
      match headChecked : heap.checkPointer head with
      | .error fault => simp [headRead, headChecked, bind, Except.bind] at checked
      | .ok () =>
        obtain ⟨tail, holds⟩ := head_eq_ok_iff.mp headRead
        simp only [headRead, headChecked, holds.tail_eq, bind, Except.bind] at checked
        exact ⟨head, tail, holds, checkPointer_eq_ok_iff.mp headChecked,
          checkPointer_eq_ok_iff.mp checked⟩
  · rintro ⟨head, tail, holds, headBelow, tailBelow⟩
    simp [checkSlot, holds.head_eq, holds.tail_eq, checkPointer_eq_ok_iff.mpr headBelow,
      checkPointer_eq_ok_iff.mpr tailBelow, bind, Except.bind]

theorem checkFrom_eq_ok_iff {count : Nat} : heap.checkFrom a count = .ok () ↔
    ∀ b, a ≤ b → b < a + count → heap.checkSlot b = .ok () := by
  induction count generalizing a with
  | zero => simp only [checkFrom, true_iff]; omega
  | succ count ih =>
    rw [checkFrom]
    match first : heap.checkSlot a with
    | .error fault =>
      constructor
      · intro impossible
        cases impossible
      · intro all
        have atFirst := all a le_rfl (by omega)
        rw [first] at atFirst
        cases atFirst
    | .ok () =>
      rw [ih]
      constructor
      · intro rest b lower upper
        rcases Nat.eq_or_lt_of_le lower with equal | above
        · rw [← equal, first]
        · exact rest b above (by omega)
      · intro all b lower upper
        exact all b (by omega) (by omega)

/-- The check of a whole heap succeeds exactly when no pair in use has been
moved and all of them refer to pairs in use only. Spare cells are not looked
at, and neither are roots. -/
theorem check_eq_ok_iff : heap.check = .ok () ↔
    ∀ a < heap.free, ∃ head tail, heap.Holds a head tail ∧
      head.Below heap.free ∧ tail.Below heap.free := by
  simp only [check, checkFrom_eq_ok_iff, checkSlot_eq_ok_iff, Nat.zero_le, Nat.zero_add,
    forall_const]

end PairHeap

end ExplicitControl
