import ExplicitControl.Proofs.Memory.Tied

namespace ExplicitControl

namespace PairHeap

/-- The heap with one more pair. -/
def grown (heap : PairHeap) (head tail : Pointer) : PairHeap where
  active := heap.active.setIfInBounds heap.free ⟨.value head, tail⟩
  spare := heap.spare
  free := heap.free + 1
  capacity := heap.capacity
  statistics := { heap.statistics with
    allocated := heap.statistics.allocated + 1
    highWater := max heap.statistics.highWater (heap.free + 1) }

/-- The heap with another pair at an address. -/
def replaced (heap : PairHeap) (address : Nat) (head tail : Pointer) : PairHeap :=
  heap.setSlot address ⟨.value head, tail⟩

variable {heap : PairHeap} {a b : Nat} {head tail head' tail' : Pointer}

/-- Where there is room, an allocation succeeds and gives the free address,
and the heap has grown by that pair. -/
theorem alloc_eq_grown (sized : heap.Sized) (room : 0 < heap.available) (head tail : Pointer) :
    alloc head tail heap = .ok heap.free (heap.grown head tail) := by
  obtain ⟨active, spare, free, capacity, statistics⟩ := heap
  have size : active.size = capacity := sized.active
  simp only [available] at room
  have notFull : ¬ free = capacity := by omega
  have inside : free < active.size := by omega
  simp only [alloc, if_neg notFull, if_pos inside, grown]

theorem setHead_eq_replaced (holds : heap.Holds a head tail) (value : Pointer) :
    setHead a value heap = .ok () (heap.replaced a value tail) := by
  simp only [setHead, slot, holds.1, if_true, holds.2, replaced]

theorem setTail_eq_replaced (holds : heap.Holds a head tail) (value : Pointer) :
    setTail a value heap = .ok () (heap.replaced a head value) := by
  simp only [setTail, slot, holds.1, if_true, holds.2, replaced]

@[simp] theorem grown_free : (heap.grown head tail).free = heap.free + 1 := rfl

@[simp] theorem grown_capacity : (heap.grown head tail).capacity = heap.capacity := rfl

theorem grown_available : (heap.grown head tail).available = heap.available - 1 := by
  simp only [available, grown_free, grown_capacity]
  omega

@[simp] theorem replaced_free : (heap.replaced a head tail).free = heap.free := rfl

theorem holds_grown_new (sized : heap.Sized) (room : 0 < heap.available) :
    (heap.grown head tail).Holds heap.free head tail := by
  refine ⟨Nat.lt_succ_self _, Array.getElem?_setIfInBounds_self_of_lt ?_⟩
  rw [sized.active]
  simp only [available] at room
  omega

/-- Growing a heap writes beyond the pairs in use, so whatever was held is
held. -/
theorem Holds.grown (holds : heap.Holds a head tail) : (heap.grown head' tail').Holds a head tail := by
  have lt := holds.lt
  refine ⟨Nat.lt_succ_of_lt lt, ?_⟩
  simp only [PairHeap.grown]
  rw [Array.getElem?_setIfInBounds_ne (by omega)]
  exact holds.2

theorem Holds.replaced_self (holds : heap.Holds a head tail) :
    (heap.replaced a head' tail').Holds a head' tail' := by
  refine ⟨holds.1, ?_⟩
  simp only [replaced, setSlot]
  exact Array.getElem?_setIfInBounds_self_of_lt (Array.getElem?_eq_some_iff.mp holds.2).1

theorem Holds.replaced_other (holds : heap.Holds a head tail) (different : b ≠ a) :
    (heap.replaced b head' tail').Holds a head tail := by
  refine ⟨holds.1, ?_⟩
  simp only [replaced, setSlot]
  rw [Array.getElem?_setIfInBounds_ne different]
  exact holds.2

theorem Sized.grown (sized : heap.Sized) (room : 0 < heap.available) (head tail : Pointer) :
    (heap.grown head tail).Sized := by
  refine ⟨Array.size_setIfInBounds.trans sized.active, sized.spare, ?_⟩
  simp only [available] at room
  simp only [grown_free, grown_capacity]
  omega

/-- A new pair of what is in use leaves a sound heap sound. -/
theorem Sound.grown (sound : heap.Sound) (room : 0 < heap.available)
    (headBelow : head.Below heap.free) (tailBelow : tail.Below heap.free) :
    (heap.grown head tail).Sound where
  active := by simpa [PairHeap.grown] using sound.active
  spare := sound.spare
  free := by
    simp only [available] at room
    simp only [grown_free, grown_capacity]
    omega
  closed := by
    intro a inUse
    have more : heap.free ≤ heap.free + 1 := Nat.le_succ _
    rcases Nat.lt_succ_iff_lt_or_eq.mp inUse with old | rfl
    · obtain ⟨head', tail', holds, headBelow', tailBelow'⟩ := sound.closed a old
      exact ⟨head', tail', holds.grown, headBelow'.mono more, tailBelow'.mono more⟩
    · exact ⟨head, tail, holds_grown_new sound.toSized room, headBelow.mono more, tailBelow.mono more⟩

theorem Sound.replaced (sound : heap.Sound) (holds : heap.Holds a head' tail')
    (headBelow : head.Below heap.free) (tailBelow : tail.Below heap.free) :
    (heap.replaced a head tail).Sound where
  active := by simpa [PairHeap.replaced, setSlot] using sound.active
  spare := sound.spare
  free := sound.free
  closed := by
    intro c inUse
    by_cases same : a = c
    · subst same
      exact ⟨head, tail, holds.replaced_self, headBelow, tailBelow⟩
    · obtain ⟨head₁, tail₁, holds₁, below⟩ := sound.closed c inUse
      exact ⟨head₁, tail₁, holds₁.replaced_other same, below⟩

/-- A relation of addresses with one more pair of them. -/
def extend (ρ : Nat → Nat → Prop) (a b : Nat) : Nat → Nat → Prop :=
  fun c d => ρ c d ∨ c = a ∧ d = b

variable {ρ : Nat → Nat → Prop} {left right : PairHeap}

/-- Heaps that match and grow by matching pairs match again, under the
relation that has the two new addresses besides. -/
theorem Matches.grown (matched : left.Matches ρ right) (leftSized : left.Sized)
    (rightSized : right.Sized) (leftRoom : 0 < left.available) (rightRoom : 0 < right.available)
    (heads : head.Matches ρ head') (tails : tail.Matches ρ tail') :
    (left.grown head tail).Matches (extend ρ left.free right.free) (right.grown head' tail') where
  unique := by
    constructor
    · rintro a c b (old | ⟨rfl, rfl⟩) (old' | ⟨rfl, same⟩)
      · exact matched.unique.1 old old'
      · exact absurd (matched.lt_right old) (by omega)
      · exact absurd (matched.lt_right old') (by omega)
      · rfl
    · rintro a b c (old | ⟨rfl, rfl⟩) (old' | ⟨same, rfl⟩)
      · exact matched.unique.2 old old'
      · exact absurd (matched.lt_left old) (by omega)
      · exact absurd (matched.lt_left old') (by omega)
      · rfl
  pairs := by
    have more (c d : Nat) (related : ρ c d) : extend ρ left.free right.free c d := .inl related
    rintro c d (old | ⟨rfl, rfl⟩)
    · obtain ⟨h, t, h', t', holds, holds', hs, ts⟩ := matched.pairs c d old
      exact ⟨h, t, h', t', holds.grown, holds'.grown, hs.mono more, ts.mono more⟩
    · exact ⟨head, tail, head', tail', holds_grown_new leftSized leftRoom,
        holds_grown_new rightSized rightRoom, heads.mono more, tails.mono more⟩

theorem Matches.replaced (matched : left.Matches ρ right) (related : ρ a b)
    (heads : head.Matches ρ head') (tails : tail.Matches ρ tail') :
    (left.replaced a head tail).Matches ρ (right.replaced b head' tail') where
  unique := matched.unique
  pairs := by
    intro c d related'
    obtain ⟨h, t, h', t', holds, holds', hs, ts⟩ := matched.pairs c d related'
    by_cases same : a = c
    · subst same
      have same' : b = d := matched.unique.2 related related'
      subst same'
      exact ⟨head, tail, head', tail', holds.replaced_self, holds'.replaced_self, heads, tails⟩
    · have different : b ≠ d := fun equal => same (matched.unique.1 related (equal ▸ related'))
      exact ⟨h, t, h', t', holds.replaced_other same, holds'.replaced_other different, hs, ts⟩

end PairHeap

end ExplicitControl
