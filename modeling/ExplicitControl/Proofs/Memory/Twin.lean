import ExplicitControl.Proofs.Memory.Update
import Mathlib.Data.List.Nodup

namespace ExplicitControl

/-- The same pointer on both sides, which refers to no run-time pair. -/
def Pointer.Static (p q : Pointer) : Prop :=
  p = q ∧ p.Below 0

theorem Pointer.Static.matches {ρ : Nat → Nat → Prop} {p q : Pointer} (static : p.Static q) :
    p.Matches ρ q :=
  static.1 ▸ .refl_of_below static.2

namespace Memory

variable {ρ : Nat → Nat → Prop} {left right : Memory} {p q p' q' : Pointer} {ps qs : List Pointer}

theorem pointers_forall₂ {c d : List Contents} (row : List.Forall₂ (Contents.Matches ρ) c d) :
    List.Forall₂ (Pointer.Matches ρ) (Contents.pointers c) (Contents.pointers d) := by
  induction row with
  | nil => exact .nil
  | cons first _ ih =>
    cases first with
    | unassigned => exact ih
    | label position => exact ih
    | pointer inner => exact .cons inner ih

/-- Collections of matching memories start from matching roots, in the same
order: registers, then the stack, then what is pending. -/
theorem Matches.roots (matched : left.Matches ρ right)
    (pending : List.Forall₂ (Pointer.Matches ρ) ps qs) :
    List.Forall₂ (Pointer.Matches ρ) (left.roots ps) (right.roots qs) := by
  have registers : List.Forall₂ (Contents.Matches ρ) left.registerContents right.registerContents := by
    simp only [registerContents, List.forall₂_map_left_iff, List.forall₂_map_right_iff]
    exact matched.registers.imp fun _ _ one => one.contents
  exact List.rel_append (pointers_forall₂ registers)
    (List.rel_append (pointers_forall₂ matched.stack) pending)

theorem pointers_symm (row : List.Forall₂ (Pointer.Matches ρ) ps qs) :
    List.Forall₂ (Pointer.Matches (Function.swap ρ)) qs ps :=
  row.flip.imp fun _ _ (one : Pointer.Matches ρ _ _) => one.symm

theorem pointers_comp {σ : Nat → Nat → Prop} {rs : List Pointer}
    (one : List.Forall₂ (Pointer.Matches ρ) ps qs) (other : List.Forall₂ (Pointer.Matches σ) qs rs) :
    List.Forall₂ (Pointer.Matches (Relation.Comp ρ σ)) ps rs :=
  Matches.forall₂_comp (fun p q r (pq : p.Matches ρ q) (qr : q.Matches σ r) => pq.comp qr) one other

/-- No more pairs can be reached on the right than are in use on the left,
since each of them stands for another one there. -/
theorem Matches.reachable_le (matched : left.Matches ρ right)
    (pending : List.Forall₂ (Pointer.Matches ρ) ps qs) {order : List Nat} (nodup : order.Nodup)
    (reached : ∀ b ∈ order, right.heap.Reaches (right.roots qs) b) :
    order.length ≤ left.heap.free := by
  have partner (b : Nat) (member : b ∈ order) : ∃ a, ρ a b :=
    matched.heap.exists_of_reaches (matched.roots pending) (reached b member)
  choose! f related using partner
  have injective : ∀ b ∈ order, ∀ c ∈ order, f b = f c → b = c := fun b inB c inC same =>
    matched.heap.unique.2 (related b inB) (same ▸ related c inC)
  have mapped : (order.map f).Nodup := List.Nodup.map_on injective nodup
  have subset : order.map f ⊆ List.range left.heap.free := by
    intro a member
    obtain ⟨b, inB, rfl⟩ := List.mem_map.mp member
    exact List.mem_range.mpr (matched.heap.lt_left (related b inB))
  simpa using (mapped.subperm subset).length_le

/-- Matching memories without dangling references. No operation has the text
of a pair for a name. -/
structure Twin (ρ : Nat → Nat → Prop) (left right : Memory) : Prop where
  matched : left.Matches ρ right
  soundLeft : left.Sound
  soundRight : right.Sound
  capacity : left.heap.capacity ≤ right.heap.capacity
  unnamed : ∀ a, left.operations.find? (Pointer.pair a).display = none

/-- The heaps of two memories from before, and the relation between them. -/
structure Origin where
  link : Nat → Nat → Prop
  left : PairHeap
  right : PairHeap

/-- Two memories as an origin. -/
abbrev origin (ρ : Nat → Nat → Prop) (left right : Memory) : Origin :=
  ⟨ρ, left.heap, right.heap⟩

/-- The pairs that stand for one another are those that did so at the origin,
wherever they have gone, and those that were allocated on both sides since. -/
structure Origin.Coheres (o : Origin) (ρ : Nat → Nat → Prop) (left right : PairHeap) : Prop where
  free : o.right.free ≤ right.free
  onward : ∀ {a b c}, o.link a c → o.left.Carries left a b → ρ b c
  back : ∀ {b c}, ρ b c → c < o.right.free → ∃ a, o.link a c ∧ o.left.Carries left a b
  total : (∀ a < o.left.free, ∃ c, o.link a c) → ∀ b < left.free, ∃ c, ρ b c

/-- Twins that have come from an origin, with at most one collection on the
left. They cohere with it as long as nothing is collected on the right. -/
structure Kin (o : Origin) (ρ : Nat → Nat → Prop) (left right : Memory) : Prop extends
    Twin ρ left right where
  collections : o.right.statistics.collections ≤ right.heap.statistics.collections
  coheres : right.heap.statistics.collections = o.right.statistics.collections →
    o.Coheres ρ left.heap right.heap

/-- In both memories a number of pairs can be allocated. -/
def Room (count : Nat) (left right : Memory) : Prop :=
  count ≤ left.heap.available ∧ count ≤ right.heap.available

/-- The memory with another heap. -/
def withHeap (memory : Memory) (heap : PairHeap) : Memory :=
  { memory with heap := heap }

namespace Twin

theorem tallies (twin : Twin ρ left right) : left.Tallies right :=
  twin.matched.tallies

theorem below_left (twin : Twin ρ left right) (matched : p.Matches ρ q) :
    p.Below left.heap.free :=
  matched.below fun _ _ related => twin.matched.heap.lt_left related

theorem below_right (twin : Twin ρ left right) (matched : p.Matches ρ q) :
    q.Below right.heap.free :=
  matched.symm.below fun _ _ related => twin.matched.heap.lt_right related

/-- Twins are their own origin. -/
theorem kin (twin : Twin ρ left right) : Kin (origin ρ left right) ρ left right where
  toTwin := twin
  collections := Nat.le_refl _
  coheres := fun _ => {
    free := Nat.le_refl _
    onward := by
      intro a b c related carried
      obtain ⟨_, rfl⟩ := (PairHeap.carries_iff_of_eq rfl).mp carried
      exact related
    back := fun related _ => ⟨_, related,
      (PairHeap.carries_iff_of_eq rfl).mpr ⟨twin.matched.heap.lt_left related, rfl⟩⟩
    total := id }

/-- Twins that match a common memory are reached from twins by moving both.
What stands for one another afterwards is what did so before the two moves. -/
theorem move {left' right' : Memory} {ps' qs' : List Pointer} (twin : Twin ρ left right)
    (leftMoved : left.Moved ps left' ps') (rightMoved : right.Moved qs right' qs') :
    Twin (Relation.Comp (Function.swap (left.heap.Carries left'.heap))
      (Relation.Comp ρ (right.heap.Carries right'.heap))) left' right' where
  matched := leftMoved.matched.symm.comp (twin.matched.comp rightMoved.matched)
  soundLeft := leftMoved.sound
  soundRight := rightMoved.sound
  capacity := by rw [leftMoved.capacity, rightMoved.capacity]; exact twin.capacity
  unnamed := by rw [← leftMoved.matched.operations]; exact twin.unnamed

/-- Where only the left is collected, pairs stand for what they stood for: on
the right an address is still that of the same pair. -/
theorem kin_move {left' right' : Memory} {ps' qs' : List Pointer} (twin : Twin ρ left right)
    (leftMoved : left.Moved ps left' ps') (rightMoved : right.Moved qs right' qs') :
    Kin (origin ρ left right) (Relation.Comp (Function.swap (left.heap.Carries left'.heap))
      (Relation.Comp ρ (right.heap.Carries right'.heap))) left' right' := by
  refine ⟨twin.move leftMoved rightMoved, ?_, fun still => ?_⟩
  · rcases rightMoved.collected with same | more
    · rw [same]
    · exact more ▸ Nat.le_succ _
  have free : right.heap.free ≤ right'.heap.free := by
    rcases rightMoved.collected with same | more
    · rw [same]
    · exact absurd (more.symm.trans still) (Nat.succ_ne_self _)
  have stays {a c : Nat} (related : ρ a c) : right.heap.Carries right'.heap c c :=
    (PairHeap.carries_iff_of_eq still).mpr ⟨twin.matched.heap.lt_right related, rfl⟩
  refine ⟨free, fun related carried => ⟨_, carried, _, related, stays related⟩, ?_, fun total b inUse => ?_⟩
  · rintro b c ⟨a, carried, c', related, moved⟩ _
    obtain ⟨_, rfl⟩ := (PairHeap.carries_iff_of_eq still).mp moved
    exact ⟨a, related, carried⟩
  · obtain ⟨a, carried⟩ := leftMoved.covered b inUse
    obtain ⟨c, related⟩ := total a carried.1
    exact ⟨c, a, carried, c, related, stays related⟩

/-- Setting room aside: the right has room where the left has, for no more
than what is in use on the left can be reached there. This is where the
capacity of the right being at least that of the left comes in. -/
theorem reserve (twin : Twin ρ left right) (pending : List.Forall₂ (Pointer.Matches ρ) ps qs)
    (count : Nat) :
    Action.Tied
      (fun ps' left' qs' right' => ∃ σ, Kin (origin ρ left right) σ left' right' ∧
        List.Forall₂ (Pointer.Matches σ) ps' qs' ∧ ps'.length = ps.length ∧ Room count left' right')
      (Action.reserve count ps left) (Action.reserve count qs right) := by
  have leftBelow : ∀ p ∈ ps, p.Below left.heap.free := fun p member => by
    obtain ⟨q, matched⟩ := Pointer.Matches.exists_of_mem (pointers_symm pending) member
    exact twin.below_left matched.symm
  have rightBelow : ∀ q ∈ qs, q.Below right.heap.free := fun q member => by
    obtain ⟨p, matched⟩ := Pointer.Matches.exists_of_mem pending member
    exact twin.below_right matched
  rcases twin.soundLeft.reserve_cases leftBelow count with
    ⟨left', ps', leftRun, leftMoved, leftRoom⟩ |
    ⟨left', ps', order, leftRun, _⟩
  · have pendingMoved := pointers_comp (pointers_symm leftMoved.pending) pending
    rcases twin.soundRight.reserve_cases rightBelow count with
      ⟨right', qs', rightRun, rightMoved, rightRoom⟩ |
      ⟨right', qs', order, _, nodup, reached, tooMany⟩
    · simp only [Action.reserve, leftRun, rightRun]
      exact .ok ⟨_, twin.kin_move leftMoved rightMoved,
        pointers_comp (pointers_symm leftMoved.pending) (pointers_comp pending rightMoved.pending),
        leftMoved.pending.length_eq.symm, leftRoom, rightRoom⟩
    · exfalso
      have between := leftMoved.matched.symm.comp twin.matched
      have length := between.reachable_le pendingMoved nodup fun b member => (reached b).mp member
      have enough := twin.capacity
      simp only [PairHeap.available] at leftRoom
      have used := leftMoved.sound.heap.free
      have size := leftMoved.capacity
      omega
  · simp only [Action.reserve, leftRun]
    exact .exhausted trivial

/-- Twins whose heaps change together stay twins. -/
theorem withHeap {σ : Nat → Nat → Prop} {heapLeft heapRight : PairHeap} (twin : Twin ρ left right)
    (matched : heapLeft.Matches σ heapRight) (more : ∀ a b, ρ a b → σ a b)
    (soundLeft : heapLeft.Sound) (soundRight : heapRight.Sound)
    (freeLeft : left.heap.free ≤ heapLeft.free) (freeRight : right.heap.free ≤ heapRight.free)
    (capacityLeft : heapLeft.capacity = left.heap.capacity)
    (capacityRight : heapRight.capacity = right.heap.capacity)
    (allocated : heapLeft.statistics.allocated = heapRight.statistics.allocated) :
    Twin σ (left.withHeap heapLeft) (right.withHeap heapRight) where
  matched := {
    heap := matched
    registers := twin.matched.registers.imp fun _ _ one => ⟨one.name, one.contents.mono more⟩
    stack := twin.matched.stack.imp fun _ _ one => one.mono more
    pushes := twin.matched.pushes
    maxDepth := twin.matched.maxDepth
    allocated := allocated
    program := twin.matched.program
    operations := twin.matched.operations }
  soundLeft := ⟨soundLeft, fun r member => (twin.soundLeft.registers r member).mono freeLeft,
    fun c member => (twin.soundLeft.stack c member).mono freeLeft, twin.soundLeft.program⟩
  soundRight := ⟨soundRight, fun r member => (twin.soundRight.registers r member).mono freeRight,
    fun c member => (twin.soundRight.stack c member).mono freeRight, twin.soundRight.program⟩
  capacity := by
    simp only [Memory.withHeap, capacityLeft, capacityRight]
    exact twin.capacity
  unnamed := twin.unnamed

theorem forall₂_left {α β : Type} {r : α → β → Prop} {good : α → Prop} {xs : List α} {ys : List β}
    (row : List.Forall₂ r xs ys) (each : ∀ x y, r x y → good x) : ∀ x ∈ xs, good x := by
  induction row with
  | nil => simp
  | cons first _ ih => exact List.forall_mem_cons.mpr ⟨each _ _ first, ih⟩

/-- Memories that go on matching when only registers and stack change are
still twins: what they hold stands for something in the other memory. -/
theorem refit {left' right' : Memory} (twin : Twin ρ left right) (matched : left'.Matches ρ right')
    (heapLeft : left'.heap = left.heap) (heapRight : right'.heap = right.heap)
    (program : left'.program = left.program) (operations : left'.operations = left.operations) :
    Twin ρ left' right' := by
  have belowLeft {c d : Contents} (one : c.Matches ρ d) : c.Below left'.heap.free := by
    cases one with
    | unassigned => trivial
    | label position => trivial
    | pointer inner => exact heapLeft ▸ twin.below_left inner
  have belowRight {c d : Contents} (one : c.Matches ρ d) : d.Below right'.heap.free := by
    cases one with
    | unassigned => trivial
    | label position => trivial
    | pointer inner => exact heapRight ▸ twin.below_right inner
  exact {
    matched := matched
    soundLeft := {
      heap := heapLeft ▸ twin.soundLeft.heap
      registers := (forall₂_left matched.registers fun _ _ one => belowLeft one.contents)
      stack := (forall₂_left matched.stack fun _ _ one => belowLeft one)
      program := program ▸ twin.soundLeft.program }
    soundRight := {
      heap := heapRight ▸ twin.soundRight.heap
      registers := forall₂_left matched.registers.flip fun _ _ one => belowRight one.contents
      stack := forall₂_left matched.stack.flip fun _ _ one => belowRight one
      program := matched.program ▸ program ▸ twin.soundLeft.program }
    capacity := by rw [heapLeft, heapRight]; exact twin.capacity
    unnamed := by rw [operations]; exact twin.unnamed }

theorem head (twin : Twin ρ left right) (matched : p.Matches ρ q) :
    Read.Tied (Pointer.Matches ρ) (left.head p) (right.head q) := by
  cases matched with
  | scalar value => exact .error (.refl _) id
  | program address => exact .error (.refl _) id
  | pair related =>
    obtain ⟨_, _, _, _, holds, holds', heads, _⟩ := twin.matched.heap.pairs _ _ related
    simp only [Memory.head, holds.head_eq, holds'.head_eq]
    exact .ok heads

theorem tail (twin : Twin ρ left right) (matched : p.Matches ρ q) :
    Read.Tied (Pointer.Matches ρ) (left.tail p) (right.tail q) := by
  cases matched with
  | scalar value => exact .error (.refl _) id
  | program address => exact .error (.refl _) id
  | pair related =>
    obtain ⟨_, _, _, _, holds, holds', _, tails⟩ := twin.matched.heap.pairs _ _ related
    simp only [Memory.tail, holds.tail_eq, holds'.tail_eq]
    exact .ok tails

/-- The program is the same on both sides, and refers to no run-time pair. -/
theorem programHead (twin : Twin ρ left right) (matched : p.Matches ρ q) :
    Read.Tied Pointer.Static (left.programHead p) (right.programHead q) := by
  cases matched with
  | scalar value => exact .error (.refl _) id
  | pair related => exact .error (.addresses rfl) id
  | program address =>
    simp only [Memory.programHead, twin.matched.program, ProgramHeap.head, ProgramHeap.cell]
    match found : right.program.cells[address]? with
    | none => exact .error (.refl _) id
    | some (head, tail) => exact .ok ⟨rfl, (twin.soundRight.program.cells _ _ _ found).1⟩

@[inherit_doc programHead]
theorem programTail (twin : Twin ρ left right) (matched : p.Matches ρ q) :
    Read.Tied Pointer.Static (left.programTail p) (right.programTail q) := by
  cases matched with
  | scalar value => exact .error (.refl _) id
  | pair related => exact .error (.addresses rfl) id
  | program address =>
    simp only [Memory.programTail, twin.matched.program, ProgramHeap.tail, ProgramHeap.cell]
    match found : right.program.cells[address]? with
    | none => exact .error (.refl _) id
    | some (head, tail) => exact .ok ⟨rfl, (twin.soundRight.program.cells _ _ _ found).2⟩

end Twin

section

variable {o : Origin}

theorem Origin.Coheres.grown {left right : PairHeap} (coheres : o.Coheres ρ left right) :
    o.Coheres (PairHeap.extend ρ left.free right.free) (left.grown p q) (right.grown p' q') where
  free := coheres.free.trans (Nat.le_succ _)
  onward := fun related carried => .inl (coheres.onward related carried)
  back := by
    rintro b c (old | ⟨rfl, rfl⟩) below
    · exact coheres.back old below
    · exact absurd coheres.free (Nat.not_le.mpr below)
  total := by
    intro total b inUse
    rcases Nat.lt_succ_iff_lt_or_eq.mp inUse with old | rfl
    · obtain ⟨c, related⟩ := coheres.total total b old
      exact ⟨c, .inl related⟩
    · exact ⟨right.free, .inr ⟨rfl, rfl⟩⟩

theorem Origin.Coheres.replaced {left right : PairHeap} (coheres : o.Coheres ρ left right) {a b : Nat} :
    o.Coheres ρ (left.replaced a p q) (right.replaced b p' q') where
  free := coheres.free
  onward := coheres.onward
  back := coheres.back
  total := coheres.total

namespace Kin

theorem refit {left' right' : Memory} (kin : Kin o ρ left right) (matched : left'.Matches ρ right')
    (heapLeft : left'.heap = left.heap) (heapRight : right'.heap = right.heap)
    (program : left'.program = left.program) (operations : left'.operations = left.operations) :
    Kin o ρ left' right' where
  toTwin := kin.toTwin.refit matched heapLeft heapRight program operations
  collections := heapRight ▸ kin.collections
  coheres := heapLeft ▸ heapRight ▸ kin.coheres

/-- Allocating matching pairs in room set aside before keeps twins, with the
two new pairs standing for one another. -/
theorem allocReserved (kin : Kin o ρ left right) {count : Nat} (room : Room (count + 1) left right)
    (heads : p.Matches ρ p') (tails : q.Matches ρ q') :
    Action.Tied
      (fun new left' new' right' => ∃ σ, (∀ a b, ρ a b → σ a b) ∧ Kin o σ left' right' ∧
        new.Matches σ new' ∧ Room count left' right')
      (Action.allocReserved p q left) (Action.allocReserved p' q' right) := by
  have roomLeft : 0 < left.heap.available := Nat.lt_of_lt_of_le (Nat.succ_pos _) room.1
  have roomRight : 0 < right.heap.available := Nat.lt_of_lt_of_le (Nat.succ_pos _) room.2
  have runLeft : Action.allocReserved p q left =
      .ok (.pair left.heap.free) (left.withHeap (left.heap.grown p q)) := by
    simp only [Action.allocReserved, Action.onHeap, bind, EStateM.bind, pure, EStateM.pure,
      PairHeap.alloc_eq_grown kin.soundLeft.heap.toSized roomLeft, Memory.withHeap]
  have runRight : Action.allocReserved p' q' right =
      .ok (.pair right.heap.free) (right.withHeap (right.heap.grown p' q')) := by
    simp only [Action.allocReserved, Action.onHeap, bind, EStateM.bind, pure, EStateM.pure,
      PairHeap.alloc_eq_grown kin.soundRight.heap.toSized roomRight, Memory.withHeap]
  rw [runLeft, runRight]
  refine .ok ⟨PairHeap.extend ρ left.heap.free right.heap.free, fun _ _ related => .inl related,
    ?_, .pair (.inr ⟨rfl, rfl⟩), ?_⟩
  · have twin := kin.toTwin
    refine ⟨twin.withHeap ?_ (fun _ _ related => .inl related)
      (twin.soundLeft.heap.grown roomLeft (twin.below_left heads) (twin.below_left tails))
      (twin.soundRight.heap.grown roomRight (twin.below_right heads) (twin.below_right tails))
      (Nat.le_succ _) (Nat.le_succ _) rfl rfl ?_, kin.collections, fun still => (kin.coheres still).grown⟩
    · exact twin.matched.heap.grown twin.soundLeft.heap.toSized twin.soundRight.heap.toSized
        roomLeft roomRight heads tails
    · exact congrArg (· + 1) twin.matched.allocated
  · simp only [Room, Memory.withHeap, PairHeap.grown_available]
    have first := room.1
    have second := room.2
    omega

/-- Overwriting pairs that stand for one another with matching ones keeps
twins, and moves nothing. -/
theorem replaced {a b : Nat} (kin : Kin o ρ left right) (related : ρ a b)
    (heads : p.Matches ρ p') (tails : q.Matches ρ q') :
    Kin o ρ (left.withHeap (left.heap.replaced a p q))
      (right.withHeap (right.heap.replaced b p' q')) := by
  have twin := kin.toTwin
  obtain ⟨_, _, _, _, holds, holds', _, _⟩ := twin.matched.heap.pairs a b related
  refine ⟨twin.withHeap (twin.matched.heap.replaced related heads tails) (fun _ _ => id)
    (twin.soundLeft.heap.replaced holds (twin.below_left heads) (twin.below_left tails))
    (twin.soundRight.heap.replaced holds' (twin.below_right heads) (twin.below_right tails))
    le_rfl le_rfl rfl rfl twin.matched.allocated, kin.collections, fun still => (kin.coheres still).replaced⟩

theorem setHead (kin : Kin o ρ left right) (pairs : p.Matches ρ p') (values : q.Matches ρ q') :
    Action.Tied (fun _ left' _ right' => Kin o ρ left' right') (Action.setHead p q left)
      (Action.setHead p' q' right) := by
  cases pairs with
  | scalar value => exact .error (.refl _) id kin.tallies
  | program address => exact .error (.refl _) id kin.tallies
  | @pair a b related =>
    obtain ⟨_, _, _, _, holds, holds', _, tails⟩ := kin.matched.heap.pairs a b related
    simp only [Action.setHead, Action.onHeap, PairHeap.setHead_eq_replaced holds,
      PairHeap.setHead_eq_replaced holds']
    exact .ok (kin.replaced related values tails)

theorem setTail (kin : Kin o ρ left right) (pairs : p.Matches ρ p') (values : q.Matches ρ q') :
    Action.Tied (fun _ left' _ right' => Kin o ρ left' right') (Action.setTail p q left)
      (Action.setTail p' q' right) := by
  cases pairs with
  | scalar value => exact .error (.refl _) id kin.tallies
  | program address => exact .error (.refl _) id kin.tallies
  | @pair a b related =>
    obtain ⟨_, _, _, _, holds, holds', heads, _⟩ := kin.matched.heap.pairs a b related
    simp only [Action.setTail, Action.onHeap, PairHeap.setTail_eq_replaced holds,
      PairHeap.setTail_eq_replaced holds']
    exact .ok (kin.replaced related heads values)

end Kin

end

end Memory

end ExplicitControl
