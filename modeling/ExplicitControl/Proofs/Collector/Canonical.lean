import ExplicitControl.Proofs.Collector.Compaction
import ExplicitControl.Proofs.Memory.Matching

namespace ExplicitControl

open Relator

namespace PairHeap

/-- The addresses met so far in the order in which they were met, and one
pointer more. A pointer to a pair that is not among them puts its address at
the end; any other leaves the order as it is. -/
def meet (order : List Nat) : Pointer → List Nat
  | .pair a => if a ∈ order then order else order ++ [a]
  | _ => order

/-- What is met from the roots and then from the pairs that were met first, as
many of them as have been scanned, the head of each before its tail. This is
the order in which a collection copies pairs, said without addresses of copies
or regions. -/
inductive Meets (heap : PairHeap) (roots : List Pointer) : (scanned : Nat) → (order : List Nat) → Prop
  | start : Meets heap roots 0 (roots.foldl meet [])
  | scan {scanned a : Nat} {order : List Nat} {head tail : Pointer} :
      Meets heap roots scanned order → order[scanned]? = some a → heap.Holds a head tail →
      Meets heap roots (scanned + 1) (meet (meet order head) tail)

/-- Everything that can be reached is in use and has not been moved away. -/
def Whole (heap : PairHeap) (roots : List Pointer) : Prop :=
  ∀ a, heap.Reaches roots a → ∃ head tail, heap.Holds a head tail

variable {heap : PairHeap} {roots : List Pointer} {order : List Nat} {p : Pointer} {a : Nat}

theorem mem_meet : a ∈ meet order p ↔ a ∈ order ∨ p = .pair a := by
  cases p with
  | pair b =>
    by_cases old : b ∈ order
    · simp only [meet, if_pos old, Pointer.pair.injEq, iff_self_or]
      rintro rfl
      exact old
    · simp only [meet, if_neg old, List.mem_append, List.mem_singleton, Pointer.pair.injEq, eq_comm]
  | scalar value => simp [meet]
  | program address => simp [meet]

theorem prefix_meet (order : List Nat) (p : Pointer) : order <+: meet order p := by
  cases p with
  | pair a =>
    by_cases old : a ∈ order
    · simp only [meet, if_pos old, List.prefix_refl]
    · rw [meet, if_neg old]
      exact List.prefix_append order [a]
  | scalar value => exact List.prefix_refl order
  | program address => exact List.prefix_refl order

/-- Where nothing but the pointer is added, and no address twice, it is met. -/
theorem append_eq_meet {more : List Nat} (nodup : (order ++ more).Nodup) (within : p.Within (order ++ more))
    (added : ∀ a ∈ more, p = .pair a) : order ++ more = meet order p := by
  cases more with
  | nil =>
    rw [List.append_nil] at within ⊢
    cases p with
    | pair a => exact (if_pos within).symm
    | scalar value => rfl
    | program address => rfl
  | cons a more =>
    obtain rfl := added a List.mem_cons_self
    have parts := List.nodup_append.mp nodup
    have alone : more = [] := by
      refine List.eq_nil_iff_forall_not_mem.mpr fun b member => ?_
      obtain rfl := Pointer.pair.inj (added b (List.mem_cons_of_mem _ member))
      exact (List.nodup_cons.mp parts.2.1).1 member
    have new : a ∉ order := fun old => parts.2.2 a old a List.mem_cons_self rfl
    rw [alone, meet, if_neg new]

theorem prefix_foldl_meet (roots : List Pointer) (order : List Nat) : order <+: roots.foldl meet order := by
  induction roots generalizing order with
  | nil => exact List.prefix_refl order
  | cons root rest ih => exact (prefix_meet order root).trans (ih (meet order root))

theorem mem_foldl_meet (roots : List Pointer) :
    a ∈ roots.foldl meet order ↔ a ∈ order ∨ .pair a ∈ roots := by
  induction roots generalizing order with
  | nil => simp
  | cons root rest ih =>
    rw [List.foldl_cons, ih, mem_meet, List.mem_cons, or_assoc, eq_comm]

/-- Nothing is met but what can be reached. -/
theorem Meets.reaches {scanned : Nat} (meets : heap.Meets roots scanned order) :
    ∀ a ∈ order, heap.Reaches roots a := by
  induction meets with
  | start => exact fun a member => .root (((mem_foldl_meet roots).mp member).resolve_left List.not_mem_nil)
  | scan _ entry holds ih =>
    have reached := ih _ (List.mem_of_getElem? entry)
    intro b member
    rcases mem_meet.mp member with inner | rfl
    · rcases mem_meet.mp inner with old | rfl
      · exact ih b old
      · exact .head reached holds
    · exact .tail reached holds

/-- What has been met at a time does not depend on the way there: from the
same roots, with the same number of pairs scanned, there is one order. -/
theorem Meets.unique {scanned : Nat} {order' : List Nat} (one : heap.Meets roots scanned order)
    (other : heap.Meets roots scanned order') : order = order' := by
  induction one generalizing order' with
  | start =>
    cases other
    rfl
  | scan _ entry holds ih =>
    cases other with
    | scan other entry' holds' =>
      obtain rfl := ih other
      obtain rfl := Option.some.inj (entry.symm.trans entry')
      obtain ⟨rfl, rfl⟩ := holds.unique holds'
      rfl

/-- Before the end, there was more to scan. -/
theorem Meets.earlier {late early : Nat} (meets : heap.Meets roots late order) (before : early < late) :
    ∃ order', heap.Meets roots early order' ∧ early < order'.length := by
  induction meets with
  | start => exact absurd before (Nat.not_lt_zero _)
  | @scan scanned a order head tail meets entry _ ih =>
    rcases Nat.lt_succ_iff_lt_or_eq.mp before with earlier | rfl
    · exact ih earlier
    · exact ⟨order, meets, (List.getElem?_eq_some_iff.mp entry).1⟩

/-- There is one order in which everything that was met has been scanned. A
shorter one would have something left to scan, so neither of two complete
orders can be a proper beginning of the other. -/
theorem Meets.complete_unique {order' : List Nat} (one : heap.Meets roots order.length order)
    (other : heap.Meets roots order'.length order') : order = order' := by
  rcases Nat.lt_trichotomy order.length order'.length with less | same | more
  · obtain ⟨before, meets, waiting⟩ := other.earlier less
    rw [one.unique meets] at waiting
    exact absurd waiting (Nat.lt_irrefl _)
  · rw [same] at one
    exact one.unique other
  · obtain ⟨before, meets, waiting⟩ := one.earlier more
    rw [other.unique meets] at waiting
    exact absurd waiting (Nat.lt_irrefl _)

end PairHeap

namespace Evacuation

variable {heap : PairHeap} {roots : List Pointer} {order : List Nat} {scanned : Nat} {e : Evacuation} {p : Pointer}

/-- Relocating a pointer to a pair that is whole meets it: the pair is copied
to the next place if it is new, and the copies are left as they are if it is
not. -/
theorem relocate_meets (sized : heap.Sized) (copied : Copied heap order scanned e) (scannedLe : scanned ≤ order.length)
    (whole : ∀ a, p = .pair a → ∃ head tail, heap.Holds a head tail) :
    ∃ e', relocate p e = .ok (heap.forward (PairHeap.meet order p) p) e' ∧
      Copied heap (PairHeap.meet order p) scanned e' ∧ heap.Settles (PairHeap.meet order p) p := by
  -- a collection stops only at a pair that is not in use, and one that is whole is
  rcases relocate_cases sized copied scannedLe p with
    ⟨a, isPair, outside, _⟩ | ⟨more, e', moved, copied', settles, isPointer⟩
  · obtain ⟨_, _, holds⟩ := whole a isPair
    exact absurd holds.lt (Nat.not_lt.mpr outside)
  · have within : p.Within (order ++ more) := by
      cases p with
      | pair a =>
        obtain ⟨_, _, holds⟩ := whole a rfl
        exact settles.2 holds.mark?_eq
      | scalar value => trivial
      | program address => trivial
    have met := PairHeap.append_eq_meet copied'.nodup within isPointer
    rw [met] at moved copied' settles
    exact ⟨e', moved, copied', settles⟩

theorem relocateRoots_meets (sized : heap.Sized) (copied : Copied heap order 0 e) (roots done : List Pointer)
    (whole : ∀ a, .pair a ∈ roots → ∃ head tail, heap.Holds a head tail) :
    ∃ e', relocateRoots done roots e =
        (.ok (), done.reverse ++ roots.map (heap.forward (roots.foldl PairHeap.meet order)), e') ∧
      Copied heap (roots.foldl PairHeap.meet order) 0 e' ∧
      ∀ p ∈ roots, heap.Settles (roots.foldl PairHeap.meet order) p := by
  induction roots generalizing order done e with
  | nil => exact ⟨e, by simp [relocateRoots], copied, fun _ member => nomatch member⟩
  | cons root rest ih =>
    obtain ⟨e₁, moved, copied₁, rootIn⟩ :=
      relocate_meets sized copied (Nat.zero_le _) fun a isRoot => whole a (isRoot ▸ List.mem_cons_self)
    obtain ⟨e', run, copied', settles⟩ := ih copied₁ (heap.forward (PairHeap.meet order root) root :: done)
      fun a member => whole a (List.mem_cons_of_mem _ member)
    obtain ⟨more, same⟩ := PairHeap.prefix_foldl_meet rest (PairHeap.meet order root)
    refine ⟨e', ?_, copied', fun p member => ?_⟩
    · rw [relocateRoots, moved, List.foldl_cons, List.map_cons]
      simp only [run, List.reverse_cons, List.append_assoc, List.singleton_append]
      rw [← same, PairHeap.forward_append rootIn]
    · rcases List.mem_cons.mp member with rfl | later
      · exact rootIn.mono (PairHeap.prefix_foldl_meet rest _).subset
      · exact settles p later

/-- Scanning a copy meets its head, then its tail. Both lie in the old pair
unchanged until the copy is finished, so what is met is what the old pair
refers to. -/
theorem scanSlot_meets (sized : heap.Sized) (copied : Copied heap order scanned e) {a : Nat} {head tail : Pointer}
    (entry : order[scanned]? = some a) (holds : heap.Holds a head tail)
    (whole : ∀ b, head = .pair b ∨ tail = .pair b → ∃ head tail, heap.Holds b head tail) :
    ∃ e', scanSlot scanned e = .ok () e' ∧
      Copied heap (PairHeap.meet (PairHeap.meet order head) tail) (scanned + 1) e' := by
  have inOrder : scanned < order.length := (List.getElem?_eq_some_iff.mp entry).1
  obtain ⟨head', tail', holds', stored⟩ := copied.waiting scanned a le_rfl entry
  obtain ⟨rfl, rfl⟩ := holds.unique holds'
  obtain ⟨e₁, headDone, copied₁, headIn⟩ :=
    relocate_meets sized copied inOrder.le fun b isPair => whole b (.inl isPair)
  have inOrder₁ : scanned < (PairHeap.meet order head).length :=
    inOrder.trans_le (PairHeap.prefix_meet order head).length_le
  obtain ⟨e₂, tailDone, copied₂, tailIn⟩ :=
    relocate_meets sized copied₁ inOrder₁.le fun b isPair => whole b (.inr isPair)
  obtain ⟨moreHead, isHead⟩ := PairHeap.prefix_meet order head
  obtain ⟨moreTail, isTail⟩ := PairHeap.prefix_meet (PairHeap.meet order head) tail
  have entry₂ : (PairHeap.meet (PairHeap.meet order head) tail)[scanned]? = some a := by
    rw [← isTail, List.getElem?_append_left inOrder₁, ← isHead, List.getElem?_append_left inOrder]
    exact entry
  have finished := copied₂.advance entry₂ holds (headIn.mono (PairHeap.prefix_meet _ tail).subset) tailIn
  refine ⟨_, ?_, finished⟩
  simp only [scanSlot, bind, EStateM.bind, Evacuation.copied, stored, headDone, tailDone, write]
  rw [← PairHeap.forward_append headIn moreTail, isTail]

/-- The whole scan goes on until everything that was met has been scanned.
Each step scans one pair, and there are at most as many as were in use, so the
steps it is given suffice. -/
theorem scan_meets (sized : heap.Sized) (whole : heap.Whole roots) (fuel : Nat) {slot : Nat}
    (copied : Copied heap order slot e) (meets : heap.Meets roots slot order) (slotLe : slot ≤ order.length)
    (enough : heap.free ≤ slot + fuel) :
    ∃ order' e', scan slot fuel e = .ok () e' ∧ Copied heap order' order'.length e' ∧
      heap.Meets roots order'.length order' ∧ order <+: order' := by
  induction fuel generalizing slot order e with
  | zero =>
    have length := copied.length_le
    obtain rfl : slot = order.length := by omega
    exact ⟨order, e, rfl, copied, meets, List.prefix_refl order⟩
  | succ fuel ih =>
    rw [scan_succ, copied.next]
    by_cases more : slot < order.length
    · have entry : order[slot]? = some order[slot] := List.getElem?_eq_getElem more
      obtain ⟨head, tail, holds, _⟩ := copied.waiting slot _ le_rfl entry
      have reached := meets.reaches _ (List.getElem_mem more)
      obtain ⟨e₁, scanned, copied₁⟩ := scanSlot_meets sized copied entry holds fun b edge => by
        rcases edge with rfl | rfl
        · exact whole b (.head reached holds)
        · exact whole b (.tail reached holds)
      have longer := (PairHeap.prefix_meet order head).trans (PairHeap.prefix_meet (PairHeap.meet order head) tail)
      obtain ⟨order', e', run, copied', meets', isPrefix⟩ :=
        ih copied₁ (meets.scan entry holds) (more.trans_le longer.length_le) (by omega)
      refine ⟨order', e', ?_, copied', meets', longer.trans isPrefix⟩
      simp only [if_pos more, bind, EStateM.bind, scanned, run]
    · obtain rfl : slot = order.length := by omega
      rw [if_neg more]
      exact ⟨order, e, rfl, copied, meets, List.prefix_refl order⟩

end Evacuation

namespace PairHeap

/-- What a collection leaves when it has met pairs in an order: each lies at
its place in the order, with a head and a tail that lead to such places too. -/
structure Arranged (heap : PairHeap) (roots : List Pointer) (order : List Nat) (result : Collection) : Prop where
  meets : heap.Meets roots order.length order
  nodup : order.Nodup
  rooted : ∀ p : Pointer, p ∈ roots → p.Within order
  outcome : result.outcome = .ok order.length
  roots : result.roots = roots.map (Pointer.forward order)
  sized : result.heap.Sized
  free : result.heap.free = order.length
  cells : ∀ i a : Nat, order[i]? = some a → ∃ head tail, heap.Holds a head tail ∧ head.Within order ∧
    tail.Within order ∧ result.heap.Holds i (head.forward order) (tail.forward order)

variable {heap left right : PairHeap} {roots roots' : List Pointer} {order order' : List Nat} {p q : Pointer}

/-- Where a pointer to a pair that is whole is settled, it leads to a place in
the order. No mark of an earlier collection is followed on the way. -/
theorem Settles.within (settles : heap.Settles order p)
    (whole : ∀ a, p = .pair a → ∃ head tail, heap.Holds a head tail) :
    p.Within order ∧ heap.forward order p = p.forward order := by
  cases p with
  | pair a =>
    obtain ⟨_, _, holds⟩ := whole a rfl
    refine ⟨settles.2 holds.mark?_eq, ?_⟩
    simp only [forward, Pointer.forward, Pointer.rename, holds.mark?_eq, Option.getD_none]
  | scalar value => exact ⟨trivial, rfl⟩
  | program address => exact ⟨trivial, rfl⟩

/-- If everything that can be reached is in use and whole, a collection
succeeds and lays the pairs out in the order in which they are met, breadth
first from the roots. -/
theorem collect_arranged (sized : heap.Sized) (whole : heap.Whole roots) :
    ∃ order, Arranged heap roots order (heap.collect roots) := by
  obtain ⟨active, spare, free, capacity, statistics⟩ := heap
  obtain ⟨e₁, moved, copied₁, settles⟩ := Evacuation.relocateRoots_meets sized (Evacuation.Copied.start _) roots []
    fun a isRoot => whole a (.root isRoot)
  obtain ⟨order, e₂, scanned, copied, meets, isPrefix⟩ :=
    Evacuation.scan_meets sized whole free copied₁ .start (Nat.zero_le _) (Nat.le_add_left _ _)
  have result : collect ⟨active, spare, free, capacity, statistics⟩ roots =
      { heap :=
          { active := e₂.target
            spare := e₂.source
            free := e₂.next
            capacity := capacity
            statistics := { statistics with
              collections := statistics.collections + 1
              copied := statistics.copied + e₂.next
              liveAfterLast := e₂.next } }
        roots := roots.map (forward ⟨active, spare, free, capacity, statistics⟩ (roots.foldl meet []))
        outcome := .ok e₂.next } := by
    simp only [collect]
    rw [moved]
    simp only [scanned, List.reverse_nil, List.nil_append]
  obtain ⟨more, same⟩ := isPrefix
  have rooted (p : Pointer) (isRoot : p ∈ roots) :=
    ((settles p isRoot).mono (List.subset_append_left _ more)).within fun a isPair => whole a (.root (isPair ▸ isRoot))
  rw [same] at rooted
  refine ⟨order, ?_⟩
  rw [result]
  exact {
    meets := meets
    nodup := copied.nodup
    rooted := fun p isRoot => (rooted p isRoot).1
    outcome := congrArg _ copied.next
    roots := List.map_congr_left fun p isRoot => by
      rw [← (rooted p isRoot).2, ← same]
      exact (forward_append (settles p isRoot) more).symm
    sized := ⟨copied.targetSize.trans sized.spare, copied.sourceSize.trans sized.active,
      by simpa only [copied.next] using copied.length_le.trans sized.free⟩
    free := copied.next
    cells := by
      intro i a entry
      have inside := (List.getElem?_eq_some_iff.mp entry).1
      obtain ⟨head, tail, holds, headIn, tailIn, stored⟩ := copied.finished i a inside entry
      have reached := meets.reaches a (List.mem_of_getElem? entry)
      obtain ⟨headWithin, headSame⟩ := headIn.within fun b isPair => whole b (.head reached (isPair ▸ holds))
      obtain ⟨tailWithin, tailSame⟩ := tailIn.within fun b isPair => whole b (.tail reached (isPair ▸ holds))
      rw [headSame, tailSame] at stored
      exact ⟨head, tail, holds, headWithin, tailWithin, copied.next.symm ▸ inside, stored⟩ }

section

variable {ρ : Nat → Nat → Prop} (matched : left.Matches ρ right) (rows : List.Forall₂ (Pointer.Matches ρ) roots roots')

/-- What stands for one another is met at the same place: pointers that match
under a relation of addresses extend related orders by related addresses, or
extend neither. -/
theorem meet_related (unique : Relator.BiUnique ρ) (related : List.Forall₂ ρ order order') (same : p.Matches ρ q) :
    List.Forall₂ ρ (meet order p) (meet order' q) := by
  cases same with
  | scalar value => exact related
  | program address => exact related
  | @pair a b one =>
    have members := List.rel_mem unique one related
    by_cases old : a ∈ order
    · rwa [meet, meet, if_pos old, if_pos (members.mp old)]
    · rw [meet, meet, if_neg old, if_neg (mt members.mpr old)]
      exact List.rel_append related (.cons one .nil)

include matched rows

/-- Matching roots in matching heaps are met in orders that are related
address by address, after any number of scans. -/
theorem Meets.related {scanned : Nat} (meets : left.Meets roots scanned order) :
    ∃ order', right.Meets roots' scanned order' ∧ List.Forall₂ ρ order order' := by
  induction meets with
  | start =>
    have step : (List.Forall₂ ρ ⇒ Pointer.Matches ρ ⇒ List.Forall₂ ρ) meet meet :=
      fun _ _ related _ _ same => meet_related matched.unique related same
    exact ⟨_, .start, List.rel_foldl step .nil rows⟩
  | @scan scanned a order head tail _ entry holds ih =>
    obtain ⟨order', meets', related⟩ := ih
    obtain ⟨inside, rfl⟩ := List.getElem?_eq_some_iff.mp entry
    have inside' : scanned < order'.length := related.length_eq ▸ inside
    obtain ⟨_, _, head', tail', holds₁, holds', heads, tails⟩ := matched.pairs _ _ (related.get inside inside')
    obtain ⟨rfl, rfl⟩ := holds.unique holds₁
    exact ⟨_, meets'.scan (List.getElem?_eq_getElem inside') holds',
      meet_related matched.unique (meet_related matched.unique related heads) tails⟩

theorem Matches.whole_right : right.Whole roots' := by
  intro b reached
  obtain ⟨a, related⟩ := matched.exists_of_reaches rows reached
  obtain ⟨_, _, head, tail, _, holds, _⟩ := matched.pairs a b related
  exact ⟨head, tail, holds⟩

end

/-- Related addresses have the same place in related orders. The relation
pairs every address with one other at most, so an address cannot occur earlier
on one side alone. -/
theorem idxOf_related {ρ : Nat → Nat → Prop} (unique : Relator.BiUnique ρ) (related : List.Forall₂ ρ order order')
    {a b : Nat} (one : ρ a b) : order.idxOf a = order'.idxOf b := by
  induction related with
  | nil => rfl
  | @cons c d order order' first _ ih =>
    have same : (c == a) = (d == b) := by
      rw [Bool.eq_iff_iff, beq_iff_eq, beq_iff_eq]
      exact Relator.rel_eq unique first one
    rw [List.idxOf_cons, List.idxOf_cons, same, ih]

theorem forward_related {ρ : Nat → Nat → Prop} (unique : Relator.BiUnique ρ) (related : List.Forall₂ ρ order order')
    (same : p.Matches ρ q) : p.forward order = q.forward order' := by
  cases same with
  | scalar value => rfl
  | program address => rfl
  | pair one => exact congrArg Pointer.pair (idxOf_related unique related one)

end PairHeap

/-- Two collections that succeed, keep as many pairs and leave the same roots
and the same cells. -/
structure Collection.SameLayout (one other : Collection) : Prop where
  outcome : ∃ live, one.outcome = .ok live ∧ other.outcome = .ok live
  roots : one.roots = other.roots
  free : one.heap.free = other.heap.free
  cells : ∀ a < one.heap.free, ∃ slot, one.heap.active[a]? = some slot ∧ other.heap.active[a]? = some slot

namespace PairHeap

variable {heap left right : PairHeap} {roots roots' : List Pointer} {order order' : List Nat} {p q : Pointer}
  {result result' : Collection}

/-- Graphs of pairs that stand for one another are arranged alike: the same
roots, as many pairs, and in every cell in use the same head and tail. -/
theorem Arranged.same {ρ : Nat → Nat → Prop} (one : left.Arranged roots order result)
    (other : right.Arranged roots' order' result') (matched : left.Matches ρ right)
    (rows : List.Forall₂ (Pointer.Matches ρ) roots roots') : result.SameLayout result' := by
  -- the order that the other collection would have if it went along is the one it has
  obtain ⟨order₁, meets, related⟩ := one.meets.related matched rows
  have length := related.length_eq
  obtain rfl : order₁ = order' := Meets.complete_unique (length ▸ meets) other.meets
  refine ⟨⟨order.length, one.outcome, length ▸ other.outcome⟩, ?_, ?_, fun i inside => ?_⟩
  · rw [one.roots, other.roots]
    refine List.forall₂_eq_eq_eq ▸ List.rel_map (fun _ _ same => ?_) rows
    exact forward_related matched.unique related same
  · rw [one.free, other.free, length]
  · rw [one.free] at inside
    have inside' := length ▸ inside
    obtain ⟨head, tail, holds, _, _, stored⟩ := one.cells i _ (List.getElem?_eq_getElem inside)
    obtain ⟨head', tail', holds', _, _, stored'⟩ := other.cells i _ (List.getElem?_eq_getElem inside')
    obtain ⟨_, _, _, _, holds₁, holds₂, heads, tails⟩ := matched.pairs _ _ (related.get inside inside')
    obtain ⟨rfl, rfl⟩ := holds.unique holds₁
    obtain ⟨rfl, rfl⟩ := holds'.unique holds₂
    rw [forward_related matched.unique related heads, forward_related matched.unique related tails] at stored
    exact ⟨_, stored.2, stored'.2⟩

/-- Two heaps whose reachable pairs match under a relation that is one to one
are collected alike, so a collection forgets everything but the graph. -/
theorem collect_alike {ρ : Nat → Nat → Prop} (sized : left.Sized) (sized' : right.Sized)
    (matched : left.Matches ρ right) (rows : List.Forall₂ (Pointer.Matches ρ) roots roots') :
    (left.collect roots).SameLayout (right.collect roots') := by
  have whole : left.Whole roots := matched.symm.whole_right (rows.flip.imp fun _ _ one => one.symm)
  obtain ⟨order, one⟩ := collect_arranged sized whole
  obtain ⟨order', other⟩ := collect_arranged sized' (matched.whole_right rows)
  exact one.same other matched rows

/-- What has been arranged stands for what it was before, each pair at its
place in the order. So what a collection leaves can itself be matched against,
and collected once more. -/
theorem Arranged.matched (one : heap.Arranged roots order result) :
    heap.Matches (fun a i => order[i]? = some a) result.heap ∧
      List.Forall₂ (Pointer.Matches fun a i => order[i]? = some a) roots result.roots := by
  have renamed {p : Pointer} (within : p.Within order) :
      p.Matches (fun a i => order[i]? = some a) (p.forward order) := by
    refine .rename ?_
    rintro a rfl
    exact List.getElem?_idxOf within
  refine ⟨⟨⟨fun a i b first second => ?_, fun a i j first second => ?_⟩, fun a i entry => ?_⟩, ?_⟩
  · exact Option.some.inj (first.symm.trans second)
  · have inside := (List.getElem?_eq_some_iff.mp first).1
    exact (List.getElem?_inj inside one.nodup).mp (first.trans second.symm)
  · obtain ⟨head, tail, holds, headIn, tailIn, stored⟩ := one.cells i a entry
    exact ⟨head, tail, _, _, holds, stored, renamed headIn, renamed tailIn⟩
  · rw [one.roots, List.forall₂_map_right_iff, List.forall₂_same]
    exact fun p isRoot => renamed (one.rooted p isRoot)

/-- A function takes the pairs that can be reached from some roots, one to one,
to those that can be reached from others. Roots, heads and tails go by it. -/
structure Isomorphism (left : PairHeap) (roots : List Pointer) (right : PairHeap) (roots' : List Pointer)
    (f : Nat → Nat) : Prop where
  bijective : Set.BijOn f {a | left.Reaches roots a} {b | right.Reaches roots' b}
  rooted : roots.map (Pointer.rename f) = roots'
  pairs : ∀ a head tail, left.Reaches roots a → left.Holds a head tail →
    right.Holds (f a) (head.rename f) (tail.rename f)

/-- Isomorphic graphs are laid out alike by a collection, whatever the
capacity of the heaps, where the pairs lay and what lay between them; and
collecting once more changes neither roots nor cells. The layout is canonical
because pairs are copied in the order in which they are met. -/
theorem collect_canonical {f : Nat → Nat} (sized : left.Sized) (plain : left.Plain)
    (inside : ∀ a, left.Reaches roots a → a < left.free) (sized' : right.Sized)
    (isomorphism : Isomorphism left roots right roots' f) :
    (left.collect roots).SameLayout (right.collect roots') ∧
      (left.collect roots).SameLayout ((left.collect roots).heap.collect (left.collect roots).roots) := by
  have matched : left.Matches (fun a b => left.Reaches roots a ∧ f a = b) right := by
    refine ⟨⟨?_, ?_⟩, ?_⟩
    · rintro a b c ⟨reached, rfl⟩ ⟨reached', same⟩
      exact (isomorphism.bijective.injOn reached' reached same).symm
    · rintro a b c ⟨_, rfl⟩ ⟨_, rfl⟩
      rfl
    · rintro a b ⟨reached, rfl⟩
      obtain ⟨head, tail, holds⟩ := plain a (inside a reached)
      refine ⟨head, tail, _, _, holds, isomorphism.pairs a head tail reached holds, .rename ?_, .rename ?_⟩
      · rintro c rfl
        exact ⟨.head reached holds, rfl⟩
      · rintro c rfl
        exact ⟨.tail reached holds, rfl⟩
  have rows : List.Forall₂ (Pointer.Matches fun a b => left.Reaches roots a ∧ f a = b) roots roots' := by
    rw [← isomorphism.rooted, List.forall₂_map_right_iff, List.forall₂_same]
    refine fun p isRoot => .rename ?_
    rintro a rfl
    exact ⟨.root isRoot, rfl⟩
  -- collecting once more is collecting an isomorphic graph
  obtain ⟨order, arranged⟩ := collect_arranged sized fun a reached => plain a (inside a reached)
  obtain ⟨again, rows'⟩ := arranged.matched
  exact ⟨collect_alike sized sized' matched rows, collect_alike sized arranged.sized again rows'⟩

/-- The pairs of `ring` that can be reached, at other addresses of a larger
heap and with others between them. -/
def scattered : PairHeap where
  active := #[⟨.value (.string "x"), .pair 4⟩, ⟨.value (.pair 3), .null⟩, ⟨.value (.pair 0), .pair 1⟩,
    ⟨.value .undefined, .pair 3⟩, ⟨.value (.pair 0), .pair 4⟩, Slot.blank, Slot.blank]
  spare := Region.blank 7
  free := 5
  capacity := 7
  statistics := {}

/-- Where the pairs of `ring` that can be reached lie in `scattered`. -/
def scatter (a : Nat) : Nat :=
  if a = 2 then 0 else 4

theorem ring_reaches_iff {a : Nat} : ring.Reaches [.pair 2, .program 7, .pair 2] a ↔ a = 1 ∨ a = 2 := by
  have two : ring.Reaches [.pair 2, .program 7, .pair 2] 2 := .root List.mem_cons_self
  constructor
  · intro reached
    have member : a ∈ [1, 2] := reached.subset_of_closed (by simp [Pointer.Within]) (by
      intro b member head tail holds
      rcases List.mem_pair.mp member with rfl | rfl <;>
        obtain ⟨rfl, rfl⟩ := holds.unique (⟨by decide, rfl⟩ : ring.Holds _ _ _) <;>
        simp [Pointer.Within])
    exact List.mem_pair.mp member
  · rintro (rfl | rfl)
    · exact .tail two (⟨by decide, rfl⟩ : ring.Holds 2 _ _)
    · exact two

theorem scattered_reaches_iff {b : Nat} : scattered.Reaches [.pair 0, .program 7, .pair 0] b ↔ b = 0 ∨ b = 4 := by
  have zero : scattered.Reaches [.pair 0, .program 7, .pair 0] 0 := .root List.mem_cons_self
  constructor
  · intro reached
    have member : b ∈ [0, 4] := reached.subset_of_closed (by simp [Pointer.Within]) (by
      intro b member head tail holds
      rcases List.mem_pair.mp member with rfl | rfl <;>
        obtain ⟨rfl, rfl⟩ := holds.unique (⟨by decide, rfl⟩ : scattered.Holds _ _ _) <;>
        simp [Pointer.Within])
    exact List.mem_pair.mp member
  · rintro (rfl | rfl)
    · exact zero
    · exact .tail zero (⟨by decide, rfl⟩ : scattered.Holds 0 _ _)

theorem collect_scattered_canonical :
    ring.Sized ∧ ring.Plain ∧ scattered.Sized ∧
    Isomorphism ring [.pair 2, .program 7, .pair 2] scattered [.pair 0, .program 7, .pair 0] scatter ∧
    (ring.collect [.pair 2, .program 7, .pair 2]).SameLayout
      (scattered.collect [.pair 0, .program 7, .pair 0]) ∧
    (ring.collect [.pair 2, .program 7, .pair 2]).SameLayout
      ((ring.collect [.pair 2, .program 7, .pair 2]).heap.collect
        (ring.collect [.pair 2, .program 7, .pair 2]).roots) := by
  have sized : ring.Sized := ⟨rfl, by simp [ring, Region.blank], by decide⟩
  have sized' : scattered.Sized := ⟨rfl, by simp [scattered, Region.blank], by decide⟩
  have plain : ring.Plain := by
    intro a inUse
    have cases : a = 0 ∨ a = 1 ∨ a = 2 := by simp only [ring] at inUse; omega
    rcases cases with rfl | rfl | rfl <;> exact ⟨_, _, by decide, rfl⟩
  have isomorphism :
      Isomorphism ring [.pair 2, .program 7, .pair 2] scattered [.pair 0, .program 7, .pair 0] scatter := by
    refine ⟨⟨fun a reached => ?_, fun a reached b reached' same => ?_, fun b reached => ?_⟩, rfl, ?_⟩
    · rcases ring_reaches_iff.mp reached with rfl | rfl
      · exact scattered_reaches_iff.mpr (.inr rfl)
      · exact scattered_reaches_iff.mpr (.inl rfl)
    · rcases ring_reaches_iff.mp reached with rfl | rfl <;>
        rcases ring_reaches_iff.mp reached' with rfl | rfl <;> first | rfl | cases same
    · rcases scattered_reaches_iff.mp reached with rfl | rfl
      · exact ⟨2, ring_reaches_iff.mpr (.inr rfl), rfl⟩
      · exact ⟨1, ring_reaches_iff.mpr (.inl rfl), rfl⟩
    · intro a head tail reached holds
      rcases ring_reaches_iff.mp reached with rfl | rfl <;>
        obtain ⟨rfl, rfl⟩ := holds.unique (⟨by decide, rfl⟩ : ring.Holds _ _ _) <;>
        exact ⟨by decide, rfl⟩
  have inside : ∀ a, ring.Reaches [.pair 2, .program 7, .pair 2] a → a < ring.free := by
    intro a reached
    rcases ring_reaches_iff.mp reached with rfl | rfl <;> decide
  exact ⟨sized, plain, sized', isomorphism, collect_canonical sized plain inside sized' isomorphism⟩

end PairHeap

end ExplicitControl
