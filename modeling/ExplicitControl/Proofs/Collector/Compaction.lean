import ExplicitControl.Proofs.Collector.Evacuation

namespace ExplicitControl

namespace Evacuation

variable {heap : PairHeap} {order : List Nat} {e : Evacuation}

/-- The roots are relocated from left to right until one leads out of the
heap. Those before it have been relocated then and the others are as they
were, which is what a failed collection leaves of the roots. -/
theorem relocateRoots_cases (sized : heap.Sized) (copied : Copied heap order 0 e) (roots done : List Pointer) :
    (∃ b roots' e', .pair b ∈ roots ∧ heap.free ≤ b ∧
      relocateRoots done roots e = (.error (.fault .pair b heap.free), roots', e') ∧ ∃ kept, Copied heap kept 0 e') ∨
    (∃ more e', relocateRoots done roots e =
        (.ok (), done.reverse ++ roots.map (heap.forward (order ++ more)), e') ∧
      Copied heap (order ++ more) 0 e' ∧ (∀ p ∈ roots, heap.Settles (order ++ more) p) ∧
      ∀ a ∈ more, .pair a ∈ roots) := by
  induction roots generalizing order done e with
  | nil => exact .inr ⟨[], e, by simp [relocateRoots], by simpa using copied, by simp, by simp⟩
  | cons root rest ih =>
    rcases relocate_cases sized copied (Nat.zero_le _) root with
      ⟨b, isPair, outside, failed⟩ | ⟨added, e₁, moved, copied₁, rootIn, isRoot⟩
    · exact .inl ⟨b, _, e, by simp [isPair], outside, by rw [relocateRoots, failed], _, copied⟩
    rcases ih copied₁ (heap.forward (order ++ added) root :: done) with
      ⟨b, roots', e', member, outside, failed, kept⟩ | ⟨more, e', run, copied', within, areRoots⟩
    · exact .inl ⟨b, roots', e', List.mem_cons_of_mem _ member, outside,
        by rw [relocateRoots, moved]; exact failed, kept⟩
    rw [List.append_assoc] at run copied' within
    refine .inr ⟨added ++ more, e', ?_, copied', ?_, ?_⟩
    · have same := PairHeap.forward_append rootIn more
      rw [List.append_assoc] at same
      rw [relocateRoots, moved]
      simp only [run, same, List.reverse_cons, List.map_cons, List.append_assoc,
        List.cons_append, List.nil_append]
    · intro p member
      rcases List.mem_cons.mp member with rfl | old
      · rw [← List.append_assoc]
        exact rootIn.mono (List.subset_append_left _ more)
      · exact within p old
    · intro a member
      rcases List.mem_append.mp member with new | later
      · simp [isRoot a new]
      · exact List.mem_cons_of_mem _ (areRoots a later)

end Evacuation

namespace PairHeap

/-- What a successful collection leaves. The pairs of `order` have been moved,
each to its place in that list; they are those that could be reached and had
not been moved away before. -/
structure Gathered (heap : PairHeap) (roots : List Pointer) (order : List Nat)
    (result : Collection) : Prop where
  nodup : order.Nodup
  inside : ∀ a, heap.Reaches roots a → a < heap.free
  reached : ∀ a, a ∈ order ↔ heap.Reaches roots a ∧ heap.mark? a = none
  outcome : result.outcome = .ok order.length
  roots : result.roots = roots.map (heap.forward order)
  sized : result.heap.Sized
  free : result.heap.free = order.length
  capacity : result.heap.capacity = heap.capacity
  statistics : result.heap.statistics = { heap.statistics with
    collections := heap.statistics.collections + 1
    copied := heap.statistics.copied + order.length
    liveAfterLast := order.length }
  moved : ∀ a ∈ order, ∃ head tail, heap.Holds a head tail ∧
    result.heap.Holds (order.idxOf a) (heap.forward order head) (heap.forward order tail)
  left : ∀ a, result.heap.spare[a]? =
    if a ∈ order then some ⟨.moved (order.idxOf a), .undefined⟩ else heap.active[a]?

variable {heap : PairHeap} {roots : List Pointer} {order : List Nat} {result : Collection}

/-- A reachable address comes after the free address exactly when the
collection fails. Otherwise what can be reached and carries no mark of an
earlier collection is gathered, each pair once. -/
theorem gather_cases (sized : heap.Sized) (roots : List Pointer) :
    (∃ b, heap.Reaches roots b ∧ heap.free ≤ b ∧
      (heap.collect roots).outcome = .error (.fault .pair b heap.free) ∧ (heap.collect roots).heap.Sized) ∨
    (∃ order, Gathered heap roots order (heap.collect roots)) := by
  obtain ⟨active, spare, free, capacity, statistics⟩ := heap
  have resized {kept : List Nat} {last : Nat} {e : Evacuation}
      (copied : Evacuation.Copied ⟨active, spare, free, capacity, statistics⟩ kept last e) :
      Sized ⟨e.source, e.target, free, capacity, statistics⟩ :=
    ⟨copied.sourceSize.trans sized.active, copied.targetSize.trans sized.spare, sized.free⟩
  rcases Evacuation.relocateRoots_cases sized (Evacuation.Copied.start _) roots [] with
    ⟨b, roots', e', member, outside, failed, kept, copied⟩ | ⟨rooted, e₁, moved, copied₁, within, areRoots⟩
  · have result : collect ⟨active, spare, free, capacity, statistics⟩ roots =
        ⟨⟨e'.source, e'.target, free, capacity, statistics⟩, roots', .error (.fault .pair b free)⟩ := by
      simp only [collect]
      simp only at failed
      rw [failed]
    rw [result]
    exact .inl ⟨b, .root member, outside, rfl, resized copied⟩
  simp only [List.nil_append, List.reverse_nil] at moved copied₁ within
  have reached₁ : ∀ a ∈ rooted, Reaches ⟨active, spare, free, capacity, statistics⟩ roots a :=
    fun a member => .root (areRoots a member)
  rcases Evacuation.scan_cases sized free copied₁ (Nat.zero_le _) (by simp) reached₁ with
    ⟨b, e', reached, outside, failed, kept, last, copied⟩ | ⟨more, e₂, scanned, copied, reached⟩
  · have result : collect ⟨active, spare, free, capacity, statistics⟩ roots =
        ⟨⟨e'.source, e'.target, free, capacity, statistics⟩,
          roots.map (forward ⟨active, spare, free, capacity, statistics⟩ rooted), .error (.fault .pair b free)⟩ := by
      simp only [collect]
      rw [moved]
      simp only [failed]
    rw [result]
    exact .inl ⟨b, reached, outside, rfl, resized copied⟩
  right
  have result : collect ⟨active, spare, free, capacity, statistics⟩ roots =
      { heap :=
          { active := e₂.target
            spare := e₂.source
            free := e₂.next
            capacity := capacity
            statistics := { statistics with
              collections := statistics.collections + 1
              copied := statistics.copied + e₂.next
              liveAfterLast := e₂.next } }
        roots := roots.map (forward ⟨active, spare, free, capacity, statistics⟩ rooted)
        outcome := .ok e₂.next } := by
    simp only [collect]
    rw [moved]
    simp only [scanned]
  rw [result]
  have finished : ∀ a ∈ rooted ++ more, ∃ head tail,
      Holds ⟨active, spare, free, capacity, statistics⟩ a head tail ∧
      Settles ⟨active, spare, free, capacity, statistics⟩ (rooted ++ more) head ∧
      Settles ⟨active, spare, free, capacity, statistics⟩ (rooted ++ more) tail ∧
      e₂.target[(rooted ++ more).idxOf a]? =
        some ⟨.value (forward ⟨active, spare, free, capacity, statistics⟩ (rooted ++ more) head),
          forward ⟨active, spare, free, capacity, statistics⟩ (rooted ++ more) tail⟩ := by
    intro a member
    have entry : (rooted ++ more)[(rooted ++ more).idxOf a]? = some a :=
      List.getElem?_idxOf member
    exact copied.finished _ a (List.idxOf_lt_length_of_mem member) entry
  have settled : ∀ a, Reaches ⟨active, spare, free, capacity, statistics⟩ roots a →
      Settles ⟨active, spare, free, capacity, statistics⟩ (rooted ++ more) (.pair a) := by
    intro a reaches
    -- A pair that holds something is unmarked, so that it has been copied and its references are settled.
    induction reaches with
    | root member => exact (within _ member).mono (List.subset_append_left _ _)
    | head _ holds ih =>
      obtain ⟨_, _, holds', headIn, _, _⟩ := finished _ (ih.2 holds.mark?_eq)
      exact (holds.unique holds').1 ▸ headIn
    | tail _ holds ih =>
      obtain ⟨_, _, holds', _, tailIn, _⟩ := finished _ (ih.2 holds.mark?_eq)
      exact (holds.unique holds').2 ▸ tailIn
  refine ⟨rooted ++ more, ?_⟩
  exact {
    nodup := copied.nodup
    inside := fun a reaches => (settled a reaches).1
    reached := by
      intro a
      refine ⟨fun member => ⟨reached a member, ?_⟩, fun reaches => (settled a reaches.1).2 reaches.2⟩
      obtain ⟨_, _, holds⟩ := copied.held a member
      exact holds.mark?_eq
    outcome := by simp only [copied.next]
    roots := List.map_congr_left fun p member => (forward_append (within p member) more).symm
    sized := ⟨copied.targetSize.trans sized.spare, copied.sourceSize.trans sized.active,
      by simpa only [copied.next] using copied.length_le.trans sized.free⟩
    free := copied.next
    capacity := rfl
    statistics := by simp only [copied.next]
    moved := by
      intro a member
      obtain ⟨head, tail, holds, _, _, stored⟩ := finished a member
      refine ⟨head, tail, holds, ?_, stored⟩
      simpa only [copied.next] using List.idxOf_lt_length_of_mem member
    left := copied.source }

/-- What a successful collection leaves of a heap that none has failed in. The
pairs that could be reached are those of `order`, each moved to its place in
that list; roots, heads and tails lead where they led before. -/
structure Compacted (heap : PairHeap) (roots : List Pointer) (order : List Nat)
    (result : Collection) : Prop where
  nodup : order.Nodup
  reached : ∀ a, a ∈ order ↔ heap.Reaches roots a
  inUse : ∀ a ∈ order, a < heap.free
  outcome : result.outcome = .ok order.length
  roots : result.roots = roots.map (Pointer.forward order)
  sized : result.heap.Sized
  free : result.heap.free = order.length
  capacity : result.heap.capacity = heap.capacity
  statistics : result.heap.statistics = { heap.statistics with
    collections := heap.statistics.collections + 1
    copied := heap.statistics.copied + order.length
    liveAfterLast := order.length }
  moved : ∀ a ∈ order, ∃ head tail, heap.Holds a head tail ∧ head.Within order ∧
    tail.Within order ∧ result.heap.Holds (order.idxOf a) (head.forward order) (tail.forward order)
  carried : ∀ a b, heap.Carries result.heap a b ↔ a ∈ order ∧ order.idxOf a = b

theorem Compacted.length_le (compacted : Compacted heap roots order result) :
    order.length ≤ heap.free := by
  have subset : order ⊆ List.range heap.free := fun a member =>
    List.mem_range.mpr (compacted.inUse a member)
  simpa using (compacted.nodup.subperm subset).length_le

/-- Where no collection has failed, no pair in use carries a mark, so that all
that can be reached is moved. -/
theorem Gathered.compacted (gathered : Gathered heap roots order result) (plain : heap.Plain) :
    Compacted heap roots order result := by
  have unmarked : ∀ a < heap.free, heap.mark? a = none := by
    intro a inUse
    obtain ⟨_, _, holds⟩ := plain a inUse
    exact holds.mark?_eq
  have reached : ∀ a, a ∈ order ↔ heap.Reaches roots a := by
    intro a
    refine (gathered.reached a).trans (and_iff_left_of_imp fun reaches => ?_)
    exact unmarked a (gathered.inside a reaches)
  have forwarded {p : Pointer} (within : p.Within order) : heap.forward order p = p.forward order := by
    refine Pointer.rename_congr within fun a member => ?_
    rw [unmarked a (gathered.inside a ((reached a).mp member)), Option.getD_none]
  exact {
    nodup := gathered.nodup
    reached := reached
    inUse := fun a member => gathered.inside a ((reached a).mp member)
    outcome := gathered.outcome
    roots := by
      refine gathered.roots.trans (List.map_congr_left fun p member => forwarded ?_)
      cases p with
      | pair a => exact (reached a).mpr (.root member)
      | scalar s => trivial
      | program a => trivial
    sized := gathered.sized
    free := gathered.free
    capacity := gathered.capacity
    statistics := gathered.statistics
    moved := by
      intro a member
      obtain ⟨head, tail, holds, moved⟩ := gathered.moved a member
      have reaches := (reached a).mp member
      have headIn : head.Within order := by
        cases head with
        | pair b => exact (reached b).mpr (.head reaches holds)
        | scalar s => trivial
        | program b => trivial
      have tailIn : tail.Within order := by
        cases tail with
        | pair b => exact (reached b).mpr (.tail reaches holds)
        | scalar s => trivial
        | program b => trivial
      rw [forwarded headIn, forwarded tailIn] at moved
      exact ⟨head, tail, holds, headIn, tailIn, moved⟩
    carried := by
      intro a b
      simp only [Carries, gathered.statistics, Nat.succ_ne_self, if_false, gathered.left]
      constructor
      · rintro ⟨inUse, tail, found⟩
        split at found
        case isTrue member => exact ⟨member, by cases found; rfl⟩
        case isFalse _ =>
          obtain ⟨_, _, _, stored⟩ := plain a inUse
          rw [stored] at found
          cases found
      · rintro ⟨member, rfl⟩
        exact ⟨gathered.inside a ((reached a).mp member), _, if_pos member⟩ }

/-- A collection of a heap that no collection has failed in either meets an
address beyond the free one and names it in its error, or compacts all that
can be reached. -/
theorem collect_cases (sized : heap.Sized) (plain : heap.Plain) (roots : List Pointer) :
    (∃ b, heap.Reaches roots b ∧ heap.free ≤ b ∧
      (heap.collect roots).outcome = .error (.fault .pair b heap.free)) ∨
    (∃ order, Compacted heap roots order (heap.collect roots)) := by
  rcases gather_cases sized roots with ⟨b, reached, outside, failed, _⟩ | ⟨order, gathered⟩
  · exact .inl ⟨b, reached, outside, failed⟩
  · exact .inr ⟨order, gathered.compacted plain⟩

/-- The new addresses are all those up to the number of live pairs, each of
them given once: the place of a pair in the order in which the pairs were
copied. -/
theorem Compacted.bijOn (compacted : Compacted heap roots order result) :
    Set.BijOn order.idxOf {a | heap.Reaches roots a} {i | i < order.length} := by
  refine ⟨?_, ?_, ?_⟩
  · intro a reached
    exact List.idxOf_lt_length_of_mem ((compacted.reached a).mpr reached)
  · intro a reachedA b reachedB same
    exact (List.idxOf_inj ((compacted.reached a).mpr reachedA)).mp same
  · intro i inside
    have member : order[i] ∈ order := List.getElem_mem inside
    exact ⟨order[i], (compacted.reached _).mp member, compacted.nodup.idxOf_getElem i inside⟩

/-- After a collection the check of the heap succeeds: a pair in use is a copy
that was finished, and refers to copies only. Nothing is asked about the
garbage of the old region, which has become the spare one. -/
theorem Compacted.check (compacted : Compacted heap roots order result) :
    result.heap.check = .ok () := by
  rw [check_eq_ok_iff, compacted.free]
  intro i inside
  obtain ⟨head, tail, _, headIn, tailIn, holds⟩ := compacted.moved _ (List.getElem_mem inside)
  rw [compacted.nodup.idxOf_getElem i inside] at holds
  exact ⟨_, _, holds, Pointer.forward_below headIn, Pointer.forward_below tailIn⟩

/-- A collection keeps the graph of the pairs that can be reached, under new
addresses without gaps, and it fails exactly when a reachable address lies
beyond the free address. Garbage is dropped, sharing and cycles are kept, and
roots that are no pairs stay what they are. -/
theorem collect_keeps_graph (heap : PairHeap) (sized : heap.Sized) (plain : heap.Plain)
    (roots : List Pointer) :
    ((∀ a, heap.Reaches roots a → a < heap.free) →
      ∃ (live : Nat) (f : Nat → Nat) (after : PairHeap),
        heap.collect roots = ⟨after, roots.map (Pointer.rename f), .ok live⟩ ∧
        Set.BijOn f {a | heap.Reaches roots a} {i | i < live} ∧
        (∀ a, heap.Reaches roots a → ∃ head tail,
          heap.head a = .ok head ∧ heap.tail a = .ok tail ∧
          after.head (f a) = .ok (head.rename f) ∧ after.tail (f a) = .ok (tail.rename f)) ∧
        after.free = live ∧ live ≤ heap.free ∧ after.capacity = heap.capacity ∧
        after.check = .ok ()) ∧
    ((∃ a, heap.Reaches roots a ∧ heap.free ≤ a) →
      ∃ address limit, (heap.collect roots).outcome = .error (.fault .pair address limit)) := by
  rcases collect_cases sized plain roots with ⟨b, reached, outside, failed⟩ | ⟨order, compacted⟩
  · refine ⟨fun inside => ?_, fun _ => ⟨b, heap.free, failed⟩⟩
    exact absurd (inside b reached) (Nat.not_lt.mpr outside)
  · refine ⟨fun _ => ⟨order.length, order.idxOf, (heap.collect roots).heap, ?_, compacted.bijOn, ?_,
      compacted.free, compacted.length_le, compacted.capacity, compacted.check⟩, ?_⟩
    · rw [← compacted.outcome, ← Pointer.forward, ← compacted.roots]
    · intro a reached
      obtain ⟨head, tail, holds, _, _, moved⟩ := compacted.moved a ((compacted.reached a).mpr reached)
      exact ⟨head, tail, holds.head_eq, holds.tail_eq, moved.head_eq, moved.tail_eq⟩
    · rintro ⟨a, reached, outside⟩
      exact absurd (compacted.inUse a ((compacted.reached a).mpr reached)) (Nat.not_lt.mpr outside)

/-- A pair nothing refers to, and two pairs that refer to each other, one of
them also to itself. -/
def ring : PairHeap where
  active := #[⟨.value .null, .null⟩, ⟨.value (.pair 2), .pair 1⟩, ⟨.value (.string "x"), .pair 1⟩,
    Slot.blank]
  spare := Region.blank 4
  free := 3
  capacity := 4
  statistics := {}

theorem collect_ring_keeps_graph : ring.Sized ∧ ring.Plain ∧
    ∃ (live : Nat) (f : Nat → Nat) (after : PairHeap),
      ring.collect [.pair 2, .program 7, .pair 2] =
        ⟨after, [.pair (f 2), .program 7, .pair (f 2)], .ok live⟩ ∧
      Set.BijOn f {a | ring.Reaches [.pair 2, .program 7, .pair 2] a} {i | i < live} ∧
      after.check = .ok () := by
  have sized : ring.Sized := ⟨rfl, by simp [ring, Region.blank], by decide⟩
  have plain : ring.Plain := by
    intro a inUse
    have cases : a = 0 ∨ a = 1 ∨ a = 2 := by simp only [ring] at inUse; omega
    rcases cases with rfl | rfl | rfl <;> exact ⟨_, _, by decide, rfl⟩
  have inside : ∀ a, ring.Reaches [.pair 2, .program 7, .pair 2] a → a < ring.free := by
    intro a reached
    have member : a ∈ [1, 2] := reached.subset_of_closed (by simp [Pointer.Within]) (by
      intro b member head tail holds
      simp only [List.mem_cons, List.not_mem_nil, or_false] at member
      rcases member with rfl | rfl <;>
        obtain ⟨rfl, rfl⟩ := holds.unique (⟨by decide, rfl⟩ : ring.Holds _ _ _) <;>
        simp [Pointer.Within])
    simp only [List.mem_cons, List.not_mem_nil, or_false] at member
    simp only [ring]
    omega
  obtain ⟨live, f, after, result, bijective, _, _, _, _, checked⟩ :=
    (collect_keeps_graph ring sized plain [.pair 2, .program 7, .pair 2]).1 inside
  exact ⟨sized, plain, live, f, after, result, bijective, checked⟩

end PairHeap

end ExplicitControl
