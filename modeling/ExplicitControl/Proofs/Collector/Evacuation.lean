import ExplicitControl.Proofs.PairGraph
import Mathlib.Data.List.Perm.Subperm

namespace ExplicitControl

/-- Where a pointer leads once the pairs of a list have been copied in order. -/
def Pointer.forward (order : List Nat) : Pointer → Pointer :=
  Pointer.rename order.idxOf

theorem Pointer.forward_below {order : List Nat} {p : Pointer} (within : p.Within order) :
    (p.forward order).Below order.length := by
  cases p with
  | pair a => exact List.idxOf_lt_length_of_mem within
  | scalar s => trivial
  | program a => trivial

namespace PairHeap

variable {heap : PairHeap} {order : List Nat} {p : Pointer} {a : Nat} {head tail : Pointer}

/-- The address left behind by a pair that has been moved away. -/
def mark? (heap : PairHeap) (address : Nat) : Option Nat :=
  match heap.active[address]? with
  | some ⟨.moved target, _⟩ => some target
  | _ => none

theorem Holds.mark?_eq (holds : heap.Holds a head tail) : heap.mark? a = none := by
  rw [mark?, holds.2]

/-- Where a pointer leads once the pairs of a list have been copied in order,
those that were moved before being left where their marks lead. A pair of the
list is at its place in it, counted from zero. -/
def forward (heap : PairHeap) (order : List Nat) : Pointer → Pointer :=
  Pointer.rename fun a => (heap.mark? a).getD (order.idxOf a)

/-- A reference to a pair is to one in use, and to one of a list unless it was
moved away before. -/
def Settles (heap : PairHeap) (order : List Nat) : Pointer → Prop
  | .pair a => a < heap.free ∧ (heap.mark? a = none → a ∈ order)
  | _ => True

theorem Settles.mono {few many : List Nat} (settles : heap.Settles few p) (subset : few ⊆ many) :
    heap.Settles many p := by
  cases p with
  | pair a => exact settles.imp_right fun member unmarked => subset (member unmarked)
  | scalar s => trivial
  | program a => trivial

theorem forward_append (settles : heap.Settles order p) (more : List Nat) :
    heap.forward (order ++ more) p = heap.forward order p := by
  cases p with
  | pair a =>
    cases marked : heap.mark? a with
    | none => simp only [forward, Pointer.rename, marked, List.idxOf_append_of_mem (settles.2 marked)]
    | some target => simp only [forward, Pointer.rename, marked, Option.getD_some]
  | scalar s => rfl
  | program a => rfl

end PairHeap

namespace Evacuation

/-- The state of a collection between two steps: the pairs at the addresses of
`order` have been copied, each to its place there, and the first `scanned`
copies refer to copies only. A pair that an earlier collection moved away
before it failed is never in the order, since its mark is taken for its new
address. -/
structure Copied (heap : PairHeap) (order : List Nat) (scanned : Nat) (e : Evacuation) : Prop where
  limit : e.limit = heap.free
  next : e.next = order.length
  nodup : order.Nodup
  held : ∀ a ∈ order, ∃ head tail, heap.Holds a head tail
  sourceSize : e.source.size = heap.active.size
  targetSize : e.target.size = heap.spare.size
  source : ∀ a, e.source[a]? =
    if a ∈ order then some ⟨.moved (order.idxOf a), .undefined⟩ else heap.active[a]?
  waiting : ∀ i a, scanned ≤ i → order[i]? = some a → ∃ head tail, heap.Holds a head tail ∧
    e.target[i]? = some ⟨.value head, tail⟩
  finished : ∀ i a, i < scanned → order[i]? = some a → ∃ head tail, heap.Holds a head tail ∧
    heap.Settles order head ∧ heap.Settles order tail ∧
    e.target[i]? = some ⟨.value (heap.forward order head), heap.forward order tail⟩

variable {heap : PairHeap} {order : List Nat} {scanned : Nat} {e : Evacuation} {p : Pointer}

theorem Copied.inUse (copied : Copied heap order scanned e) : ∀ a ∈ order, a < heap.free := by
  intro a member
  obtain ⟨_, _, holds⟩ := copied.held a member
  exact holds.lt

theorem Copied.length_le (copied : Copied heap order scanned e) : order.length ≤ heap.free := by
  have subset : order ⊆ List.range heap.free := fun a member =>
    List.mem_range.mpr (copied.inUse a member)
  simpa using (copied.nodup.subperm subset).length_le

/-- As long as a pair in use has not been copied there is room for it. The
copies are distinct pairs in use, so with one left out they are fewer than the
free address, which is at most the size of a region. -/
theorem Copied.length_lt (copied : Copied heap order scanned e) {a : Nat} (inUse : a < heap.free)
    (fresh : a ∉ order) : order.length < heap.free := by
  have subset : a :: order ⊆ List.range heap.free := by
    intro b member
    rcases List.mem_cons.mp member with rfl | old
    · exact List.mem_range.mpr inUse
    · exact List.mem_range.mpr (copied.inUse b old)
  have nodup : (a :: order).Nodup := List.nodup_cons.mpr ⟨fresh, copied.nodup⟩
  have length := (nodup.subperm subset).length_le
  rwa [List.length_range, List.length_cons] at length

/-- Before the first root is relocated nothing has been copied, and both
regions are as they were. -/
theorem Copied.start (heap : PairHeap) :
    Copied heap [] 0 ⟨heap.active, heap.spare, heap.free, 0⟩ where
  limit := rfl
  next := rfl
  nodup := .nil
  held := by simp
  sourceSize := rfl
  targetSize := rfl
  source := by simp
  waiting := by simp
  finished := by simp

/-- Copying a pair that is met for the first time puts it at the end of the
order and leaves its new address in its old head. The copies made before are
not touched, so they are finished or waiting as they were. -/
theorem Copied.append (copied : Copied heap order scanned e) (scannedLe : scanned ≤ order.length)
    {a : Nat} {head tail : Pointer} (fresh : a ∉ order) (holds : heap.Holds a head tail)
    (room : order.length < e.target.size) :
    Copied heap (order ++ [a]) scanned
      ⟨e.source.setIfInBounds a ⟨.moved order.length, .undefined⟩,
        e.target.setIfInBounds order.length ⟨.value head, tail⟩, e.limit, order.length + 1⟩ where
  limit := copied.limit
  next := by simp
  nodup := by
    rw [List.nodup_append]
    refine ⟨copied.nodup, by simp, ?_⟩
    intro old member new isNew same
    exact fresh (List.mem_singleton.mp isNew ▸ same ▸ member)
  held := by
    intro b member
    rcases List.mem_append.mp member with old | new
    · exact copied.held b old
    · exact List.mem_singleton.mp new ▸ ⟨head, tail, holds⟩
  sourceSize := by simpa using copied.sourceSize
  targetSize := by simpa using copied.targetSize
  source := by
    intro b
    have size : a < e.source.size := by
      rw [copied.sourceSize]
      exact (Array.getElem?_eq_some_iff.mp holds.2).1
    rw [Array.getElem?_setIfInBounds]
    by_cases same : a = b
    · subst same
      rw [if_pos rfl, if_pos size, if_pos (by simp), List.idxOf_append_of_notMem fresh]
      simp
    · rw [if_neg same, copied.source b]
      by_cases member : b ∈ order
      · rw [if_pos member, if_pos (List.mem_append_left _ member), List.idxOf_append_of_mem member]
      · rw [if_neg member, if_neg (by simp [member, Ne.symm same])]
  waiting := by
    intro i b late entry
    rcases Nat.lt_or_ge i order.length with old | new
    · rw [List.getElem?_append_left old] at entry
      rw [Array.getElem?_setIfInBounds_ne (by omega)]
      exact copied.waiting i b late entry
    · rw [List.getElem?_append_right new] at entry
      rw [List.getElem?_singleton] at entry
      split at entry
      · have last : i = order.length := by omega
        have same : a = b := Option.some.inj entry
        subst last same
        exact ⟨head, tail, holds, Array.getElem?_setIfInBounds_self_of_lt room⟩
      · cases entry
  finished := by
    intro i b early entry
    rw [List.getElem?_append_left (by omega)] at entry
    obtain ⟨head', tail', holds', headIn, tailIn, stored⟩ := copied.finished i b early entry
    have subset : order ⊆ order ++ [a] := List.subset_append_left order [a]
    refine ⟨head', tail', holds', headIn.mono subset, tailIn.mono subset, ?_⟩
    rw [Array.getElem?_setIfInBounds_ne (by omega), PairHeap.forward_append headIn,
      PairHeap.forward_append tailIn]
    exact stored

/-- Relocating a pointer copies its pair if that is still to be done, and
fails only where the pointer leads out of the heap. A pair that carries a mark
is not copied again, whoever left the mark. -/
theorem relocate_cases (sized : heap.Sized) (copied : Copied heap order scanned e) (scannedLe : scanned ≤ order.length)
    (p : Pointer) :
    (∃ a, p = .pair a ∧ heap.free ≤ a ∧
      relocate p e = .error (.fault .pair a heap.free) e) ∨
    (∃ more e', relocate p e = .ok (heap.forward (order ++ more) p) e' ∧
      Copied heap (order ++ more) scanned e' ∧ heap.Settles (order ++ more) p ∧
      ∀ a ∈ more, p = .pair a) := by
  cases p with
  | scalar s => exact .inr ⟨[], e, by simp [relocate, PairHeap.forward, Pointer.rename],
      by simpa using copied, trivial, by simp⟩
  | program a => exact .inr ⟨[], e, by simp [relocate, PairHeap.forward, Pointer.rename],
      by simpa using copied, trivial, by simp⟩
  | pair a =>
    by_cases outside : heap.free ≤ a
    · exact .inl ⟨a, rfl, outside, by simp [relocate, copied.limit, outside]⟩
    · right
      have inUse : a < heap.free := Nat.lt_of_not_le outside
      have inLimit : ¬ e.limit ≤ a := copied.limit ▸ outside
      have source := copied.source a
      by_cases member : a ∈ order
      · rw [if_pos member] at source
        obtain ⟨_, _, holds⟩ := copied.held a member
        refine ⟨[], e, ?_, by simpa using copied, ⟨inUse, fun _ => List.mem_append_left _ member⟩, by simp⟩
        simp [relocate, inLimit, source, PairHeap.forward, Pointer.rename, holds.mark?_eq]
      · rw [if_neg member] at source
        have inside : a < heap.active.size := by
          rw [sized.active]
          exact Nat.lt_of_lt_of_le inUse sized.free
        obtain ⟨⟨mark, tail⟩, stored⟩ : ∃ slot, heap.active[a]? = some slot := ⟨_, Array.getElem?_eq_getElem inside⟩
        cases mark with
        | moved target =>
          have marked : heap.mark? a = some target := by rw [PairHeap.mark?, stored]
          have settles : heap.Settles (order ++ []) (.pair a) := ⟨inUse, fun unmarked => by simp [marked] at unmarked⟩
          refine ⟨[], e, ?_, by simpa using copied, settles, by simp⟩
          simp [relocate, inLimit, source, stored, PairHeap.forward, Pointer.rename, marked]
        | value head =>
          have holds : heap.Holds a head tail := ⟨inUse, stored⟩
          have room : order.length < e.target.size := by
            have length := copied.length_lt inUse member
            rw [copied.targetSize, sized.spare]
            exact Nat.lt_of_lt_of_le length sized.free
          refine ⟨[a], _, ?_, copied.append scannedLe member holds room,
            ⟨inUse, fun _ => List.mem_append_right _ (List.mem_singleton_self a)⟩, by simp⟩
          simp [relocate, inLimit, source, stored, copied.next, room,
            PairHeap.forward, Pointer.rename, holds.mark?_eq, List.idxOf_append_of_notMem member]

/-- Writing the forwarded head and tail finishes the next copy. Both have been
settled by then, so the finished copy refers to places in the order or to
where an old mark leads. -/
theorem Copied.advance (copied : Copied heap order scanned e) {a : Nat} {head tail : Pointer}
    (entry : order[scanned]? = some a) (holds : heap.Holds a head tail)
    (headIn : heap.Settles order head) (tailIn : heap.Settles order tail) :
    Copied heap order (scanned + 1) ⟨e.source,
      e.target.setIfInBounds scanned ⟨.value (heap.forward order head), heap.forward order tail⟩,
      e.limit, e.next⟩ where
  limit := copied.limit
  next := copied.next
  nodup := copied.nodup
  held := copied.held
  sourceSize := copied.sourceSize
  targetSize := by simpa using copied.targetSize
  source := copied.source
  waiting := by
    intro i b late atI
    rw [Array.getElem?_setIfInBounds_ne (by omega)]
    exact copied.waiting i b (by omega) atI
  finished := by
    intro i b early atI
    rcases Nat.lt_succ_iff_lt_or_eq.mp early with old | rfl
    · rw [Array.getElem?_setIfInBounds_ne (by omega)]
      exact copied.finished i b old atI
    · have same : a = b := Option.some.inj (entry.symm.trans atI)
      subst same
      obtain ⟨_, _, _, stored⟩ := copied.waiting i a le_rfl entry
      have room : i < e.target.size := (Array.getElem?_eq_some_iff.mp stored).1
      exact ⟨head, tail, holds, headIn, tailIn, Array.getElem?_setIfInBounds_self_of_lt room⟩

/-- Scanning a copy copies the pairs it refers to and finishes it, or finds
that it refers to no pair in use. The head is relocated before the tail, and a
failure of the second leaves the copy of the first behind. -/
theorem scanSlot_cases (sized : heap.Sized) (copied : Copied heap order scanned e) {a : Nat} {head tail : Pointer}
    (entry : order[scanned]? = some a) (holds : heap.Holds a head tail) :
    (∃ b e', (head = .pair b ∨ tail = .pair b) ∧ heap.free ≤ b ∧
      scanSlot scanned e = .error (.fault .pair b heap.free) e' ∧ ∃ kept, Copied heap kept scanned e') ∨
    (∃ more e', scanSlot scanned e = .ok () e' ∧ Copied heap (order ++ more) (scanned + 1) e' ∧
      ∀ b ∈ more, head = .pair b ∨ tail = .pair b) := by
  have inOrder : scanned < order.length := (List.getElem?_eq_some_iff.mp entry).1
  obtain ⟨head', tail', holds', stored⟩ := copied.waiting scanned a le_rfl entry
  obtain ⟨rfl, rfl⟩ := holds.unique holds'
  have start : scanSlot scanned e = (do
      let head ← relocate head
      let tail ← relocate tail
      write scanned head tail) e := by
    simp only [scanSlot, bind, EStateM.bind, Evacuation.copied, stored]
  rw [start]
  rcases relocate_cases sized copied inOrder.le head with
    ⟨b, isPair, outside, failed⟩ | ⟨moreHead, e₁, headDone, copied₁, headIn, headNew⟩
  · exact .inl ⟨b, e, .inl isPair, outside, by simp only [bind, EStateM.bind, failed], _, copied⟩
  have inOrder₁ : scanned < (order ++ moreHead).length := by rw [List.length_append]; omega
  rcases relocate_cases sized copied₁ inOrder₁.le tail with
    ⟨b, isPair, outside, failed⟩ | ⟨moreTail, e₂, tailDone, copied₂, tailIn, tailNew⟩
  · exact .inl ⟨b, e₁, .inr isPair, outside, by simp only [bind, EStateM.bind, headDone, failed], _, copied₁⟩
  right
  have entry₂ : (order ++ moreHead ++ moreTail)[scanned]? = some a := by
    rw [List.append_assoc, List.getElem?_append_left inOrder]
    exact entry
  have headIn₂ := headIn.mono (List.subset_append_left _ moreTail)
  have finished := copied₂.advance entry₂ holds headIn₂ tailIn
  rw [List.append_assoc] at finished
  refine ⟨moreHead ++ moreTail, _, ?_, finished, ?_⟩
  · simp only [bind, EStateM.bind, headDone, tailDone, write]
    rw [← PairHeap.forward_append headIn moreTail, List.append_assoc]
  · intro b member
    rcases List.mem_append.mp member with new | new
    · exact .inl (headNew b new)
    · exact .inr (tailNew b new)

variable {roots : List Pointer}

theorem scan_succ (slot fuel : Nat) (e : Evacuation) :
    scan slot (fuel + 1) e = (if slot < e.next then (do scanSlot slot; scan (slot + 1) fuel) else pure ()) e :=
  rfl

/-- The whole scan: it ends with every copy finished, having copied nothing
but what can be reached, or it meets a reference out of the heap. No more than
the pairs in use can be copied, so the number of steps it is given suffices. -/
theorem scan_cases (sized : heap.Sized) (fuel : Nat) {slot : Nat}
    (copied : Copied heap order slot e) (slotLe : slot ≤ order.length)
    (enough : heap.free ≤ slot + fuel) (reached : ∀ a ∈ order, heap.Reaches roots a) :
    (∃ b e', heap.Reaches roots b ∧ heap.free ≤ b ∧
      scan slot fuel e = .error (.fault .pair b heap.free) e' ∧ ∃ kept last, Copied heap kept last e') ∨
    (∃ more e', scan slot fuel e = .ok () e' ∧
      Copied heap (order ++ more) (order ++ more).length e' ∧
      ∀ a ∈ order ++ more, heap.Reaches roots a) := by
  induction fuel generalizing slot order e with
  | zero =>
    have length := copied.length_le
    have finished : slot = order.length := by omega
    subst finished
    exact .inr ⟨[], e, rfl, by simpa using copied, by simpa using reached⟩
  | succ fuel ih =>
    by_cases more : slot < order.length
    · have entry : order[slot]? = some order[slot] := List.getElem?_eq_getElem more
      obtain ⟨head, tail, holds, _⟩ := copied.waiting slot _ le_rfl entry
      have reachedSlot := reached _ (List.getElem_mem more)
      have step : scan slot (fuel + 1) e = (do scanSlot slot; scan (slot + 1) fuel) e := by
        rw [scan_succ, copied.next, if_pos more]
      have follow {b : Nat} (edge : head = .pair b ∨ tail = .pair b) : heap.Reaches roots b := by
        rcases edge with rfl | rfl
        · exact .head reachedSlot holds
        · exact .tail reachedSlot holds
      rw [step]
      rcases scanSlot_cases sized copied entry holds with
        ⟨b, e', edge, outside, failed, kept, copied'⟩ | ⟨added, e', scanned, copied', new⟩
      · exact .inl ⟨b, e', follow edge, outside, by simp only [bind, EStateM.bind, failed], kept, slot, copied'⟩
      · have reached' : ∀ a ∈ order ++ added, heap.Reaches roots a := by
          intro a member
          rcases List.mem_append.mp member with old | isNew
          · exact reached a old
          · exact follow (new a isNew)
        have resumed : (do scanSlot slot; scan (slot + 1) fuel) e = scan (slot + 1) fuel e' := by
          simp only [bind, EStateM.bind, scanned]
        rw [resumed]
        rcases ih copied' (by rw [List.length_append]; omega) (by omega) reached' with
          failed | ⟨more, e'', run, result⟩
        · exact .inl failed
        · exact .inr ⟨added ++ more, e'', run, by simpa only [List.append_assoc] using result⟩
    · have finished : slot = order.length := by omega
      subst finished
      refine .inr ⟨[], e, ?_, by simpa using copied, by simpa using reached⟩
      rw [scan_succ, copied.next, if_neg (lt_irrefl _)]
      rfl

end Evacuation

end ExplicitControl
