import ExplicitControl.Operation.Call
import ExplicitControl.Proofs.Memory.Collection

namespace ExplicitControl

/-- What two computations leave belongs together: results that are related, or
the same error, in states that resemble one another. Nothing is said where the
one on the left fails by a lost error. -/
inductive Run.Same {ε S α β : Type} (lost : ε → Prop) (agree : S → S → Prop) (rel : α → β → Prop) :
    EStateM.Result ε S α → EStateM.Result ε S β → Prop
  | ok {a : α} {b : β} {left right : S} : rel a b → agree left right →
      Same lost agree rel (.ok a left) (.ok b right)
  | error {e : ε} {left right : S} : agree left right →
      Same lost agree rel (.error e left) (.error e right)
  | lost {e : ε} {left : S} {result : EStateM.Result ε S β} : lost e →
      Same lost agree rel (.error e left) result

namespace Run.Same

variable {ε S α β γ δ : Type} {lost : ε → Prop} {agree : S → S → Prop} {rel : α → β → Prop}
  {rel' : γ → δ → Prop} {left right : S}

theorem bind {x : EStateM ε S α} {y : EStateM ε S β} {f : α → EStateM ε S γ} {g : β → EStateM ε S δ}
    (first : Same lost agree rel (x left) (y right))
    (next : ∀ a l b r, rel a b → agree l r → Same lost agree rel' (f a l) (g b r)) :
    Same lost agree rel' ((x >>= f) left) ((y >>= g) right) := by
  change Same lost agree rel' (EStateM.bind x f left) (EStateM.bind y g right)
  unfold EStateM.bind
  generalize x left = result at first
  generalize y right = result' at first
  cases first with
  | ok related agreed => exact next _ _ _ _ related agreed
  | error agreed => exact .error agreed
  | lost isLost => exact .lost isLost

/-- What holds where nothing is lost holds all the more where something is. -/
theorem weaken {x : EStateM.Result ε S α} {y : EStateM.Result ε S β}
    (same : Same (fun _ => False) agree rel x y) : Same lost agree rel x y := by
  cases same with
  | ok related agreed => exact .ok related agreed
  | error agreed => exact .error agreed
  | lost impossible => exact impossible.elim

end Run.Same

namespace Evacuation

/-- A collection under way in regions of a capacity, which moves the pairs below
a limit. -/
structure Fitted (capacity limit : Nat) (evacuation : Evacuation) : Prop where
  moves : evacuation.limit = limit
  source : evacuation.source.size = capacity
  target : evacuation.target.size = capacity

/-- Collections under way that have the same pairs still to move and the same
pairs moved. -/
structure Resembles (capacity limit : Nat) (left right : Evacuation) : Prop where
  fittedLeft : left.Fitted capacity limit
  fittedRight : right.Fitted capacity limit
  next : left.next = right.next
  source : ∀ a, a < limit → left.source[a]? = right.source[a]?
  target : ∀ a, a < left.next → left.target[a]? = right.target[a]?

/-- What is done to two collections side by side, with the same result. -/
abbrev Same {α : Type} (capacity limit : Nat) :
    EStateM.Result HeapError Evacuation α → EStateM.Result HeapError Evacuation α → Prop :=
  Run.Same (fun _ => False) (Resembles capacity limit) Eq

variable {capacity limit : Nat} {left right : Evacuation}

/-- A pair is read below the limit only, and its copy goes where both count
the next free slot. What the target region held there before does not matter. -/
theorem relocate_same (resembles : Resembles capacity limit left right) (p : Pointer) :
    Same capacity limit (relocate p left) (relocate p right) := by
  cases p with
  | scalar value => exact .ok rfl resembles
  | program address => exact .ok rfl resembles
  | pair old =>
    obtain ⟨source, target, limitLeft, next⟩ := left
    obtain ⟨source', target', limitRight, next'⟩ := right
    obtain ⟨⟨moves, sourceSize, targetSize⟩, ⟨moves', sourceSize', targetSize'⟩, nexts, sources, targets⟩ :=
      resembles
    dsimp only at moves moves' sourceSize targetSize sourceSize' targetSize' nexts sources targets
    obtain rfl := moves.symm
    obtain rfl := moves'.symm
    subst nexts
    have still : Resembles capacity limit ⟨source, target, limit, next⟩ ⟨source', target', limit, next⟩ :=
      ⟨⟨rfl, sourceSize, targetSize⟩, ⟨rfl, sourceSize', targetSize'⟩, rfl, sources, targets⟩
    simp only [relocate]
    by_cases beyond : limit ≤ old
    · rw [if_pos beyond, if_pos beyond]
      exact .error still
    · rw [if_neg beyond, if_neg beyond, sources old (Nat.not_le.mp beyond), sourceSize, sourceSize',
        targetSize, targetSize']
      rcases source'[old]? with _ | ⟨head | new, tail⟩
      · exact .error still
      · dsimp only
        split
        · refine .ok rfl ⟨⟨rfl, by simpa using sourceSize, by simpa using targetSize⟩,
            ⟨rfl, by simpa using sourceSize', by simpa using targetSize'⟩, rfl, ?_, ?_⟩
          · intro a below
            have same := sources a below
            simp only [Array.getElem?_setIfInBounds, sourceSize, sourceSize', same]
          · intro a below
            rcases Nat.lt_succ_iff_lt_or_eq.mp below with earlier | rfl
            · have same := targets a earlier
              simp only [Array.getElem?_setIfInBounds, targetSize, targetSize', same]
            · simp only [Array.getElem?_setIfInBounds, targetSize, targetSize', if_true]
        · exact .error still
      · exact .ok rfl still

theorem copied_same (resembles : Resembles capacity limit left right) {slot : Nat} (below : slot < left.next) :
    Same capacity limit (copied slot left) (copied slot right) := by
  unfold copied
  rw [resembles.target slot below, resembles.fittedLeft.target, resembles.fittedRight.target, resembles.next]
  split
  · exact .error resembles
  · exact .ok rfl resembles
  · exact .error resembles

theorem write_same (resembles : Resembles capacity limit left right) (slot : Nat) (head tail : Pointer) :
    Same capacity limit (write slot head tail left) (write slot head tail right) := by
  have fitted (e : Evacuation) (fits : e.Fitted capacity limit) : Fitted capacity limit
      ⟨e.source, e.target.setIfInBounds slot ⟨.value head, tail⟩, e.limit, e.next⟩ :=
    ⟨fits.moves, fits.source, by simpa using fits.target⟩
  refine .ok rfl { resembles with
    fittedLeft := fitted left resembles.fittedLeft
    fittedRight := fitted right resembles.fittedRight
    target := ?_ }
  intro a below
  have same := resembles.target a below
  simp only [Array.getElem?_setIfInBounds, resembles.fittedLeft.target, resembles.fittedRight.target, same]

theorem scanSlot_same (resembles : Resembles capacity limit left right) {slot : Nat} (below : slot < left.next) :
    Same capacity limit (scanSlot slot left) (scanSlot slot right) := by
  refine (copied_same resembles below).bind ?_
  rintro ⟨head, tail⟩ l _ r rfl resembles
  refine (relocate_same resembles head).bind ?_
  rintro head l _ r rfl resembles
  refine (relocate_same resembles tail).bind ?_
  rintro tail l _ r rfl resembles
  exact write_same resembles slot head tail

theorem scan_same (resembles : Resembles capacity limit left right) (slot fuel : Nat) :
    Same capacity limit (scan slot fuel left) (scan slot fuel right) := by
  induction fuel generalizing slot left right with
  | zero => exact .ok rfl resembles
  | succ fuel ih =>
    change Same capacity limit ((if slot < left.next then do scanSlot slot; scan (slot + 1) fuel else pure () :
        EStateM HeapError Evacuation Unit) left)
      ((if slot < right.next then do scanSlot slot; scan (slot + 1) fuel else pure () :
        EStateM HeapError Evacuation Unit) right)
    rw [← resembles.next]
    split
    next below => exact (scanSlot_same resembles below).bind fun _ _ _ _ _ resembles => ih resembles (slot + 1)
    next => exact .ok rfl resembles

end Evacuation

/-- A row of pointers on the right has those on the left, where the mask says
so, and in a lax resemblance others besides that refer to no pair. -/
inductive Pointer.Gaps (lax : Prop) : List Bool → List Pointer → List Pointer → Prop
  | nil : Gaps lax [] [] []
  | kept {mask : List Bool} {ps qs : List Pointer} (p : Pointer) : Gaps lax mask ps qs →
      Gaps lax (true :: mask) (p :: ps) (p :: qs)
  | extra {mask : List Bool} {ps qs : List Pointer} {q : Pointer} : lax → q.Below 0 →
      Gaps lax mask ps qs → Gaps lax (false :: mask) ps (q :: qs)

namespace Pointer.Gaps

variable {lax : Prop} {mask mask' : List Bool} {ps qs ps' qs' : List Pointer}

theorem refl (ps : List Pointer) : Gaps lax (ps.map fun _ => true) ps ps := by
  induction ps with
  | nil => exact .nil
  | cons p ps ih => exact .kept p ih

theorem eq_of_all (gaps : Gaps lax mask ps qs) (all : ∀ b ∈ mask, b = true) : ps = qs := by
  induction gaps with
  | nil => rfl
  | kept p _ ih => rw [ih fun b member => all b (List.mem_cons_of_mem _ member)]
  | extra _ _ _ _ => simpa using all false (List.mem_cons_self ..)

theorem append (gaps : Gaps lax mask ps qs) (others : Gaps lax mask' ps' qs') :
    Gaps lax (mask ++ mask') (ps ++ ps') (qs ++ qs') := by
  induction gaps with
  | nil => exact others
  | kept p _ ih => exact .kept p ih
  | extra isLax pairless _ ih => exact .extra isLax pairless ih

theorem split (gaps : Gaps lax (mask ++ mask') ps qs) :
    ∃ ps₁ ps₂ qs₁ qs₂, ps = ps₁ ++ ps₂ ∧ qs = qs₁ ++ qs₂ ∧ Gaps lax mask ps₁ qs₁ ∧
      Gaps lax mask' ps₂ qs₂ := by
  induction mask generalizing ps qs with
  | nil => exact ⟨[], ps, [], qs, rfl, rfl, .nil, gaps⟩
  | cons b mask ih =>
    cases gaps with
    | kept p rest =>
      obtain ⟨ps₁, ps₂, qs₁, qs₂, rfl, rfl, one, other⟩ := ih rest
      exact ⟨p :: ps₁, ps₂, p :: qs₁, qs₂, rfl, rfl, .kept p one, other⟩
    | @extra _ _ _ q isLax pairless rest =>
      obtain ⟨ps₁, ps₂, qs₁, qs₂, rfl, rfl, one, other⟩ := ih rest
      exact ⟨ps₁, ps₂, q :: qs₁, qs₂, rfl, rfl, .extra isLax pairless one, other⟩

end Pointer.Gaps

/-- Roots that refer to no pair stay as they are and move nothing, so a
register that is empty on one side only leaves the collections the same. -/
theorem Evacuation.relocateRoots_same {lax : Prop} {mask : List Bool} {ps qs : List Pointer}
    (gaps : Pointer.Gaps lax mask ps qs) {capacity limit : Nat} {left right : Evacuation}
    (resembles : Resembles capacity limit left right)
    (done done' : List Pointer) :
    ∃ outcome ps' qs' l r, Pointer.Gaps lax mask ps' qs' ∧ Resembles capacity limit l r ∧
      relocateRoots done ps left = (outcome, done.reverse ++ ps', l) ∧
      relocateRoots done' qs right = (outcome, done'.reverse ++ qs', r) := by
  induction gaps generalizing left right done done' with
  | nil => exact ⟨.ok (), [], [], left, right, .nil, resembles, by simp [relocateRoots], by simp [relocateRoots]⟩
  | @kept mask ps qs p rest ih =>
    have moved := relocate_same resembles p
    simp only [relocateRoots]
    generalize relocate p left = result at moved
    generalize relocate p right = result' at moved
    cases moved with
    | @ok q _ l r same resembles =>
      subst same
      obtain ⟨outcome, ps', qs', l, r, gaps, resembles, runLeft, runRight⟩ := ih resembles (q :: done) (q :: done')
      refine ⟨outcome, q :: ps', q :: qs', l, r, .kept q gaps, resembles, ?_, ?_⟩
      · simpa using runLeft
      · simpa using runRight
    | @error e l r resembles =>
      refine ⟨.error e, p :: ps, p :: qs, l, r, .kept p rest, resembles, ?_, ?_⟩
      · simp [List.reverseAux_eq]
      · simp [List.reverseAux_eq]
    | lost impossible => exact impossible.elim
  | @extra mask ps qs q isLax pairless rest ih =>
    have still : relocate q right = .ok q right := by
      cases q with
      | pair a => exact absurd pairless (Nat.not_lt_zero a)
      | scalar value => rfl
      | program address => rfl
    obtain ⟨outcome, ps', qs', l, r, gaps, resembles, runLeft, runRight⟩ := ih resembles done (q :: done')
    refine ⟨outcome, ps', q :: qs', l, r, .extra isLax pairless gaps, resembles, runLeft, ?_⟩
    simpa only [relocateRoots, still, List.reverse_cons, List.append_assoc, List.singleton_append] using runRight

namespace PairHeap

/-- Both regions have as many slots as the capacity says. -/
structure Fitted (capacity : Nat) (heap : PairHeap) : Prop where
  holds : heap.capacity = capacity
  active : heap.active.size = capacity
  spare : heap.spare.size = capacity

/-- Heaps of a capacity with the same pairs in use and the same counters. -/
structure Resembles (capacity : Nat) (left right : PairHeap) : Prop where
  fittedLeft : left.Fitted capacity
  fittedRight : right.Fitted capacity
  free : left.free = right.free
  statistics : left.statistics = right.statistics
  active : ∀ a, a < left.free → left.active[a]? = right.active[a]?

variable {capacity : Nat} {left right : PairHeap}

theorem Resembles.slot (resembles : Resembles capacity left right) (address : Nat) :
    left.slot address = right.slot address := by
  unfold PairHeap.slot
  rw [← resembles.free, resembles.fittedLeft.active, resembles.fittedRight.active]
  split
  next inUse => rw [resembles.active address inUse]
  next => rfl

theorem Resembles.head (resembles : Resembles capacity left right) (address : Nat) :
    left.head address = right.head address := by
  simp only [PairHeap.head, resembles.slot address, resembles.free]

theorem Resembles.tail (resembles : Resembles capacity left right) (address : Nat) :
    left.tail address = right.tail address := by
  simp only [PairHeap.tail, resembles.slot address]

theorem Resembles.available (resembles : Resembles capacity left right) : left.available = right.available := by
  simp only [PairHeap.available, resembles.fittedLeft.holds, resembles.fittedRight.holds, resembles.free]

/-- What is done to two heaps side by side, with the same result. -/
abbrev Same {α : Type} (capacity : Nat) :
    EStateM.Result HeapError PairHeap α → EStateM.Result HeapError PairHeap α → Prop :=
  Run.Same (fun _ => False) (Resembles capacity) Eq

theorem Resembles.setSlot (resembles : Resembles capacity left right) (address : Nat) (slot : Slot) :
    Resembles capacity (left.setSlot address slot) (right.setSlot address slot) where
  fittedLeft := { resembles.fittedLeft with
    active := by simpa [PairHeap.setSlot] using resembles.fittedLeft.active }
  fittedRight := { resembles.fittedRight with
    active := by simpa [PairHeap.setSlot] using resembles.fittedRight.active }
  free := resembles.free
  statistics := resembles.statistics
  active := by
    intro a below
    have same := resembles.active a below
    simp only [PairHeap.setSlot, Array.getElem?_setIfInBounds, resembles.fittedLeft.active,
      resembles.fittedRight.active, same]

theorem setHead_same (resembles : Resembles capacity left right) (address : Nat) (value : Pointer) :
    Same capacity (setHead address value left) (setHead address value right) := by
  unfold setHead
  rw [resembles.slot address]
  split
  · exact .ok rfl (resembles.setSlot address _)
  · exact .error resembles

theorem setTail_same (resembles : Resembles capacity left right) (address : Nat) (value : Pointer) :
    Same capacity (setTail address value left) (setTail address value right) := by
  unfold setTail
  rw [resembles.slot address]
  split
  · exact .ok rfl (resembles.setSlot address _)
  · exact .error resembles

/-- The slot that is taken next is written before it is in use. -/
theorem alloc_same (resembles : Resembles capacity left right) (head tail : Pointer) :
    Same capacity (alloc head tail left) (alloc head tail right) := by
  obtain ⟨active, spare, free, capacityLeft, statistics⟩ := left
  obtain ⟨active', spare', free', capacityRight, statistics'⟩ := right
  obtain ⟨⟨holds, size, spareSize⟩, ⟨holds', size', spareSize'⟩, frees, counted, actives⟩ := resembles
  dsimp only at holds holds' size spareSize size' spareSize' frees counted actives
  obtain rfl := holds.symm
  obtain rfl := holds'.symm
  subst frees counted
  have still : Resembles capacity ⟨active, spare, free, capacity, statistics⟩
      ⟨active', spare', free, capacity, statistics⟩ :=
    ⟨⟨rfl, size, spareSize⟩, ⟨rfl, size', spareSize'⟩, rfl, rfl, actives⟩
  simp only [alloc]
  rw [size, size']
  split
  · exact .error still
  · split
    · refine .ok rfl ⟨⟨rfl, by simpa using size, spareSize⟩, ⟨rfl, by simpa using size', spareSize'⟩, rfl, rfl, ?_⟩
      intro a below
      rcases Nat.lt_succ_iff_lt_or_eq.mp below with earlier | rfl
      · have same := actives a earlier
        simp only [Array.getElem?_setIfInBounds, size, size', same]
      · simp only [Array.getElem?_setIfInBounds, size, size', if_true]
    · exact .error still

/-- Collections of heaps that resemble one another end alike, also those that
fail half way, and leave heaps that do so again. -/
theorem collect_same {lax : Prop} {mask : List Bool} {ps qs : List Pointer}
    (resembles : Resembles capacity left right) (gaps : Pointer.Gaps lax mask ps qs) :
    (left.collect ps).outcome = (right.collect qs).outcome ∧
      Resembles capacity (left.collect ps).heap (right.collect qs).heap ∧
      Pointer.Gaps lax mask (left.collect ps).roots (right.collect qs).roots := by
  obtain ⟨active, spare, free, capacityLeft, statistics⟩ := left
  obtain ⟨active', spare', free', capacityRight, statistics'⟩ := right
  obtain ⟨⟨holds, size, spareSize⟩, ⟨holds', size', spareSize'⟩, frees, counted, actives⟩ := resembles
  dsimp only at holds holds' size spareSize size' spareSize' frees counted actives
  obtain rfl := holds.symm
  obtain rfl := holds'.symm
  subst frees counted
  have begun : Evacuation.Resembles capacity free ⟨active, spare, free, 0⟩ ⟨active', spare', free, 0⟩ :=
    ⟨⟨rfl, size, spareSize⟩, ⟨rfl, size', spareSize'⟩, rfl, actives, fun a below => absurd below (Nat.not_lt_zero a)⟩
  obtain ⟨outcome, ps', qs', l, r, gaps, rooted, runLeft, runRight⟩ :=
    Evacuation.relocateRoots_same gaps begun [] []
  simp only [collect, runLeft, runRight]
  have halted {l r : Evacuation} (stopped : Evacuation.Resembles capacity free l r) :
      Resembles capacity ⟨l.source, l.target, free, capacity, statistics⟩
        ⟨r.source, r.target, free, capacity, statistics⟩ :=
    ⟨⟨rfl, stopped.fittedLeft.source, stopped.fittedLeft.target⟩,
      ⟨rfl, stopped.fittedRight.source, stopped.fittedRight.target⟩, rfl, rfl, stopped.source⟩
  cases outcome with
  | error fault => exact ⟨rfl, halted rooted, gaps⟩
  | ok _ =>
    have scanned := Evacuation.scan_same rooted 0 free
    dsimp only
    generalize Evacuation.scan 0 free l = result at scanned
    generalize Evacuation.scan 0 free r = result' at scanned
    cases scanned with
    | error stopped => exact ⟨rfl, halted stopped, gaps⟩
    | lost impossible => exact impossible.elim
    | ok _ ended =>
      dsimp only
      rw [ended.next]
      refine ⟨rfl, ⟨⟨rfl, ended.fittedLeft.target, ended.fittedLeft.source⟩,
        ⟨rfl, ended.fittedRight.target, ended.fittedRight.source⟩, rfl, rfl, ?_⟩, gaps⟩
      rw [← ended.next]
      exact ended.target

end PairHeap

/-- The same contents; in a lax resemblance there may be nothing on the left in
the place of anything but a reference to a pair. -/
inductive Contents.Resembles (lax : Prop) : Contents → Contents → Prop
  | same (c : Contents) : Resembles lax c c
  | vacant {d : Contents} : lax → d.Below 0 → Resembles lax .unassigned d

/-- The same name, and contents that resemble one another. -/
structure Register.Resembles (lax : Prop) (left right : Register) : Prop where
  name : left.name = right.name
  contents : left.contents.Resembles lax right.contents

/-- Whichever pointers take the place of those in two rows of slots that
resemble one another, the rows go on doing so. -/
theorem Contents.exists_mask {lax : Prop} {cs ds : List Contents} (row : List.Forall₂ (Resembles lax) cs ds) :
    ∃ mask, Pointer.Gaps lax mask (pointers cs) (pointers ds) ∧
      ∀ ps qs, Pointer.Gaps lax mask ps qs → ∃ cs' ds', List.Forall₂ (Resembles lax) cs' ds' ∧
        cs'.length = cs.length ∧
        (∀ done rest, refillAll done cs (ps ++ rest) = (done ++ cs', rest)) ∧
        ∀ done rest, refillAll done ds (qs ++ rest) = (done ++ ds', rest) := by
  induction row with
  | nil =>
    refine ⟨[], .nil, fun ps qs gaps => ?_⟩
    cases gaps
    exact ⟨[], [], .nil, rfl, by simp [refillAll], by simp [refillAll]⟩
  | @cons c d cs ds first _ ih =>
    obtain ⟨mask, gaps, refilled⟩ := ih
    -- a slot without a pointer passes the replacements on
    have passed {c d : Contents} (first : c.Resembles lax d) (left : ∀ fresh, c.refill fresh = (c, fresh))
        (right : ∀ fresh, d.refill fresh = (d, fresh)) (ps qs : List Pointer)
        (gaps : Pointer.Gaps lax mask ps qs) : ∃ cs' ds', List.Forall₂ (Resembles lax) cs' ds' ∧
          cs'.length = (c :: cs).length ∧
          (∀ done rest, refillAll done (c :: cs) (ps ++ rest) = (done ++ cs', rest)) ∧
          ∀ done rest, refillAll done (d :: ds) (qs ++ rest) = (done ++ ds', rest) := by
      obtain ⟨cs', ds', row, length, runLeft, runRight⟩ := refilled ps qs gaps
      refine ⟨c :: cs', d :: ds', .cons first row, by simp [length], fun done rest => ?_, fun done rest => ?_⟩
      · simp [refillAll, left, runLeft]
      · simp [refillAll, right, runRight]
    cases first with
    | same =>
      cases c with
      | unassigned => exact ⟨mask, gaps, passed (.same _) refill_unassigned refill_unassigned⟩
      | label position => exact ⟨mask, gaps, passed (.same _) (refill_label _) (refill_label _)⟩
      | pointer p =>
        refine ⟨true :: mask, .kept p gaps, ?_⟩
        rintro _ _ (_ | ⟨q, others⟩)
        obtain ⟨cs', ds', row, length, runLeft, runRight⟩ := refilled _ _ others
        refine ⟨.pointer q :: cs', .pointer q :: ds', .cons (.same _) row, by simp [length],
          fun done rest => ?_, fun done rest => ?_⟩
        · simp [refillAll, refill, runLeft]
        · simp [refillAll, refill, runRight]
    | vacant isLax pairless =>
      cases d with
      | unassigned => exact ⟨mask, gaps, passed (.same _) refill_unassigned refill_unassigned⟩
      | label position =>
        exact ⟨mask, gaps, passed (.vacant isLax trivial) refill_unassigned (refill_label _)⟩
      | pointer p =>
        refine ⟨false :: mask, .extra isLax pairless gaps, ?_⟩
        rintro _ _ (_ | _ | @⟨_, _, _, q, _, pairless, others⟩)
        obtain ⟨cs', ds', row, length, runLeft, runRight⟩ := refilled _ _ others
        refine ⟨.unassigned :: cs', .pointer q :: ds', .cons (.vacant isLax pairless) row, by simp [length],
          fun done rest => ?_, fun done rest => ?_⟩
        · simp [refillAll, runLeft]
        · simp [refillAll, refill, runRight]

namespace Memory

/-- What no computation on a memory changes: the program, the operations, the
registers in their order, and the capacity of the heap. -/
structure Build where
  program : ProgramHeap
  operations : OperationTable
  names : List String
  capacity : Nat

/-- A memory with a program, operations and registers. -/
structure Equipped (build : Build) (memory : Memory) : Prop where
  program : memory.program = build.program
  operations : memory.operations = build.operations
  names : memory.registers.toList.map Register.name = build.names

/-- Memories in which a computation reads the same. Beyond the free address,
and in the region that waits for the next collection, they may differ in any
way, since nothing is read there before it is written. A lax resemblance lets
slots on the right hold scalars, program addresses and labels where those on
the left hold nothing; a collection does not follow them. -/
structure Resembles (lax : Prop) (build : Build) (left right : Memory) : Prop where
  equippedLeft : left.Equipped build
  equippedRight : right.Equipped build
  heap : PairHeap.Resembles build.capacity left.heap right.heap
  registers : List.Forall₂ (Register.Resembles lax) left.registers.toList right.registers.toList
  stack : List.Forall₂ (Contents.Resembles lax) left.stack.items.toList right.stack.items.toList
  pushes : left.stack.pushes = right.stack.pushes
  maxDepth : left.stack.maxDepth = right.stack.maxDepth

variable {lax : Prop} {build : Build} {left right : Memory}

theorem Resembles.program (resembles : Resembles lax build left right) : left.program = right.program :=
  resembles.equippedLeft.program.trans resembles.equippedRight.program.symm

theorem Resembles.operations (resembles : Resembles lax build left right) :
    left.operations = right.operations :=
  resembles.equippedLeft.operations.trans resembles.equippedRight.operations.symm

theorem Resembles.head (resembles : Resembles lax build left right) : left.head = right.head := by
  funext p
  cases p with
  | pair address => simp only [Memory.head, resembles.heap.head address]
  | _ => rfl

theorem Resembles.tail (resembles : Resembles lax build left right) : left.tail = right.tail := by
  funext p
  cases p with
  | pair address => simp only [Memory.tail, resembles.heap.tail address]
  | _ => rfl

theorem Resembles.programHead (resembles : Resembles lax build left right) : left.programHead = right.programHead := by
  funext p
  simp only [Memory.programHead, resembles.program]

theorem Resembles.programTail (resembles : Resembles lax build left right) : left.programTail = right.programTail := by
  funext p
  simp only [Memory.programTail, resembles.program]

theorem Resembles.item (resembles : Resembles lax build left right) : left.item = right.item := by
  funext list index
  simp only [Memory.item, resembles.head, resembles.tail]

theorem Resembles.items (resembles : Resembles lax build left right) : left.items = right.items := by
  funext list
  simp only [Memory.items, resembles.head, resembles.tail, resembles.heap.free]

theorem Resembles.programItem (resembles : Resembles lax build left right) : left.programItem = right.programItem := by
  funext list index
  simp only [Memory.programItem, resembles.programHead, resembles.programTail]

theorem Resembles.programItems (resembles : Resembles lax build left right) :
    left.programItems = right.programItems := by
  funext list
  simp only [Memory.programItems, resembles.programHead, resembles.programTail, resembles.program]

theorem Resembles.lastPair (resembles : Resembles lax build left right) (start : Pointer)
    (fuel : Nat) (list : Pointer) :
    left.lastPair start fuel list = right.lastPair start fuel list := by
  induction fuel generalizing list with
  | zero => rfl
  | succ fuel ih => simp only [Memory.lastPair, resembles.tail, ih]

theorem Resembles.recordLeft (resembles : Resembles lax build left right) (event : Event) :
    Resembles lax build (left.record event) right :=
  { resembles with equippedLeft := { resembles.equippedLeft with } }

theorem Resembles.recordRight (resembles : Resembles lax build left right) (event : Event) :
    Resembles lax build left (right.record event) :=
  { resembles with equippedRight := { resembles.equippedRight with } }

theorem Resembles.withHeap {heap heap' : PairHeap} (resembles : Resembles lax build left right)
    (heaps : PairHeap.Resembles build.capacity heap heap') :
    Resembles lax build { left with heap := heap } { right with heap := heap' } :=
  { resembles with
    equippedLeft := { resembles.equippedLeft with }
    equippedRight := { resembles.equippedRight with }
    heap := heaps }

/-- Registers take what two rows that resemble one another hold, each in its
turn. -/
theorem refitted {cs ds : List Contents} {rs rs' : List Register}
    (registers : List.Forall₂ (Register.Resembles lax) rs rs') (row : List.Forall₂ (Contents.Resembles lax) cs ds) :
    List.Forall₂ (Register.Resembles lax)
      (List.zipWith (fun register contents => { register with contents := contents }) rs cs)
      (List.zipWith (fun register contents => { register with contents := contents }) rs' ds) := by
  induction registers generalizing cs ds with
  | nil => exact .nil
  | cons first _ ih =>
    cases row with
    | nil => exact .nil
    | cons held row => exact .cons ⟨first.name, held⟩ (ih row)

theorem refitted_names {cs : List Contents} {rs : List Register} (length : cs.length = rs.length) :
    (List.zipWith (fun register contents => ({ register with contents := contents } : Register)) rs cs).map
      Register.name = rs.map Register.name := by
  induction rs generalizing cs with
  | nil => simp
  | cons register rs ih =>
    cases cs with
    | nil => cases length
    | cons c cs => simpa using ih (Nat.succ.inj length)

theorem collect_same (resembles : Resembles lax build left right) (pending : List Pointer) :
    (left.collect pending).outcome = (right.collect pending).outcome ∧
      (left.collect pending).pending = (right.collect pending).pending ∧
      Resembles lax build (left.collect pending).memory (right.collect pending).memory := by
  have held : List.Forall₂ (Contents.Resembles lax) left.registerContents right.registerContents := by
    simp only [registerContents, List.forall₂_map_left_iff, List.forall₂_map_right_iff]
    exact resembles.registers.imp fun _ _ one => one.contents
  obtain ⟨heldMask, heldGaps, heldRefilled⟩ := Contents.exists_mask held
  obtain ⟨savedMask, savedGaps, savedRefilled⟩ := Contents.exists_mask resembles.stack
  have rooted : Pointer.Gaps lax (heldMask ++ (savedMask ++ pending.map fun _ => true)) (left.roots pending)
      (right.roots pending) := heldGaps.append (savedGaps.append (.refl pending))
  obtain ⟨outcomes, heaps, moved⟩ := PairHeap.collect_same resembles.heap rooted
  obtain ⟨ps₁, ps, qs₁, qs, leftRoots, rightRoots, heldMoved, moved⟩ := moved.split
  obtain ⟨ps₂, ps₃, qs₂, qs₃, rfl, rfl, savedMoved, moved⟩ := moved.split
  have same : ps₃ = qs₃ := moved.eq_of_all (by simp)
  subst same
  obtain ⟨cs, ds, row, length, heldLeft, heldRight⟩ := heldRefilled ps₁ qs₁ heldMoved
  have length' : ds.length = right.registerContents.length :=
    row.length_eq.symm.trans (length.trans held.length_eq)
  obtain ⟨cs', ds', row', _, savedLeft, savedRight⟩ := savedRefilled ps₂ qs₂ savedMoved
  obtain ⟨heap, program, registers, ⟨items, pushes, maxDepth⟩, operations, journal⟩ := left
  obtain ⟨heap', program', registers', ⟨items', pushes', maxDepth'⟩, operations', journal'⟩ := right
  dsimp only at leftRoots rightRoots outcomes heaps heldLeft heldRight savedLeft savedRight
  simp only [collect]
  generalize heap.collect (roots _ pending) = collected at *
  generalize heap'.collect (roots _ pending) = collected' at *
  obtain ⟨after, roots, outcome⟩ := collected
  obtain ⟨after', roots', outcome'⟩ := collected'
  dsimp only at leftRoots rightRoots outcomes heaps
  subst leftRoots rightRoots outcomes
  dsimp only
  rw [heldLeft #[], heldRight #[]]
  dsimp only
  rw [savedLeft #[], savedRight #[]]
  have after_resembles (j j' : Array Event) : Resembles lax build
      ⟨after, program, registers.zipWith (fun register contents => { register with contents := contents })
        (#[] ++ cs), ⟨#[] ++ cs', pushes, maxDepth⟩, operations, j⟩
      ⟨after', program', registers'.zipWith (fun register contents => { register with contents := contents })
        (#[] ++ ds), ⟨#[] ++ ds', pushes', maxDepth'⟩, operations', j'⟩ := {
    equippedLeft := { resembles.equippedLeft with
      names := by
        rw [Array.toList_zipWith, Array.toList_appendList, ← resembles.equippedLeft.names]
        exact refitted_names (by simpa [registerContents] using length) }
    equippedRight := { resembles.equippedRight with
      names := by
        rw [Array.toList_zipWith, Array.toList_appendList, ← resembles.equippedRight.names]
        exact refitted_names (by simpa [registerContents] using length') }
    heap := heaps
    registers := by
      rw [Array.toList_zipWith, Array.toList_zipWith, Array.toList_appendList, Array.toList_appendList]
      exact refitted resembles.registers row
    stack := by
      rw [Array.toList_appendList, Array.toList_appendList]
      exact row'
    pushes := resembles.pushes
    maxDepth := resembles.maxDepth }
  cases outcome with
  | ok live => exact ⟨rfl, rfl, after_resembles _ _⟩
  | error cause => exact ⟨rfl, rfl, after_resembles _ _⟩

/-- Setting room aside in memories that resemble one another grants or refuses
it alike, and leaves memories that resemble one another. -/
theorem reserve_same (resembles : Resembles lax build left right) (count : Nat) (pending : List Pointer) :
    (left.reserve count pending).outcome = (right.reserve count pending).outcome ∧
      (left.reserve count pending).pending = (right.reserve count pending).pending ∧
      Resembles lax build (left.reserve count pending).memory (right.reserve count pending).memory := by
  unfold reserve
  rw [resembles.heap.available]
  split
  · exact ⟨rfl, rfl, resembles⟩
  · obtain ⟨outcomes, pendings, collected⟩ := collect_same resembles pending
    generalize left.collect pending = result at *
    generalize right.collect pending = result' at *
    obtain ⟨memory, moved, outcome⟩ := result
    obtain ⟨memory', moved', outcome'⟩ := result'
    dsimp only at outcomes pendings collected
    subst outcomes pendings
    cases outcome with
    | error cause => exact ⟨rfl, rfl, collected⟩
    | ok _ =>
      dsimp only
      rw [collected.heap.available]
      split
      · exact ⟨rfl, rfl, collected⟩
      · rw [collected.heap.fittedLeft.holds, collected.heap.fittedRight.holds, collected.heap.free]
        exact ⟨rfl, rfl, (collected.recordLeft _).recordRight _⟩

end Memory

/-- An action that gives the same in memories that resemble one another, and
leaves memories that do so again. Actions are steady piece by piece, since
what is read has been written. -/
def Action.Steady {α : Type} (lax : Prop) (build : Memory.Build) (action : Action α) : Prop :=
  ∀ left right, Memory.Resembles lax build left right →
    Run.Same (fun _ => False) (Memory.Resembles lax build) Eq (action left) (action right)

namespace Action.Steady

variable {lax : Prop} {build : Memory.Build} {α β : Type}

theorem pure (a : α) : Steady lax build (Pure.pure a : Action α) :=
  fun _ _ resembles => .ok rfl resembles

theorem fail (cause : Error) : Steady lax build (throw cause : Action α) :=
  fun _ _ resembles => .error resembles

theorem bind {x : Action α} {f : α → Action β} (first : Steady lax build x) (next : ∀ a, Steady lax build (f a)) :
    Steady lax build (x >>= f) := by
  intro left right resembles
  refine (first left right resembles).bind ?_
  rintro a l _ r rfl resembles
  exact next a l r resembles

theorem inspect {f : Memory → Except Error α}
    (reads : ∀ left right, Memory.Resembles lax build left right → f left = f right) :
    Steady lax build (Action.inspect f) := by
  intro left right resembles
  simp only [Action.inspect, reads left right resembles]
  split
  · exact .ok rfl resembles
  · exact .error resembles

theorem onHeap {change : EStateM HeapError PairHeap α}
    (changes : ∀ left right, PairHeap.Resembles build.capacity left right →
      PairHeap.Same build.capacity (change left) (change right)) :
    Steady lax build (Action.onHeap change) := by
  intro left right resembles
  have changed := changes _ _ resembles.heap
  simp only [Action.onHeap]
  generalize change left.heap = result at changed
  generalize change right.heap = result' at changed
  cases changed with
  | ok same heaps => exact .ok same (resembles.withHeap heaps)
  | error heaps => exact .error (resembles.withHeap heaps)
  | lost impossible => exact impossible.elim

theorem setHead (p value : Pointer) : Steady lax build (Action.setHead p value) := by
  cases p with
  | pair address => exact onHeap fun _ _ resembles => PairHeap.setHead_same resembles address value
  | _ => exact fail _

theorem setTail (p value : Pointer) : Steady lax build (Action.setTail p value) := by
  cases p with
  | pair address => exact onHeap fun _ _ resembles => PairHeap.setTail_same resembles address value
  | _ => exact fail _

theorem clearStack : Steady lax build Action.clearStack :=
  fun _ _ resembles => .ok rfl { resembles with
    equippedLeft := { resembles.equippedLeft with }
    equippedRight := { resembles.equippedRight with }
    stack := .nil }

theorem reserve (count : Nat) (pending : List Pointer) : Steady lax build (Action.reserve count pending) := by
  intro left right resembles
  obtain ⟨outcomes, pendings, reserved⟩ := Memory.reserve_same resembles count pending
  unfold Action.reserve
  generalize left.reserve count pending = result at *
  generalize right.reserve count pending = result' at *
  obtain ⟨memory, moved, outcome⟩ := result
  obtain ⟨memory', moved', outcome'⟩ := result'
  dsimp only at outcomes pendings reserved
  subst outcomes pendings
  cases outcome with
  | ok _ => exact .ok rfl reserved
  | error cause => exact .error reserved

theorem allocReserved (head tail : Pointer) : Steady lax build (Action.allocReserved head tail) :=
  (onHeap fun _ _ resembles => PairHeap.alloc_same resembles head tail).bind fun _ => pure _

theorem allocPair (head tail : Pointer) : Steady lax build (Action.allocPair head tail) :=
  (reserve 1 [head, tail]).bind fun _ => allocReserved _ _

theorem buildList (ps : List Pointer) : Steady lax build (Action.buildList ps) := by
  induction ps with
  | nil => exact pure _
  | cons p ps ih => exact ih.bind fun tail => allocReserved p tail

theorem mapError {x : Action α} (steady : Steady lax build x) (reword : Error → Error) :
    Steady lax build (Action.mapError reword x) := by
  intro left right resembles
  have same := steady left right resembles
  unfold Action.mapError
  generalize x left = result at same
  generalize x right = result' at same
  cases same with
  | ok same resembles => exact .ok same resembles
  | error resembles => exact .error resembles
  | lost impossible => exact impossible.elim

end Action.Steady

end ExplicitControl
