import ExplicitControl.Operation.Call
import ExplicitControl.Proofs.Memory.Allotment

namespace ExplicitControl

namespace PairHeap

/-- The last pair of a list, found by following tails. What the pairs have for
their heads does not matter, so a list that leads back to itself by an item
still has a last pair. -/
inductive EndsAt (heap : PairHeap) : Pointer → Nat → Prop
  | last {a : Nat} {item : Pointer} : heap.Holds a item .null → EndsAt heap (.pair a) a
  | next {a b : Nat} {item rest : Pointer} : heap.Holds a item rest → EndsAt heap rest b → EndsAt heap (.pair a) b

section

variable {heap left right : PairHeap} {ρ : Nat → Nat → Prop} {p q item : Pointer} {items : List Pointer} {a b : Nat}

theorem EndsAt.holds (ends : heap.EndsAt p a) : ∃ item, heap.Holds a item .null := by
  induction ends with
  | last holds => exact ⟨_, holds⟩
  | next _ _ ih => exact ih

theorem EndsAt.kept (ends : left.EndsAt p a) (kept : ∀ a head tail, left.Holds a head tail → right.Holds a head tail) :
    right.EndsAt p a := by
  induction ends with
  | last holds => exact .last (kept _ _ _ holds)
  | next holds _ ih => exact .next (kept _ _ _ holds) ih

theorem EndsAt.isNull_eq (ends : heap.EndsAt p a) : p.isNull = false := by
  cases ends <;> rfl

theorem EndsAt.unique (one : heap.EndsAt p a) (other : heap.EndsAt p b) : a = b := by
  induction one with
  | last holds =>
    cases other with
    | last _ => rfl
    | next holds' ends =>
      obtain ⟨_, rfl⟩ := holds.unique holds'
      cases ends.isNull_eq
  | next holds ends ih =>
    cases other with
    | last holds' =>
      obtain ⟨_, rfl⟩ := holds.unique holds'
      cases ends.isNull_eq
    | next holds' ends' =>
      obtain ⟨rfl, rfl⟩ := holds.unique holds'
      exact ih ends'

/-- A pair with something after it is not the last one, of whatever list. -/
theorem Holds.not_endsAt {rest : Pointer} (holds : heap.Holds a item rest) (more : rest.isNull = false) :
    ¬ heap.EndsAt p a := by
  intro ends
  obtain ⟨_, last⟩ := ends.holds
  obtain ⟨_, rfl⟩ := holds.unique last
  cases more

theorem Lists.exists_endsAt (lists : heap.Lists p items) (notEmpty : p.isNull = false) : ∃ a, heap.EndsAt p a := by
  induction lists with
  | nil => cases notEmpty
  | @cons a item rest items holds restLists ih =>
    cases restLists with
    | nil => exact ⟨a, .last holds⟩
    | cons _ _ =>
      obtain ⟨b, ends⟩ := ih rfl
      exact ⟨b, .next holds ends⟩

/-- What a pair holds stands for what its copy holds, head for head and tail
for tail. -/
theorem Matches.exists_holds {head tail : Pointer} (matched : left.Matches ρ right) (related : ρ a b)
    (holds : left.Holds a head tail) :
    ∃ head' tail', right.Holds b head' tail' ∧ head.Matches ρ head' ∧ tail.Matches ρ tail' := by
  obtain ⟨_, _, head', tail', holds', held, heads, tails⟩ := matched.pairs a b related
  obtain ⟨rfl, rfl⟩ := holds.unique holds'
  exact ⟨head', tail', held, heads, tails⟩

/-- The last pair of a list stands for that of its copy. -/
theorem Matches.exists_endsAt (matched : left.Matches ρ right) (ends : left.EndsAt p a) (same : p.Matches ρ q) :
    ∃ b, ρ a b ∧ right.EndsAt q b := by
  induction ends generalizing q with
  | last holds =>
    cases same with
    | pair related =>
      obtain ⟨_, _, held, _, tails⟩ := matched.exists_holds related holds
      cases tails
      exact ⟨_, related, .last held⟩
  | next holds _ ih =>
    cases same with
    | pair related =>
      obtain ⟨_, _, held, _, tails⟩ := matched.exists_holds related holds
      obtain ⟨b, related', ends'⟩ := ih tails
      exact ⟨b, related', .next held ends'⟩

theorem Matches.endsAt_iff (matched : left.Matches ρ right) (same : p.Matches ρ q) (related : ρ a b) :
    left.EndsAt p a ↔ right.EndsAt q b := by
  constructor
  · intro ends
    obtain ⟨c, related', ends'⟩ := matched.exists_endsAt ends same
    exact matched.unique.2 related' related ▸ ends'
  · intro ends
    obtain ⟨c, related', ends'⟩ := matched.symm.exists_endsAt ends same.symm
    exact matched.unique.1 related' related ▸ ends'

end

/-- The heap once a value has been appended to a list: there is one more pair,
and the last pair of the list has it for its tail. All other pairs are what
they were. -/
structure Lengthened (before : PairHeap) (list value : Pointer) (after : PairHeap) : Prop where
  sized : after.Sized
  spare : after.spare = before.spare
  free : after.free = before.free + 1
  allocated : after.statistics.allocated = before.statistics.allocated + 1
  collections : after.statistics.collections = before.statistics.collections
  new : after.Holds before.free value .null
  kept : ∀ a head tail, before.Holds a head tail → ¬ before.EndsAt list a → after.Holds a head tail
  linked : ∀ a head tail, before.Holds a head tail → before.EndsAt list a → after.Holds a head (.pair before.free)

namespace Lengthened

variable {before after heap : PairHeap} {list value p : Pointer} {items : List Pointer} {a : Nat}

/-- The empty list has no last pair, so lengthening it is no more than the new
pair. -/
theorem of_null (sized : heap.Sized) (room : 0 < heap.available) (value : Pointer) :
    heap.Lengthened .null value (heap.grown value .null) where
  sized := sized.grown room value .null
  spare := rfl
  free := rfl
  allocated := rfl
  collections := rfl
  new := holds_grown_new sized room
  kept := fun _ _ _ holds _ => holds.grown
  linked := fun _ _ _ _ ends => nomatch ends

/-- Where a list has a last pair, a new pair that takes the place of null in
its tail lengthens the list. -/
theorem of_endsAt {item : Pointer} (sized : heap.Sized) (room : 0 < heap.available) (ends : heap.EndsAt list a)
    (last : heap.Holds a item .null) (value : Pointer) :
    heap.Lengthened list value ((heap.grown value .null).replaced a item (.pair heap.free)) where
  sized := by
    obtain ⟨active, spare, free⟩ := sized.grown room value .null
    exact ⟨Array.size_setIfInBounds.trans active, spare, free⟩
  spare := rfl
  free := rfl
  allocated := rfl
  collections := rfl
  new := (holds_grown_new sized room).replaced_other (Nat.ne_of_lt last.lt)
  kept := fun b head tail holds other => holds.grown.replaced_other fun same => other (same ▸ ends)
  linked := by
    intro b head tail holds ends'
    obtain rfl := ends.unique ends'
    obtain ⟨rfl, _⟩ := holds.unique last
    exact holds.grown.replaced_self

/-- What ends as the list does goes on to the new pair. This is for every rest
of the list, so that the list itself can be taken by induction. -/
theorem lists_of_ends (lengthened : before.Lengthened list value after) (lists : before.Lists p items)
    (notEmpty : p.isNull = false) (ends : ∀ a, before.EndsAt p a → before.EndsAt list a) :
    after.Lists p (items ++ [value]) := by
  induction lists with
  | nil => cases notEmpty
  | @cons a item rest items holds restLists ih =>
    cases restLists with
    | nil => exact .cons (lengthened.linked a item _ holds (ends a (.last holds))) (.cons lengthened.new .nil)
    | cons holds' _ =>
      -- a pair before the last has something for a tail, so it is not the one that changes
      have kept := lengthened.kept a item _ holds (holds.not_endsAt rfl)
      exact .cons kept (ih rfl fun b atEnd => ends b (.next holds atEnd))

/-- The list has the value for one more item, at its end. -/
theorem lists (lengthened : before.Lengthened list value after) (lists : before.Lists list items) :
    after.Lists (if list.isNull then .pair before.free else list) (items ++ [value]) := by
  cases lists with
  | nil => exact .cons lengthened.new .nil
  | cons holds rest => exact lengthened.lists_of_ends (.cons holds rest) rfl fun _ => id

theorem sound (lengthened : before.Lengthened list value after) (sound : before.Sound)
    (below : value.Below before.free) : after.Sound where
  toSized := lengthened.sized
  closed := by
    intro a inUse
    have more : before.free ≤ after.free := lengthened.free ▸ Nat.le_succ _
    have newBelow : (Pointer.pair before.free).Below after.free := lengthened.new.lt
    rw [lengthened.free] at inUse
    rcases Nat.lt_succ_iff_lt_or_eq.mp inUse with old | rfl
    · obtain ⟨head, tail, holds, headBelow, tailBelow⟩ := sound.closed a old
      by_cases ends : before.EndsAt list a
      · exact ⟨head, _, lengthened.linked a head tail holds ends, headBelow.mono more, newBelow⟩
      · exact ⟨head, tail, lengthened.kept a head tail holds ends, headBelow.mono more, tailBelow.mono more⟩
    · exact ⟨value, .null, lengthened.new, below.mono more, trivial⟩

/-- Nothing has moved since room was made, so a pair comes from where it came
from then. -/
theorem carries_eq (lengthened : before.Lengthened list value after) (origin : PairHeap) :
    origin.Carries after = origin.Carries before := by
  funext a b
  simp only [Carries, lengthened.collections, lengthened.spare]

end Lengthened

end PairHeap

namespace Memory

variable {memory : Memory} {p start : Pointer}

/-- The walk to the last pair takes as many steps as the list has pairs,
whatever its items are. -/
theorem lastPair_of_endsAt {items : List Pointer} {a fuel : Nat} (lists : memory.heap.Lists p items)
    (ends : memory.heap.EndsAt p a) (enough : items.length ≤ fuel) : memory.lastPair start fuel p = .ok (.pair a) := by
  induction lists generalizing fuel with
  | nil => cases ends.isNull_eq
  | @cons b item rest items holds restLists ih =>
    match fuel with
    | 0 => cases enough
    | fuel + 1 =>
      have tailRead : memory.tail (.pair b) = .ok rest := by
        simp only [Memory.tail, holds.tail_eq]
        rfl
      simp only [lastPair, tailRead]
      cases restLists with
      | nil =>
        obtain rfl := ends.unique (.last holds)
        rfl
      | cons holds' _ =>
        cases ends with
        | last holds'' => cases (holds.unique holds'').2
        | next holds'' ends' =>
          obtain ⟨_, rfl⟩ := holds.unique holds''
          exact ih ends' (Nat.le_of_succ_le_succ enough)

/-- A new pair that is not linked to a list does not lengthen the walk along
it, also where the pair leads to the list. The walk is taken before the pair
is linked, and so ends where the value is the list itself. -/
theorem lastPair_grown {items : List Pointer} {value : Pointer} {a fuel : Nat} (sized : memory.heap.Sized)
    (room : 0 < memory.heap.available) (lists : memory.heap.Lists p items) (ends : memory.heap.EndsAt p a)
    (enough : items.length ≤ fuel) :
    (memory.withHeap (memory.heap.grown value .null)).lastPair start fuel p = .ok (.pair a) := by
  have enlarged := PairHeap.Enlarged.grown sized room value .null
  exact lastPair_of_endsAt (lists.kept enlarged.kept) (ends.kept enlarged.kept) enough

end Memory

theorem PairHeap.Lists.start_below {heap : PairHeap} {p : Pointer} {items : List Pointer}
    (lists : heap.Lists p items) :
    p.Below heap.free := by
  cases lists with
  | nil => trivial
  | cons holds _ => exact holds.lt

section

variable {memory after : Memory} {value list value' list' : Pointer} {items : List Pointer}

/-- Once room has been made, the list is lengthened and answered; an empty one
is answered as the new pair. -/
theorem appendArgument_lengthens (reserved : memory.reserve 1 [value, list] = ⟨after, [value', list'], .ok ()⟩)
    (sized : after.heap.Sized) (room : 0 < after.heap.available) (lists : after.heap.Lists list' items) :
    ∃ heap, after.heap.Lengthened list' value' heap ∧ appendArgument value list memory
      = .ok ⟨if list'.isNull then .pair after.heap.free else list', [value', list']⟩ (after.withHeap heap) := by
  have allocated := Action.allocReserved_eq_grown sized room value' .null
  cases empty : list'.isNull with
  | true =>
    cases lists with
    | cons _ _ => cases empty
    | nil =>
      refine ⟨_, .of_null sized room value', ?_⟩
      change EStateM.bind (Action.reserve 1 [value, list]) _ memory = _
      simp only [EStateM.bind, Action.reserve, reserved]
      exact Action.bind_eq_ok_iff.mpr ⟨_, _, allocated, rfl⟩
  | false =>
    obtain ⟨a, ends⟩ := lists.exists_endsAt empty
    obtain ⟨item, last⟩ := ends.holds
    refine ⟨_, .of_endsAt sized room ends last value', ?_⟩
    -- the walk is taken where the new pair is there, but not yet linked
    have found : (after.withHeap (after.heap.grown value' .null)).lastPair list' (after.heap.free + 1 + 1) list'
        = .ok (.pair a) := by
      have short := Memory.length_le_free lists
      exact Memory.lastPair_grown sized room lists ends (by omega)
    have linked : Action.setTail (.pair a) (.pair after.heap.free) (after.withHeap (after.heap.grown value' .null))
        = .ok () (after.withHeap ((after.heap.grown value' .null).replaced a item (.pair after.heap.free))) := by
      simp only [Action.setTail, Action.onHeap, Memory.withHeap, PairHeap.setTail_eq_replaced last.grown]
    change EStateM.bind (Action.reserve 1 [value, list]) _ memory = _
    simp only [EStateM.bind, Action.reserve, reserved]
    refine Action.bind_eq_ok_iff.mpr ⟨_, _, allocated, ?_⟩
    simp only [List.getD_cons_succ, List.getD_cons_zero, empty]
    refine (Action.inspect_bind_ok found).trans ?_
    exact Action.bind_eq_ok_iff.mpr ⟨_, _, linked, rfl⟩

end

namespace HeapOperation

/-- The later memory is the earlier one but for where pairs lie, but for one new
pair, and but for the tail of the last pair of a list, which is the new pair
now. -/
structure Grafted (memory : Memory) (value list : Pointer) (new : Nat) (final : Memory) : Prop where
  /-- Pairs have moved once at most, each to a place of its own. -/
  collections : final.heap.statistics.collections ≤ memory.heap.statistics.collections + 1
  unique : Relator.BiUnique (memory.heap.Carries final.heap)
  /-- What could be reached is still there, and registers and stack refer to it
  as before. -/
  reached : ∀ a, memory.heap.Reaches (memory.roots [value, list]) a → ∃ b, memory.heap.Carries final.heap a b
  registers : List.Forall₂ (Register.Matches (memory.heap.Carries final.heap)) memory.registers.toList
    final.registers.toList
  stack : List.Forall₂ (Contents.Matches (memory.heap.Carries final.heap)) memory.stack.items.toList
    final.stack.items.toList
  pushes : final.stack.pushes = memory.stack.pushes
  maxDepth : final.stack.maxDepth = memory.stack.maxDepth
  program : final.program = memory.program
  operations : final.operations = memory.operations
  /-- A pair holds what it held, unless the list ends there. -/
  kept : ∀ a b head tail, memory.heap.Carries final.heap a b → memory.heap.Holds a head tail →
    ¬ memory.heap.EndsAt list a → ∃ head' tail', final.heap.Holds b head' tail' ∧
      head.Matches (memory.heap.Carries final.heap) head' ∧ tail.Matches (memory.heap.Carries final.heap) tail'
  linked : ∀ a b head tail, memory.heap.Carries final.heap a b → memory.heap.Holds a head tail →
    memory.heap.EndsAt list a → ∃ head', final.heap.Holds b head' (.pair new) ∧
      head.Matches (memory.heap.Carries final.heap) head'
  /-- The new pair is the only one that was not there. -/
  allocated : final.heap.statistics.allocated = memory.heap.statistics.allocated + 1
  fresh : ∀ a, ¬ memory.heap.Carries final.heap a new
  covered : ∀ b < final.heap.free, b = new ∨ ∃ a, memory.heap.Carries final.heap a b
  /-- Still no reference dangles. -/
  closed : final.Closed

/-- The walk to the last pair of a list ends, however many steps it is allowed
beyond the pairs that the list has. It is taken once room has been made and the
new pair, with the value in it, is there. -/
def WalkEnds (memory : Memory) (value list value' list' : Pointer) (new pairs : Nat) : Prop :=
  ∃ after between last, Action.reserve 1 [value, list] memory = .ok [value', list'] after ∧
    Action.allocReserved value' .null after = .ok (.pair new) between ∧
    ∀ limit, pairs ≤ limit → between.lastPair list' limit list' = .ok (.pair last)

/-- What comes of appending a value to a list: the list in place, with the value
for one more item, or a refusal for want of room. -/
inductive AppendsInPlace (memory : Memory) (value list : Pointer) (values : List Pointer) :
    EStateM.Result Error Memory Applied → Prop
  | appended {answer value' list' : Pointer} {values' : List Pointer} {new : Nat} {final : Memory}
      (room : memory.live [value, list] < memory.heap.capacity)
      (valueMoved : value.Matches (memory.heap.Carries final.heap) value')
      (listMoved : list.Matches (memory.heap.Carries final.heap) list')
      (valuesMoved : List.Forall₂ (Pointer.Matches (memory.heap.Carries final.heap)) values values')
      (inPlace : answer = if list.isNull then .pair new else list')
      (items : final.items answer = .ok (values' ++ [value']))
      (added : final.heap.Holds new value' .null)
      (walked : list.isNull = false → WalkEnds memory value list value' list' new values.length)
      (grafted : Grafted memory value list new final) :
      AppendsInPlace memory value list values (.ok ⟨answer, [value', list']⟩ final)
  | refused {moved : List Pointer} {final : Memory}
      (full : memory.live [value, list] = memory.heap.capacity)
      (unchanged : memory.Isomorphic [value, list] final moved) :
      AppendsInPlace memory value list values
        (.error (.heap (.exhausted memory.heap.capacity (memory.live [value, list]))) final)

section

variable {memory after : Memory} {value list value' list' : Pointer} {values : List Pointer} {heap : PairHeap}

/-- Once room has been made, lengthening the list is all that is done: the
memories from before and after differ by what making room has moved, by the
new pair and by one tail. -/
theorem Grafted.of_lengthened (closed : memory.Closed) (below : ∀ p ∈ [value, list], p.Below memory.heap.free)
    (reserved : memory.reserve 1 [value, list] = ⟨after, [value', list'], .ok ()⟩)
    (listMoved : list.Matches (memory.heap.Carries after.heap) list')
    (valueBelow : value'.Below after.heap.free) (lengthened : after.heap.Lengthened list' value' heap) :
    Grafted memory value list after.heap.free (after.withHeap heap) := by
  have granted := closed.granted below reserved
  have matched := granted.matched
  have carries : memory.heap.Carries (after.withHeap heap).heap = memory.heap.Carries after.heap :=
    lengthened.carries_eq memory.heap
  have more : after.heap.free ≤ heap.free := lengthened.free ▸ Nat.le_succ _
  constructor
  case collections => exact lengthened.collections ▸ granted.collections
  case unique => exact carries ▸ matched.heap.unique
  case reached => exact carries ▸ granted.reached
  case registers => exact carries ▸ matched.registers
  case stack => exact carries ▸ matched.stack
  case pushes => exact matched.pushes.symm
  case maxDepth => exact matched.maxDepth.symm
  case program => exact matched.program.symm
  case operations => exact matched.operations.symm
  case kept =>
    rw [carries]
    intro a b head tail carried holds other
    obtain ⟨head', tail', holds', heads, tails⟩ := matched.heap.exists_holds carried holds
    have other' := mt (matched.heap.endsAt_iff listMoved carried).mpr other
    exact ⟨head', tail', lengthened.kept b head' tail' holds' other', heads, tails⟩
  case linked =>
    rw [carries]
    intro a b head tail carried holds ends
    obtain ⟨head', tail', holds', heads, _⟩ := matched.heap.exists_holds carried holds
    have ends' := (matched.heap.endsAt_iff listMoved carried).mp ends
    exact ⟨head', lengthened.linked b head' tail' holds' ends', heads⟩
  case allocated => exact lengthened.allocated.trans (congrArg (· + 1) matched.allocated.symm)
  case fresh =>
    rw [carries]
    exact fun a carried => Nat.lt_irrefl _ (matched.heap.lt_right carried)
  case covered =>
    rw [carries]
    intro b inUse
    rcases Nat.lt_succ_iff_lt_or_eq.mp (Nat.lt_of_lt_of_eq inUse lengthened.free) with old | new
    · exact .inr (closed.covered below reserved old)
    · exact .inl new
  case closed =>
    exact ⟨lengthened.sound granted.closed.heap valueBelow,
      fun register member => (granted.closed.registers register member).mono more,
      fun saved member => (granted.closed.stack saved member).mono more⟩

theorem walkEnds_of_reserve (reserved : memory.reserve 1 [value, list] = ⟨after, [value', list'], .ok ()⟩)
    (sized : after.heap.Sized) (room : 0 < after.heap.available) (lists : after.heap.Lists list' values)
    (notEmpty : list'.isNull = false) : WalkEnds memory value list value' list' after.heap.free values.length := by
  obtain ⟨a, ends⟩ := lists.exists_endsAt notEmpty
  refine ⟨after, _, a, ?_, Action.allocReserved_eq_grown sized room value' .null, fun limit enough => ?_⟩
  · simp only [Action.reserve, reserved]
  · exact Memory.lastPair_grown sized room lists ends enough

/-- In a memory without dangling references a value is appended to a proper
list in place, unless the pairs that can be reached fill the heap. The value
goes into a new pair, which takes the place of null in the tail of the last
pair; but for where pairs lie nothing else changes. Room may have to be made,
which moves value and list alike. -/
theorem adjoinArgument_appends_in_place (closed : memory.Closed) (isValue : value.Below memory.heap.free)
    (lists : memory.heap.Lists list values) :
    AppendsInPlace memory value list values (HeapOperation.adjoinArgument.run [value, list] memory) := by
  have below : ∀ p ∈ [value, list], p.Below memory.heap.free := by
    simp only [List.mem_cons, List.not_mem_nil, or_false]
    rintro p (rfl | rfl)
    · exact isValue
    · exact lists.start_below
  have used := (closed.live_le_free below).trans closed.heap.free
  have outcome := closed.reserve_outcome below 1
  change AppendsInPlace memory value list values (appendArgument value list memory)
  rcases reserved : memory.reserve 1 [value, list] with ⟨after, moved, result⟩
  rw [reserved] at outcome
  split at outcome
  · cases outcome
    have granted := closed.granted below reserved
    obtain ⟨value', list', valueMoved, listMoved, rfl⟩ := granted.two
    obtain ⟨values', lists', rows⟩ := granted.matched.heap.lists lists listMoved
    have sized := granted.closed.heap.toSized
    obtain ⟨heap, lengthened, ran⟩ := appendArgument_lengthens reserved sized granted.room lists'
    have grafted := Grafted.of_lengthened closed below reserved listMoved (granted.below valueMoved) lengthened
    have carries : memory.heap.Carries after.heap = memory.heap.Carries (after.withHeap heap).heap :=
      (lengthened.carries_eq memory.heap).symm
    have items : (after.withHeap heap).items _ = .ok (values' ++ [value']) :=
      Memory.items_of_lists (lengthened.lists lists')
    rw [ran]
    refine .appended ?_ (carries ▸ valueMoved) (carries ▸ listMoved)
      (carries ▸ rows) ?_ items lengthened.new ?_ grafted
    · omega
    · rw [listMoved.isNull_eq]
    · rw [listMoved.isNull_eq, rows.length_eq]
      exact walkEnds_of_reserve reserved sized granted.room lists'
  · cases outcome
    have full : memory.live [value, list] = memory.heap.capacity := by omega
    have ran : appendArgument value list memory
        = .error (.heap (.exhausted memory.heap.capacity (memory.live [value, list]))) after := by
      change EStateM.bind (Action.reserve 1 [value, list]) _ memory = _
      simp only [EStateM.bind, Action.reserve, reserved]
    rw [ran]
    exact .refused full (closed.refused below reserved).2.2

end

/-- A full memory with a list that has itself for its last item. Both its pairs
are saved on the stack, and a third pair is garbage. -/
def coiled : Memory where
  heap :=
    { PairHeap.empty 3 with
      active := #[⟨.value .null, .null⟩, ⟨.value (.pair 2), .null⟩, ⟨.value (.bool true), .pair 1⟩]
      free := 3 }
  registers := #[⟨"val", .pointer (.pair 2)⟩]
  stack := { items := #[.pointer (.pair 2), .pointer (.pair 1)] }
  program := {}
  operations := .standard
  journal := #[]

/-- The list is appended to itself once more, although it has itself for an
item already. The room for the new pair comes from the one pair of garbage. -/
theorem coiled_appends_in_place : coiled.Closed ∧ coiled.heap.available = 0 ∧
    coiled.heap.Lists (.pair 2) [.bool true, .pair 2] ∧
    (∃ final, HeapOperation.adjoinArgument.run [.pair 2, .pair 2] coiled = .ok ⟨.pair 0, [.pair 0, .pair 0]⟩ final ∧
      final.items (.pair 0) = .ok [.bool true, .pair 0, .pair 0]) ∧
    AppendsInPlace coiled (.pair 2) (.pair 2) [.bool true, .pair 2]
      (HeapOperation.adjoinArgument.run [.pair 2, .pair 2] coiled) := by
  have closed : coiled.Closed := by
    refine ⟨⟨⟨rfl, by simp [coiled, PairHeap.empty, Region.blank], by decide⟩, ?_⟩, ?_, ?_⟩
    · exact PairHeap.check_eq_ok_iff.mp rfl
    · simp [coiled, Contents.Below, Pointer.Below]
    · simp [coiled, Contents.Below, Pointer.Below]
  have lists : coiled.heap.Lists (.pair 2) [.bool true, .pair 2] :=
    .cons ⟨by decide, rfl⟩ (.cons ⟨by decide, rfl⟩ .nil)
  exact ⟨closed, by decide, lists, ⟨_, rfl, rfl⟩, adjoinArgument_appends_in_place closed lists.start_below lists⟩

end HeapOperation

end ExplicitControl
