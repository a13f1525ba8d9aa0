import ExplicitControl.Memory.List
import ExplicitControl.Proofs.Memory.Twin

namespace ExplicitControl

/-- A partial step can be taken exactly so many times from a point on. Walking
along a list is such a step, from a pair to the rest. -/
inductive Stops {α : Type} (next : α → Option α) : Nat → α → Prop
  | stop {a : α} : next a = none → Stops next 0 a
  | step {a b : α} {n : Nat} : next a = some b → Stops next n b → Stops next (n + 1) a

namespace Stops

variable {α β : Type} {next : α → Option α} {a b : α} {n m : Nat}

theorem unique (one : Stops next n a) (other : Stops next m a) : n = m := by
  induction one generalizing m with
  | stop ended =>
    cases other with
    | stop _ => rfl
    | step taken _ => rw [ended] at taken; cases taken
  | step taken _ ih =>
    cases other with
    | stop ended => rw [ended] at taken; cases taken
    | step taken' rest =>
      rw [taken] at taken'
      cases taken'
      rw [ih rest]

/-- Where every step is told by a number below a limit, no more steps than
that are taken: a number that came back would start the same walk again, and
the walk would not end. -/
theorem le_limit {limit : Nat} {key : α → Nat} (below : ∀ a b, next a = some b → key a < limit)
    (told : ∀ a b c d, next a = some b → next c = some d → key a = key c → b = d)
    (stops : Stops next n a) : n ≤ limit := by
  have visited : ∃ keys : List Nat, keys.length = n ∧ keys.Nodup ∧
      ∀ k ∈ keys, k < limit ∧ ∃ c d m, next c = some d ∧ key c = k ∧ m < n ∧ Stops next m d := by
    induction stops with
    | stop _ => exact ⟨[], rfl, .nil, by simp⟩
    | @step a b n taken rest ih =>
      obtain ⟨keys, length, nodup, each⟩ := ih
      refine ⟨key a :: keys, by simp [length], List.nodup_cons.mpr ⟨fun member => ?_, nodup⟩, ?_⟩
      · obtain ⟨_, c, d, m, taken', same, before, rest'⟩ := each _ member
        obtain rfl := told _ _ _ _ taken taken' same.symm
        exact absurd (rest.unique rest') (by omega)
      · intro k member
        rcases List.mem_cons.mp member with rfl | old
        · exact ⟨below a b taken, a, b, n, taken, rfl, Nat.lt_succ_self n, rest⟩
        · obtain ⟨bound, c, d, m, taken', same, before, rest'⟩ := each k old
          exact ⟨bound, c, d, m, taken', same, Nat.lt_succ_of_lt before, rest'⟩
  obtain ⟨keys, length, nodup, each⟩ := visited
  have subset : keys ⊆ List.range limit := fun k member => List.mem_range.mpr (each k member).1
  simpa [length] using (nodup.subperm subset).length_le

/-- Walks that go on together end together, after as many steps. -/
theorem transfer {next' : β → Option β} {rel : α → β → Prop}
    (together : ∀ a b, rel a b → next a = none ∧ next' b = none ∨
      ∃ c d, next a = some c ∧ next' b = some d ∧ rel c d)
    {b : β} (related : rel a b) (stops : Stops next n a) : Stops next' n b := by
  induction stops generalizing b with
  | stop ended =>
    rcases together _ _ related with ⟨_, ended'⟩ | ⟨c, d, taken, _⟩
    · exact .stop ended'
    · rw [ended] at taken; cases taken
  | step taken _ ih =>
    rcases together _ _ related with ⟨ended, _⟩ | ⟨c, d, taken', taken'', related'⟩
    · rw [ended] at taken; cases taken
    · rw [taken] at taken'
      cases taken'
      exact .step taken'' (ih related')

end Stops

/-- A computation that follows a walk for as many steps as it is given. Where
the walk ends, the number of steps does not matter beyond its length; where it
never ends, the computation says so. -/
structure Walk {α R : Type} (next : α → Option α) (limit : Nat) (F : Nat → α → R) (endless : R → Prop) :
    Prop where
  halt : ∀ a k, next a = none → F (k + 1) a = F 1 a
  go : ∀ a b, next a = some b → ∃ g : R → R, (∀ k, F (k + 1) a = g (F k b)) ∧
    ∀ r, endless r → endless (g r)
  zero : ∀ a b, next a = some b → endless (F 0 a)
  bound : ∀ n a, Stops next n a → n ≤ limit

namespace Walk

variable {α β R R' : Type} {next : α → Option α} {next' : β → Option β} {limit limit' : Nat}
  {F : Nat → α → R} {F' : Nat → β → R'} {endless : R → Prop} {endless' : R' → Prop} {a : α} {b : β}

theorem settled (walk : Walk next limit F endless) {n : Nat} (stops : Stops next n a) (k : Nat) :
    F (n + 1 + k) a = F (n + 1) a := by
  induction stops with
  | stop ended =>
    rw [show 0 + 1 + k = k + 1 by omega]
    exact walk.halt _ k ended
  | @step a b n taken _ ih =>
    obtain ⟨g, next, _⟩ := walk.go a b taken
    rw [show n + 1 + 1 + k = n + 1 + k + 1 by omega, next, next, ih]

theorem of_never (walk : Walk next limit F endless) (never : ∀ n, ¬ Stops next n a) (fuel : Nat) :
    endless (F fuel a) := by
  induction fuel generalizing a with
  | zero =>
    cases step : next a with
    | none => exact absurd (.stop step) (never 0)
    | some b => exact walk.zero a b step
  | succ fuel ih =>
    cases step : next a with
    | none => exact absurd (.stop step) (never 0)
    | some b =>
      obtain ⟨g, next, kept⟩ := walk.go a b step
      rw [next]
      exact kept _ (ih fun n stops => never (n + 1) (.step step stops))

/-- Walks that go on together give results that belong together, however many
steps each of them is given beyond its limit. The limits may differ, as the
free addresses of two heaps do. -/
theorem tied (left : Walk next limit F endless) (right : Walk next' limit' F' endless')
    {rel : α → β → Prop} {tie : R → R' → Prop}
    (together : ∀ a b, rel a b → next a = none ∧ next' b = none ∨
      ∃ c d, next a = some c ∧ next' b = some d ∧ rel c d)
    (same : ∀ k a b, rel a b → tie (F k a) (F' k b))
    (both : ∀ r r', endless r → endless' r' → tie r r') (related : rel a b) :
    tie (F (limit + 1) a) (F' (limit' + 1) b) := by
  by_cases ends : ∃ n, Stops next n a
  · obtain ⟨n, stops⟩ := ends
    have stops' := stops.transfer together related
    have bound := left.bound n a stops
    have bound' := right.bound n b stops'
    rw [show limit + 1 = n + 1 + (limit - n) by omega, left.settled stops,
      show limit' + 1 = n + 1 + (limit' - n) by omega, right.settled stops']
    exact same _ _ _ related
  · have never : ∀ n, ¬ Stops next n a := fun n stops => ends ⟨n, stops⟩
    refine both _ _ (left.of_never never _) (right.of_never (fun n stops => ?_) _)
    have flipped : ∀ b a, Function.swap rel b a → next' b = none ∧ next a = none ∨
        ∃ d c, next' b = some d ∧ next a = some c ∧ Function.swap rel d c := by
      intro b a related
      rcases together a b related with ⟨ended, ended'⟩ | ⟨c, d, taken, taken', related'⟩
      · exact .inl ⟨ended', ended⟩
      · exact .inr ⟨d, c, taken', taken, related'⟩
    exact never n (stops.transfer flipped related)

end Walk

/-- The rest of a list whose first pair can be read. -/
def rest? (head tail : Pointer → Except Error Pointer) (list : Pointer) : Option Pointer :=
  if list.isNull then none
  else
    match head list, tail list with
    | .ok _, .ok rest => some rest
    | _, _ => none

theorem rest?_eq_some_iff {head tail : Pointer → Except Error Pointer} {list rest : Pointer} :
    rest? head tail list = some rest ↔
      list.isNull = false ∧ (∃ item, head list = .ok item) ∧ tail list = .ok rest := by
  unfold rest?
  cases list.isNull <;> cases head list <;> cases tail list <;> simp

theorem rest?_eq_none_iff {head tail : Pointer → Except Error Pointer} {list : Pointer} :
    rest? head tail list = none ↔ list.isNull = true ∨ (∃ e, head list = .error e) ∨
      ∃ e, tail list = .error e := by
  unfold rest?
  cases list.isNull <;> cases head list <;> cases tail list <;> simp

/-- The rest of a list unless it is empty. -/
def more? (tail : Pointer → Except Error Pointer) (list : Pointer) : Option Pointer :=
  match tail list with
  | .ok rest => if rest.isNull then none else some rest
  | .error _ => none

theorem more?_eq_some_iff {tail : Pointer → Except Error Pointer} {list rest : Pointer} :
    more? tail list = some rest ↔ tail list = .ok rest ∧ rest.isNull = false := by
  unfold more?
  cases tail list with
  | error e => simp
  | ok p =>
    simp only [Except.ok.injEq]
    cases empty : p.isNull with
    | true =>
      simp only [if_true, reduceCtorEq, false_iff, not_and]
      rintro rfl
      simp [empty]
    | false =>
      simp only [Bool.false_eq_true, if_false, Option.some.injEq]
      constructor
      · rintro rfl
        exact ⟨rfl, empty⟩
      · exact fun both => both.1

/-- The address of a pair. -/
def Pointer.address : Pointer → Nat
  | .pair a => a
  | _ => 0

variable {ρ : Nat → Nat → Prop} {S : Pointer → Pointer → Prop}
  {head tail head' tail' : Pointer → Except Error Pointer} {p q : Pointer}

theorem listItems_tied
    (heads : ∀ p q, p.Matches ρ q → Read.Tied S (head p) (head' q))
    (tails : ∀ p q, p.Matches ρ q → Read.Tied (Pointer.Matches ρ) (tail p) (tail' q))
    {start start' : Pointer} (starts : start.Matches ρ start') (fuel : Nat) (matched : p.Matches ρ q) :
    Read.Tied (List.Forall₂ S) (listItems head tail start fuel p)
      (listItems head' tail' start' fuel q) := by
  induction fuel generalizing p q with
  | zero =>
    refine .error (.addresses ?_) id
    simp only [Error.rename, MachineError.rename, starts.rename_zero]
  | succ fuel ih =>
    simp only [listItems, matched.isNull_eq]
    split
    · exact .ok .nil
    · refine (heads p q matched).bind fun item item' items => ?_
      refine (tails p q matched).bind fun rest rest' rests => ?_
      exact (ih rests).bind fun _ _ more => .ok (.cons items more)

theorem listRef_tied {S : Pointer → Pointer → Prop}
    (heads : ∀ p q, p.Matches ρ q → Read.Tied S (head p) (head' q))
    (tails : ∀ p q, p.Matches ρ q → Read.Tied (Pointer.Matches ρ) (tail p) (tail' q))
    (index : Nat) (matched : p.Matches ρ q) :
    Read.Tied S (listRef head tail p index) (listRef head' tail' q index) := by
  induction index generalizing p q with
  | zero => exact heads p q matched
  | succ index ih =>
    simp only [listRef]
    exact (tails p q matched).bind fun _ _ rests => ih rests

/-- Reading the items of a list is a walk along it, where walks that end are
not too long. -/
theorem listItems_walk {limit : Nat} (start : Pointer)
    (bound : ∀ n p, Stops (rest? head tail) n p → n ≤ limit) :
    Walk (rest? head tail) limit (listItems head tail start) (· = .error (.machine (.endless start))) where
  halt := by
    intro p k ended
    rcases rest?_eq_none_iff.mp ended with empty | ⟨e, failed⟩ | ⟨e, failed⟩
    · simp only [listItems, empty, if_true]
    · simp only [listItems, failed]
      rfl
    · simp only [listItems, failed]
      cases head p <;> rfl
  go := by
    intro p q taken
    obtain ⟨notEmpty, ⟨item, headRead⟩, tailRead⟩ := rest?_eq_some_iff.mp taken
    refine ⟨fun r => r >>= fun rest => .ok (item :: rest), fun k => ?_, ?_⟩
    · simp only [listItems, notEmpty, headRead, tailRead]
      rfl
    · rintro r rfl
      rfl
  zero := fun _ _ _ => rfl
  bound := bound

/-- A list, by how its pairs are read. -/
inductive Chained (head tail : Pointer → Except Error Pointer) : Pointer → List Pointer → Prop
  | nil : Chained head tail .null []
  | cons {list item rest : Pointer} {items : List Pointer} : list.isNull = false → head list = .ok item →
      tail list = .ok rest → Chained head tail rest items → Chained head tail list (item :: items)

theorem Chained.stops {items : List Pointer} (chained : Chained head tail p items) :
    Stops (rest? head tail) items.length p := by
  induction chained with
  | nil => exact .stop rfl
  | cons notEmpty headRead tailRead _ ih =>
    exact .step (rest?_eq_some_iff.mpr ⟨notEmpty, ⟨_, headRead⟩, tailRead⟩) ih

theorem Chained.listItems_length {items : List Pointer} (chained : Chained head tail p items) (start : Pointer) :
    listItems head tail start (items.length + 1) p = .ok items := by
  induction chained with
  | nil => rfl
  | @cons list item rest items notEmpty headRead tailRead _ ih =>
    rw [List.length_cons, listItems, notEmpty, headRead, tailRead]
    simp only [bind, Except.bind, ih]
    rfl

theorem Chained.listRef_eq {items : List Pointer} {item : Pointer} {index : Nat} (chained : Chained head tail p items)
    (found : items[index]? = some item) : listRef head tail p index = .ok item := by
  induction chained generalizing index with
  | nil => cases found
  | cons notEmpty headRead tailRead _ ih =>
    cases index with
    | zero => exact Option.some.inj found ▸ headRead
    | succ index =>
      simp only [listRef, tailRead]
      exact ih found

/-- The items of a list are read off it, if the steps that are given suffice
for its length. -/
theorem Chained.listItems_eq {items : List Pointer} {limit : Nat} {start : Pointer} {endless : Except Error _ → Prop}
    (chained : Chained head tail p items)
    (walk : Walk (rest? head tail) limit (listItems head tail start) endless) :
    listItems head tail start (limit + 1) p = .ok items := by
  have bound := walk.bound _ _ chained.stops
  have settled := walk.settled chained.stops (limit - items.length)
  rw [show items.length + 1 + (limit - items.length) = limit + 1 by omega] at settled
  exact settled.trans (chained.listItems_length start)

namespace Memory

variable {left right : Memory}

theorem address_lt {memory : Memory} {rest : Pointer}
    (read : memory.tail p = .ok rest) : p = .pair p.address ∧ p.address < memory.heap.free := by
  cases p with
  | scalar value => cases read
  | program address => cases read
  | pair a =>
    refine ⟨rfl, ?_⟩
    by_contra outside
    simp only [Memory.tail, PairHeap.tail, PairHeap.slot, Pointer.address] at read outside
    rw [if_neg outside] at read
    cases read

/-- A walk that goes from pair to pair by tails alone takes no more steps than
there are pairs in use. -/
theorem stops_le_free {memory : Memory} {next : Pointer → Option Pointer}
    (byTail : ∀ p q, next p = some q → memory.tail p = .ok q) {n : Nat}
    (stops : Stops next n p) : n ≤ memory.heap.free := by
  refine stops.le_limit (fun p q taken => (address_lt (byTail p q taken)).2) ?_
  intro p q r s taken taken' same
  have samePair : p = r := by
    rw [(address_lt (byTail p q taken)).1, (address_lt (byTail r s taken')).1, same]
  subst samePair
  rw [taken] at taken'
  exact Option.some.inj taken'

theorem items_walk (memory : Memory) (start : Pointer) :
    Walk (rest? memory.head memory.tail) memory.heap.free (listItems memory.head memory.tail start)
      (· = .error (.machine (.endless start))) :=
  listItems_walk start fun _ _ stops => stops_le_free (fun _ _ taken => (rest?_eq_some_iff.mp taken).2.2) stops

/-- A walk along the program comes to no pair twice either. -/
theorem programItems_walk (memory : Memory) (start : Pointer) :
    Walk (rest? memory.programHead memory.programTail) memory.program.size
      (listItems memory.programHead memory.programTail start) (· = .error (.machine (.endless start))) := by
  have located (p q : Pointer) (taken : rest? memory.programHead memory.programTail p = some q) :
      ∃ a < memory.program.size, p = .program a := by
    obtain ⟨_, _, read⟩ := rest?_eq_some_iff.mp taken
    cases p with
    | scalar value => cases read
    | pair a => cases read
    | program a =>
      refine ⟨a, ?_, rfl⟩
      by_contra outside
      simp only [programTail, ProgramHeap.tail, ProgramHeap.cell,
        Array.getElem?_eq_none (Nat.le_of_not_lt outside)] at read
      cases read
  let key (p : Pointer) : Nat := p.program?.getD 0
  have below (p q : Pointer) (taken : rest? memory.programHead memory.programTail p = some q) :
      key p < memory.program.size := by
    obtain ⟨a, inside, rfl⟩ := located p q taken
    exact inside
  refine listItems_walk start fun n p stops => stops.le_limit below ?_
  intro p q p' q' taken taken' same
  obtain ⟨a, _, rfl⟩ := located p q taken
  obtain ⟨a', _, rfl⟩ := located p' q' taken'
  obtain rfl : a = a' := same
  rw [taken] at taken'
  exact Option.some.inj taken'

theorem lastPair_walk (memory : Memory) (start : Pointer) :
    Walk (more? memory.tail) memory.heap.free (memory.lastPair start)
      (· = .error (.machine (.endless start))) where
  halt := by
    intro p k ended
    simp only [lastPair]
    cases read : memory.tail p with
    | error e => rfl
    | ok rest =>
      have empty : rest.isNull = true := by
        by_contra notEmpty
        have taken : more? memory.tail p = some rest :=
          more?_eq_some_iff.mpr ⟨read, Bool.eq_false_iff.mpr notEmpty⟩
        rw [ended] at taken
        cases taken
      simp only [bind, Except.bind, empty, if_true]
  go := by
    intro p q taken
    obtain ⟨read, notEmpty⟩ := more?_eq_some_iff.mp taken
    refine ⟨id, fun k => ?_, fun _ => id⟩
    simp only [lastPair, read, bind, Except.bind, notEmpty, id]
    rfl
  zero := fun _ _ _ => rfl
  bound := fun n p stops => stops_le_free (fun _ _ taken => (more?_eq_some_iff.mp taken).1) stops

namespace Twin

/-- The items of matching lists match, however much of each heap is in use. -/
theorem items (twin : Twin ρ left right) (matched : p.Matches ρ q) :
    Read.Tied (List.Forall₂ (Pointer.Matches ρ)) (left.items p) (right.items q) := by
  refine (items_walk left p).tied (items_walk right q) ?_
    (fun k a b => listItems_tied (fun _ _ => twin.head) (fun _ _ => twin.tail) matched k) ?_ matched
  · intro a b related
    have heads := twin.head related
    have tails := twin.tail related
    simp only [rest?, related.isNull_eq]
    split
    · exact .inl ⟨rfl, rfl⟩
    · generalize left.head a = x at heads
      generalize right.head b = y at heads
      generalize left.tail a = u at tails
      generalize right.tail b = v at tails
      cases heads <;> cases tails
      · exact .inr ⟨_, _, rfl, rfl, by assumption⟩
      · exact .inl ⟨rfl, rfl⟩
      · exact .inl ⟨rfl, rfl⟩
      · exact .inl ⟨rfl, rfl⟩
  · rintro r r' rfl rfl
    refine .error (.addresses ?_) id
    simp only [Error.rename, MachineError.rename, matched.rename_zero]

theorem lastPair (twin : Twin ρ left right) (matched : p.Matches ρ q) :
    Read.Tied (Pointer.Matches ρ) (left.lastPair p (left.heap.free + 1) p)
      (right.lastPair q (right.heap.free + 1) q) := by
  refine (lastPair_walk left p).tied (lastPair_walk right q) ?_ ?_ ?_ matched
  · intro a b related
    have tails := twin.tail related
    unfold more?
    generalize left.tail a = u at tails
    generalize right.tail b = v at tails
    cases tails with
    | error alike safe => exact .inl ⟨rfl, rfl⟩
    | ok rests =>
      simp only [rests.isNull_eq]
      split
      · exact .inl ⟨rfl, rfl⟩
      · exact .inr ⟨_, _, rfl, rfl, rests⟩
  · intro k
    induction k with
    | zero =>
      intro a b related
      refine .error (.addresses ?_) id
      simp only [Error.rename, MachineError.rename, matched.rename_zero]
    | succ k ih =>
      intro a b related
      simp only [Memory.lastPair]
      refine (twin.tail related).bind fun rest rest' rests => ?_
      rw [rests.isNull_eq]
      split
      · exact .ok related
      · exact ih _ _ rests
  · rintro r r' rfl rfl
    refine .error (.addresses ?_) id
    simp only [Error.rename, MachineError.rename, matched.rename_zero]

theorem item (twin : Twin ρ left right) (matched : p.Matches ρ q) (index : Nat) :
    Read.Tied (Pointer.Matches ρ) (left.item p index) (right.item q index) :=
  listRef_tied (fun _ _ => twin.head) (fun _ _ => twin.tail) index matched

theorem programItems (twin : Twin ρ left right) (matched : p.Matches ρ q) :
    Read.Tied (List.Forall₂ Pointer.Static) (left.programItems p) (right.programItems q) := by
  unfold Memory.programItems
  rw [twin.matched.program]
  exact listItems_tied (fun _ _ => twin.programHead)
    (fun _ _ related => (twin.programTail related).mono fun _ _ => Pointer.Static.matches) matched _ matched

theorem programItem (twin : Twin ρ left right) (matched : p.Matches ρ q) (index : Nat) :
    Read.Tied Pointer.Static (left.programItem p index) (right.programItem q index) :=
  listRef_tied (fun _ _ => twin.programHead)
    (fun _ _ related => (twin.programTail related).mono fun _ _ => Pointer.Static.matches) index matched

end Twin

end Memory

end ExplicitControl
