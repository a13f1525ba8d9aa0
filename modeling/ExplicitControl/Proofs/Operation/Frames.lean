import ExplicitControl.Environment
import ExplicitControl.Proofs.Memory.Walk

namespace ExplicitControl

namespace Memory

/-- What a computation leaves in twin memories that have come from an origin,
given what its results have to do with one another. -/
def Keeps {α β : Type} (o : Origin) (rel : (Nat → Nat → Prop) → α → β → Prop) (a : α) (left : Memory) (b : β)
    (right : Memory) : Prop :=
  ∃ σ, Kin o σ left right ∧ rel σ a b

/-- As `Keeps`, where nothing has moved and some room is left. -/
def Grows {α β : Type} (o : Origin) (ρ : Nat → Nat → Prop) (count : Nat)
    (rel : (Nat → Nat → Prop) → α → β → Prop) (a : α) (left : Memory) (b : β) (right : Memory) : Prop :=
  ∃ σ, (∀ c d, ρ c d → σ c d) ∧ Kin o σ left right ∧ rel σ a b ∧ Room count left right

/-- Pointers that match. -/
abbrev Pointers (σ : Nat → Nat → Prop) (p q : Pointer) : Prop :=
  p.Matches σ q

/-- Rows of pointers that match. -/
abbrev Rows (σ : Nat → Nat → Prop) (ps qs : List Pointer) : Prop :=
  List.Forall₂ (Pointer.Matches σ) ps qs

variable {o : Origin} {ρ σ : Nat → Nat → Prop} {left right : Memory} {p q p' q' : Pointer}
  {ps qs : List Pointer} {count : Nat}

theorem Room.mono {more : Nat} (room : Room more left right) (le : count ≤ more) :
    Room count left right :=
  ⟨le.trans room.1, le.trans room.2⟩

theorem Grows.keeps {α β : Type} {rel : (Nat → Nat → Prop) → α → β → Prop} {a : α} {b : β}
    (grows : Grows o ρ count rel a left b right) : Keeps o rel a left b right := by
  obtain ⟨σ, _, twin, related, _⟩ := grows
  exact ⟨σ, twin, related⟩

theorem Grows.since {α β : Type} {rel : (Nat → Nat → Prop) → α → β → Prop} {a : α} {b : β}
    (grows : Grows o σ count rel a left b right) (more : ∀ a b, ρ a b → σ a b) :
    Grows o ρ count rel a left b right := by
  obtain ⟨τ, further, rest⟩ := grows
  exact ⟨τ, fun a b related => further a b (more a b related), rest⟩

theorem rows_mono (rows : Rows ρ ps qs) (more : ∀ a b, ρ a b → σ a b) : Rows σ ps qs :=
  rows.imp fun _ _ one => one.mono more

theorem rows_getD (rows : Rows ρ ps qs) (index : Nat) (inside : index < ps.length) (p q : Pointer) :
    (ps.getD index p).Matches ρ (qs.getD index q) := by
  induction rows generalizing index with
  | nil => exact absurd inside (Nat.not_lt_zero _)
  | cons first _ ih =>
    cases index with
    | zero => exact first
    | succ index => exact ih index (Nat.lt_of_succ_lt_succ inside)

theorem static_iff : List.Forall₂ Pointer.Static ps qs ↔ ps = qs ∧ ∀ p ∈ ps, p.Below 0 := by
  constructor
  · intro row
    induction row with
    | nil => exact ⟨rfl, by simp⟩
    | cons first _ ih =>
      obtain ⟨rfl, below⟩ := ih
      obtain ⟨rfl, firstBelow⟩ := first
      exact ⟨rfl, List.forall_mem_cons.mpr ⟨firstBelow, below⟩⟩
  · rintro ⟨rfl, below⟩
    exact List.forall₂_same.mpr fun p member => ⟨rfl, below p member⟩

theorem rows_of_static (row : List.Forall₂ Pointer.Static ps qs) : Rows ρ ps qs :=
  row.imp fun _ _ => Pointer.Static.matches

theorem foldlM_tied {α β γ δ : Type} {S : α → β → Prop} {T : γ → δ → Prop}
    {f : α → γ → Except Error α} {g : β → δ → Except Error β}
    (step : ∀ a b c d, S a b → T c d → Read.Tied S (f a c) (g b d)) {xs : List γ} {ys : List δ}
    (row : List.Forall₂ T xs ys) {a : α} {b : β} (start : S a b) :
    Read.Tied S (xs.foldlM f a) (ys.foldlM g b) := by
  induction row generalizing a b with
  | nil => exact .ok start
  | cons first _ ih =>
    simp only [List.foldlM_cons]
    exact (step _ _ _ _ start first).bind fun _ _ next => ih next

namespace Kin

/-- Building lists of matching items in room set aside gives matching lists. -/
theorem buildList (rows : Rows ρ ps qs) {left right : Memory} (kin : Kin o ρ left right)
    (room : Room (count + ps.length) left right) :
    Action.Tied (Grows o ρ count Pointers) (Action.buildList ps left) (Action.buildList qs right) := by
  induction rows generalizing count with
  | nil => exact .ok ⟨ρ, fun _ _ => id, kin, .scalar .null, room⟩
  | @cons p q ps qs first _ ih =>
    simp only [Action.buildList]
    have enough : Room (count + 1 + ps.length) left right := room.mono (by simp only [List.length_cons]; omega)
    refine (ih enough).bind fun tail l tail' r ⟨σ, more, kin, tails, room⟩ => ?_
    exact (kin.allocReserved room (first.mono more) tails).mono fun _ _ _ _ grows =>
      Grows.since grows more

end Kin

end Memory

/-- Bindings of matching names, values and flags. -/
structure Binding.Matches (ρ : Nat → Nat → Prop) (left right : Binding) : Prop where
  name : left.name.Matches ρ right.name
  value : left.value.Matches ρ right.value
  flag : left.flag.Matches ρ right.flag

theorem Binding.Matches.mono {ρ σ : Nat → Nat → Prop} {left right : Binding}
    (matched : left.Matches ρ right) (more : ∀ a b, ρ a b → σ a b) : left.Matches σ right :=
  ⟨matched.name.mono more, matched.value.mono more, matched.flag.mono more⟩

namespace Environment

open Memory

variable {o : Origin} {ρ : Nat → Nat → Prop} {left right : Memory} {p q p' q' : Pointer} {count : Nat}
  {bindings bindings' : List Binding}

theorem allocBindings_tied (rows : List.Forall₂ (Binding.Matches ρ) bindings bindings')
    (kin : Kin o ρ left right) (room : Room (count + bindings.length) left right) :
    Action.Tied (Grows o ρ count fun σ ps qs => Rows σ ps qs ∧ ps.length = bindings.length)
      (allocBindings bindings left) (allocBindings bindings' right) := by
  induction bindings generalizing ρ count left right bindings' with
  | nil =>
    cases rows
    exact .ok ⟨ρ, fun _ _ => id, kin, ⟨.nil, rfl⟩, room⟩
  | cons binding rest ih =>
    cases rows with
    | @cons _ binding' _ rest' first rows =>
      simp only [allocBindings]
      have enough : Room (count + rest.length + 1) left right :=
        room.mono (by simp only [List.length_cons]; omega)
      refine (kin.allocReserved enough first.value first.flag).bind ?_
      rintro cell l cell' r ⟨σ, more, kin, cells, room⟩
      refine (ih (rows.imp fun _ _ one => one.mono more) kin room).bind ?_
      rintro others l others' r ⟨τ, further, kin, ⟨rest, length⟩, room⟩
      exact .ok ⟨τ, fun a b related => further a b (more a b related), kin,
        ⟨.cons (cells.mono further) rest, by simp [length]⟩, room⟩

/-- A frame put before matching environments, with matching bindings, gives
matching environments. Names are found in the program, which is the same on
both sides. -/
theorem push_tied (rows : List.Forall₂ (Binding.Matches ρ) bindings bindings')
    (kin : Kin o ρ left right) (enclosing : p.Matches ρ q)
    (room : Room (count + frameSize bindings.length) left right) :
    Action.Tied (Grows o ρ count Pointers) (push bindings p left) (push bindings' q right) := by
  simp only [push]
  have enough : Room (count + 2 * bindings.length + 2 + bindings.length) left right :=
    room.mono (by simp only [frameSize]; omega)
  have names : Rows ρ (bindings.map Binding.name) (bindings'.map Binding.name) := by
    simp only [Rows, List.forall₂_map_left_iff, List.forall₂_map_right_iff]
    exact rows.imp fun _ _ one => one.name
  refine (allocBindings_tied rows kin enough).bind ?_
  rintro cells l cells' r ⟨σ₁, more₁, kin, ⟨cellsMatch, length⟩, room⟩
  have enough : Room (count + bindings.length + 2 + (bindings.map Binding.name).length) l r :=
    room.mono (by simp only [List.length_map]; omega)
  refine (kin.buildList (rows_mono names more₁) enough).bind ?_
  rintro nameList l nameList' r ⟨σ₂, more₂, kin, nameLists, room⟩
  have enough : Room (count + 2 + cells.length) l r := room.mono (by omega)
  refine (kin.buildList (rows_mono cellsMatch more₂) enough).bind ?_
  rintro cellList l cellList' r ⟨σ₃, more₃, kin, cellLists, room⟩
  refine (kin.allocReserved room (nameLists.mono more₃) cellLists).bind ?_
  rintro frame l frame' r ⟨σ₄, more₄, kin, frames, room⟩
  have kept : ∀ a b, ρ a b → σ₄ a b := fun a b related =>
    more₄ a b (more₃ a b (more₂ a b (more₁ a b related)))
  exact (kin.allocReserved room frames (enclosing.mono kept)).mono fun _ _ _ _ grows =>
    Grows.since grows kept

theorem allocPrimitives_tied (names : List String) (kin : Kin o ρ left right)
    (room : Room (count + names.length) left right) :
    Action.Tied (Grows o ρ count fun σ bs bs' =>
        List.Forall₂ (Binding.Matches σ) bs bs' ∧ bs.length = names.length)
      (allocPrimitives names left) (allocPrimitives names right) := by
  induction names generalizing ρ count left right with
  | nil => exact .ok ⟨ρ, fun _ _ => id, kin, ⟨.nil, rfl⟩, room⟩
  | cons name rest ih =>
    simp only [allocPrimitives]
    have enough : Room (count + rest.length + 1) left right :=
      room.mono (by simp only [List.length_cons]; omega)
    refine (kin.allocReserved enough (.scalar _) (.scalar _)).bind ?_
    rintro function l function' r ⟨σ, more, kin, functions, room⟩
    refine (ih kin room).bind ?_
    rintro others l others' r ⟨τ, further, kin, ⟨rest, length⟩, room⟩
    exact .ok ⟨τ, fun a b related => further a b (more a b related), kin,
      ⟨.cons ⟨.scalar _, functions.mono further, .scalar _⟩ rest, by simp [length]⟩, room⟩

theorem constants_matches : List.Forall₂ (Binding.Matches ρ)
    (constants.map fun (name, value) => Binding.constant (.string name) value)
    (constants.map fun (name, value) => Binding.constant (.string name) value) := by
  refine List.forall₂_same.mpr fun binding member => ?_
  simp only [constants, List.map_cons, List.map_nil, List.mem_cons, List.not_mem_nil, or_false] at member
  rcases member with rfl | rfl | rfl <;> exact ⟨.scalar _, .scalar _, .scalar _⟩

theorem global_tied (twin : Twin ρ left right) :
    Action.Tied (Keeps (origin ρ left right) Pointers) (global left) (global right) := by
  simp only [global]
  refine (twin.reserve .nil _).bind ?_
  rintro _ l _ r ⟨σ, kin, _, _, room⟩
  have enough : Room (frameSize (primitiveNames.length + constants.length) + primitiveNames.length) l r :=
    room.mono (by omega)
  refine (allocPrimitives_tied _ kin enough).bind ?_
  rintro functions l functions' r ⟨τ, more, kin, ⟨rows, length⟩, room⟩
  have fits : Room (0 + frameSize (functions ++ constants.map fun (name, value) =>
      Binding.constant (.string name) value).length) l r := by
    simpa only [List.length_append, List.length_map, length, Nat.zero_add] using room
  exact (push_tied (List.rel_append rows constants_matches) kin (.scalar .null) fits).mono
    fun _ _ _ _ grows => Grows.keeps grows

theorem declarationSymbol_tied (twin : Twin ρ left right) (matched : p.Matches ρ q) :
    Read.Tied Pointer.Static (declarationSymbol left p) (declarationSymbol right q) :=
  (twin.programItem matched 1).bind fun _ _ names => twin.programItem names.matches 1

theorem addSymbol_tied {found found' : List Pointer} (rows : List.Forall₂ Pointer.Static found found')
    (symbols : p.Static q) :
    Read.Tied (List.Forall₂ Pointer.Static) (addSymbol found p) (addSymbol found' q) := by
  obtain ⟨rfl, below⟩ := static_iff.mp rows
  obtain ⟨rfl, pairless⟩ := symbols
  unfold addSymbol
  split
  · exact .error (.refl _) id
  · exact .ok (List.rel_append rows (.cons ⟨rfl, pairless⟩ .nil))

theorem classify_eq (twin : Twin ρ left right) (matched : p.Matches ρ q) :
    ExpressionKind.classify left.program p = ExpressionKind.classify right.program q := by
  rw [twin.matched.program]
  cases matched <;> rfl

theorem statements_tied (twin : Twin ρ left right) (matched : p.Matches ρ q) :
    Read.Tied (Rows ρ) (statements left p) (statements right q) := by
  unfold statements
  rw [classify_eq twin matched]
  split
  · exact (twin.programItem matched 1).bind fun _ _ lists =>
      (twin.programItems lists.matches).mono fun _ _ => rows_of_static
  · exact .ok (.cons matched .nil)

theorem declares_eq (twin : Twin ρ left right) (matched : p.Matches ρ q) :
    declares left p = declares right q := by
  unfold declares
  rw [classify_eq twin matched]

theorem declaredNames_tied (twin : Twin ρ left right) (matched : p.Matches ρ q) :
    Read.Tied (List.Forall₂ Pointer.Static) (declaredNames left p) (declaredNames right q) := by
  refine (statements_tied twin matched).bind fun _ _ rows => foldlM_tied ?_ rows .nil
  intro found found' statement statement' foundRows statements
  rw [declares_eq twin statements]
  split
  · exact (declarationSymbol_tied twin statements).bind fun _ _ symbols =>
      addSymbol_tied foundRows symbols
  · exact .ok foundRows

theorem parameterNames_tied (twin : Twin ρ left right) (matched : p.Matches ρ q) :
    Read.Tied (List.Forall₂ Pointer.Static) (parameterNames left p) (parameterNames right q) := by
  refine (twin.programItems matched).bind fun _ _ rows => foldlM_tied ?_ rows .nil
  intro found found' node node' foundRows nodes
  exact (twin.programItem nodes.matches 1).bind fun _ _ symbols => addSymbol_tied foundRows symbols

theorem declared_matches {names : List Pointer} (pairless : ∀ p ∈ names, p.Below 0) :
    List.Forall₂ (Binding.Matches ρ) (names.map Binding.declared) (names.map Binding.declared) := by
  simp only [List.forall₂_map_left_iff, List.forall₂_map_right_iff]
  exact List.forall₂_same.mpr fun p member => ⟨.refl_of_below (pairless p member), .scalar _, .scalar _⟩

theorem extendBlock_tied (twin : Twin ρ left right) (bodies : p.Matches ρ p')
    (environments : q.Matches ρ q') :
    Action.Tied (Keeps (origin ρ left right) fun σ one other => one.1.Matches σ other.1) (extendBlock p q left)
      (extendBlock p' q' right) := by
  simp only [extendBlock]
  refine (Action.Tied.inspect (declaredNames_tied twin bodies) twin.tallies).bind ?_
  rintro names _ names' _ ⟨rfl, rfl, rows⟩
  obtain ⟨rfl, pairless⟩ := static_iff.mp rows
  refine (twin.reserve (.cons bodies (.cons environments .nil)) _).bind ?_
  rintro moved l moved' r ⟨σ, kin, movedRows, length, room⟩
  have enclosing := rows_getD movedRows 1 (by simp [length]) q q'
  have fits : Room (0 + frameSize (names.map Binding.declared).length) l r := by
    simpa only [List.length_map, Nat.zero_add] using room
  refine (push_tied (declared_matches pairless) kin enclosing fits).bind ?_
  rintro extended l extended' r ⟨τ, _, kin, matched, _⟩
  exact .ok ⟨τ, kin, matched⟩

/-- Matching functions have the same names, and matching arguments are as
many, so the names of a call are found, or a mistake is, on both sides alike. -/
theorem callNames_tied (twin : Twin ρ left right) (functions : p.Matches ρ p')
    (arguments : q.Matches ρ q') :
    Read.Tied (fun one other => one = other ∧ (∀ p ∈ one.1, p.Below 0) ∧ ∀ p ∈ one.2, p.Below 0)
      (callNames left p q) (callNames right p' q') := by
  refine (twin.item functions 1).bind fun _ _ parameters => ?_
  refine (twin.item functions 2).bind fun _ _ bodies => ?_
  refine (parameterNames_tied twin parameters).bind fun names names' nameRows => ?_
  obtain ⟨rfl, pairless⟩ := static_iff.mp nameRows
  refine (twin.items arguments).bind fun values values' valueRows => ?_
  rw [valueRows.length_eq]
  have counted : Read.Tied (fun _ _ => True) (checkCount names.length values'.length)
      (checkCount names.length values'.length) := by
    unfold checkCount
    split
    · exact .error (.refl _) id
    · split
      · exact .error (.refl _) id
      · exact .ok trivial
  refine counted.bind fun _ _ _ => ?_
  refine (declaredNames_tied twin bodies).bind fun locals locals' localRows => ?_
  obtain ⟨rfl, pairless'⟩ := static_iff.mp localRows
  exact .ok ⟨rfl, pairless, fun p member => pairless' p (List.mem_filter.mp member).1⟩

theorem mutable_matches {names values values' : List Pointer} (pairless : ∀ p ∈ names, p.Below 0)
    (rows : Rows ρ values values') :
    List.Forall₂ (Binding.Matches ρ) (List.zipWith Binding.mutable names values)
      (List.zipWith Binding.mutable names values') := by
  induction rows generalizing names with
  | nil => simp
  | cons first _ ih =>
    cases names with
    | nil => exact .nil
    | cons name names =>
      obtain ⟨below, pairless⟩ := List.forall_mem_cons.mp pairless
      exact .cons ⟨.refl_of_below below, first, .scalar _⟩ (ih pairless)

theorem checkCount_eq {expected got : Nat} (checked : checkCount expected got = .ok ()) : expected = got := by
  unfold checkCount at checked
  split at checked
  · cases checked
  · split at checked
    · cases checked
    · omega

theorem map_name_zipWith {names values : List Pointer} (same : names.length = values.length) :
    (List.zipWith Binding.mutable names values).map Binding.name = names := by
  induction names generalizing values with
  | nil => rfl
  | cons name names ih =>
    cases values with
    | nil => cases same
    | cons value values =>
      rw [List.zipWith_cons_cons, List.map_cons, ih (Nat.succ.inj same)]
      rfl

/-- Matching calls in twin memories give matching environments, or fail alike.
The room for the frame is set aside at once, so nothing moves while it is
built. -/
theorem extendCall_tied (twin : Twin ρ left right) (functions : p.Matches ρ p')
    (arguments : q.Matches ρ q') :
    Action.Tied (Keeps (origin ρ left right) fun σ one other => one.1.Matches σ other.1) (extendCall p q left)
      (extendCall p' q' right) := by
  simp only [extendCall]
  refine (Action.Tied.inspect (callNames_tied twin functions arguments) twin.tallies).bind ?_
  rintro ⟨names, locals⟩ _ _ _ ⟨rfl, rfl, rfl, pairless, pairless'⟩
  refine (twin.reserve (.cons functions (.cons arguments .nil)) _).bind ?_
  rintro moved l moved' r ⟨σ, kin, movedRows, length, room⟩
  have argumentsMoved := rows_getD movedRows 1 (by simp [length]) q q'
  have functionsMoved := rows_getD movedRows 0 (by simp [length]) p p'
  refine (Action.Tied.inspect (kin.items argumentsMoved) kin.tallies).bind ?_
  rintro values l values' r ⟨rfl, rfl, valueRows⟩
  refine (Action.Tied.inspect (kin.item functionsMoved 3) kin.tallies).bind ?_
  rintro closure l closure' r ⟨rfl, rfl, closures⟩
  have rows := List.rel_append (mutable_matches pairless valueRows) (declared_matches (ρ := σ) pairless')
  have fits : Room (0 + frameSize (List.zipWith Binding.mutable names values
      ++ locals.map Binding.declared).length) l r := by
    refine room.mono ?_
    simp only [List.length_append, List.length_zipWith, List.length_map, frameSize]
    omega
  refine (push_tied rows kin closures fits).bind ?_
  rintro extended l extended' r ⟨τ, _, kin, matched, _⟩
  exact .ok ⟨τ, kin, matched⟩

end Environment

end ExplicitControl
