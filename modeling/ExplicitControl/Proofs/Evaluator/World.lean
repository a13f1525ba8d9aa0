import ExplicitControl.Proofs.Evaluator.Picture

namespace ExplicitControl.Evaluator

open Interpreter

/-- A store and pairs that belong together. Pairs that stand for cells are no
others, and what has an identity is already there. -/
structure World (layout : Layout) where
  picture : Picture
  store : Store
  heap : Cells
  fits : picture.Fits layout store fun a p q => heap[a]? = some (p, q)
  separate : ∀ l a p q, picture.cell l a → ¬ picture.holds a p q
  inside : ∀ i a, picture.thing i a → a < heap.length
  counted : ∀ n a, picture.thing (.made n) a → n < store.made

namespace World

variable {layout : Layout} {w w' w'' : World layout}

theorem cell_lt {l a : Nat} (cell : w.picture.cell l a) :
    a < w.heap.length ∧ l < w.store.cells.length := by
  obtain ⟨_, _, found, _, held⟩ := w.fits.cells l a cell
  exact ⟨(List.getElem?_eq_some_iff.mp held).1, (List.getElem?_eq_some_iff.mp found).1⟩

theorem holds_lt {a : Nat} {p q : Pointer} (holds : w.picture.holds a p q) : a < w.heap.length :=
  (List.getElem?_eq_some_iff.mp (w.fits.holds a p q holds)).1

/-- A later world: more is pictured, and of what was there before only the
pairs that stand for cells may have changed. -/
structure Extends (w w' : World layout) : Prop where
  picture : w.picture.Le w'.picture
  length : w.heap.length ≤ w'.heap.length
  cell : ∀ l a, a < w.heap.length → w'.picture.cell l a → w.picture.cell l a
  holds : ∀ a p q, a < w.heap.length → w'.picture.holds a p q → w.picture.holds a p q
  kept : ∀ a, a < w.heap.length → (∀ l, ¬ w.picture.cell l a) → w'.heap[a]? = w.heap[a]?

theorem Extends.refl (w : World layout) : w.Extends w :=
  ⟨.refl _, Nat.le_refl _, fun _ _ _ => id, fun _ _ _ _ => id, fun _ _ _ => rfl⟩

theorem Extends.trans (one : w.Extends w') (other : w'.Extends w'') : w.Extends w'' where
  picture := one.picture.trans other.picture
  length := one.length.trans other.length
  cell := fun l a below cell => one.cell l a below (other.cell l a (below.trans_le one.length) cell)
  holds := fun a p q below holds => one.holds a p q below (other.holds a p q (below.trans_le one.length) holds)
  kept := by
    intro a below loose
    have loose' : ∀ l, ¬ w'.picture.cell l a := fun l cell => loose l (one.cell l a below cell)
    rw [other.kept a (below.trans_le one.length) loose', one.kept a below loose]

/-- A pair that is in no picture. -/
def Loose (w : World layout) (a : Nat) : Prop :=
  a < w.heap.length ∧ (∀ l, ¬ w.picture.cell l a) ∧ ∀ p q, ¬ w.picture.holds a p q

theorem Loose.later {a : Nat} (loose : w.Loose a) (grows : w.Extends w') :
    w'.Loose a ∧ w'.heap[a]? = w.heap[a]? :=
  ⟨⟨loose.1.trans_le grows.length, fun l cell => loose.2.1 l (grows.cell l a loose.1 cell),
    fun p q holds => loose.2.2 p q (grows.holds a p q loose.1 holds)⟩, grows.kept a loose.1 loose.2.1⟩

/-- One more pair, which no picture is made of. -/
def add (w : World layout) (p q : Pointer) : World layout where
  picture := w.picture
  store := w.store
  heap := w.heap ++ [(p, q)]
  fits :=
    { w.fits with
      holds := by
        intro a p q holds
        rw [List.getElem?_append_left (holds_lt holds)]
        exact w.fits.holds a p q holds
      cells := by
        intro l a cell
        obtain ⟨content, p, found, depicts, held⟩ := w.fits.cells l a cell
        refine ⟨content, p, found, depicts, ?_⟩
        rw [List.getElem?_append_left (cell_lt cell).1]
        exact held }
  separate := w.separate
  inside := fun i a thing => (w.inside i a thing).trans_le (by simp)
  counted := w.counted

theorem add_extends (w : World layout) (p q : Pointer) : w.Extends (w.add p q) where
  picture := .refl _
  length := by simp [add]
  cell := fun _ _ _ => id
  holds := fun _ _ _ _ => id
  kept := fun a below _ => List.getElem?_append_left below

theorem add_loose (w : World layout) (p q : Pointer) : (w.add p q).Loose w.heap.length := by
  refine ⟨by simp [add], fun l cell => ?_, fun p q holds => ?_⟩
  · exact absurd (cell_lt (w := w) cell).1 (Nat.lt_irrefl _)
  · exact absurd (holds_lt (w := w) holds) (Nat.lt_irrefl _)

theorem add_heap (w : World layout) (p q : Pointer) : (w.add p q).heap[w.heap.length]? = some (p, q) := by
  simp [add]

/-- Another pair at the address of a loose one. -/
def replace (w : World layout) {a : Nat} (loose : w.Loose a) (p q : Pointer) : World layout where
  picture := w.picture
  store := w.store
  heap := w.heap.set a (p, q)
  fits :=
    { w.fits with
      holds := by
        intro b p q holds
        have different : a ≠ b := fun same => loose.2.2 p q (same ▸ holds)
        rw [List.getElem?_set_ne different]
        exact w.fits.holds b p q holds
      cells := by
        intro l b cell
        have different : a ≠ b := fun same => loose.2.1 l (same ▸ cell)
        obtain ⟨content, p, found, depicts, held⟩ := w.fits.cells l b cell
        refine ⟨content, p, found, depicts, ?_⟩
        rw [List.getElem?_set_ne different]
        exact held }
  separate := w.separate
  inside := fun i b thing => (w.inside i b thing).trans_le (by simp)
  counted := w.counted

theorem Loose.replaced {a b : Nat} {p q : Pointer} (loose : w.Loose b) (looseA : w.Loose a) :
    (w.replace looseA p q).Loose b :=
  ⟨by simpa [replace] using loose.1, loose.2⟩

/-- Pairs after those of a world may change without being seen from it. -/
theorem replace_extends {a : Nat} (before : w.Extends w') (loose : w'.Loose a)
    (new : w.heap.length ≤ a) (p q : Pointer) : w.Extends (w'.replace loose p q) where
  picture := before.picture
  length := before.length.trans (by simp [replace])
  cell := before.cell
  holds := before.holds
  kept := by
    intro b below unused
    have different : a ≠ b := by omega
    simp only [replace]
    rw [List.getElem?_set_ne different, before.kept b below unused]

/-- Another value and flag for the cell at a location. -/
def assign (w : World layout) {l a : Nat} (isCell : w.picture.cell l a) (content : Cell) {p : Pointer}
    (depicts : w.picture.Depicts layout content.value p) : World layout where
  picture := w.picture
  store := { w.store with cells := w.store.cells.set l content }
  heap := w.heap.set a (p, content.flag.pointer)
  fits :=
    { w.fits with
      holds := by
        intro b p q holds
        have different : a ≠ b := fun same => w.separate l a p q isCell (same.symm ▸ holds)
        rw [List.getElem?_set_ne different]
        exact w.fits.holds b p q holds
      cells := by
        intro k b cell
        by_cases same : a = b
        · subst same
          obtain rfl : l = k := w.fits.cell.1 isCell cell
          refine ⟨content, p, List.getElem?_set_self (cell_lt isCell).2, depicts, ?_⟩
          exact List.getElem?_set_self (cell_lt isCell).1
        · have different : l ≠ k := fun equal => same (w.fits.cell.2 isCell (equal ▸ cell))
          obtain ⟨content', p', found, depicts', held⟩ := w.fits.cells k b cell
          refine ⟨content', p', ?_, depicts', ?_⟩
          · rw [List.getElem?_set_ne different]
            exact found
          · rw [List.getElem?_set_ne same]
            exact held }
  separate := w.separate
  inside := fun i b thing => (w.inside i b thing).trans_le (by simp)
  counted := w.counted

/-- A cell may get another value and flag, which is the one way in which a
pair that is pictured is written. -/
theorem assign_extends {l a : Nat} (isCell : w.picture.cell l a) (content : Cell) {p : Pointer}
    (depicts : w.picture.Depicts layout content.value p) : w.Extends (w.assign isCell content depicts) where
  picture := .refl _
  length := by simp [assign]
  cell := fun _ _ _ => id
  holds := fun _ _ _ _ => id
  kept := by
    intro b _ unused
    have different : a ≠ b := fun same => unused l (same ▸ isCell)
    exact List.getElem?_set_ne different

/-- A loose pair stays as it is from now on. -/
def fix (w : World layout) {a : Nat} (loose : w.Loose a) {p q : Pointer} (held : w.heap[a]? = some (p, q)) :
    World layout where
  picture := { w.picture with holds := fun b p' q' => w.picture.holds b p' q' ∨ (b, p', q') = (a, p, q) }
  store := w.store
  heap := w.heap
  fits :=
    { w.fits with
      holds := by
        rintro b p' q' (old | new)
        · exact w.fits.holds b p' q' old
        · cases new
          exact held
      cells := by
        intro l b cell
        obtain ⟨content, p', found, depicts, held'⟩ := w.fits.cells l b cell
        exact ⟨content, p', found, depicts.mono ⟨id, id, .inl⟩, held'⟩ }
  separate := by
    rintro l b p' q' cell (old | new)
    · exact w.separate l b p' q' cell old
    · cases new
      exact loose.2.1 l cell
  inside := w.inside
  counted := w.counted

/-- A loose pair with a value and a flag becomes the cell of a new
location. -/
def bind (w : World layout) {a : Nat} (loose : w.Loose a) (content : Cell) {p : Pointer}
    (held : w.heap[a]? = some (p, content.flag.pointer))
    (depicts : w.picture.Depicts layout content.value p) : World layout where
  picture := { w.picture with cell := fun l b => w.picture.cell l b ∨ (l, b) = (w.store.cells.length, a) }
  store := { w.store with cells := w.store.cells ++ [content] }
  heap := w.heap
  fits :=
    { w.fits with
      cells := by
        rintro l b (old | new)
        · obtain ⟨content', p', found, depicts', held'⟩ := w.fits.cells l b old
          refine ⟨content', p', ?_, depicts'.mono ⟨.inl, id, id⟩, held'⟩
          rw [List.getElem?_append_left (cell_lt old).2]
          exact found
        · cases new
          exact ⟨content, p, by simp, depicts.mono ⟨.inl, id, id⟩, held⟩
      cell := by
        constructor
        · rintro l k b (old | new) (old' | new')
          · exact w.fits.cell.1 old old'
          · cases new'
            exact absurd old (loose.2.1 l)
          · cases new
            exact absurd old' (loose.2.1 k)
          · cases new
            cases new'
            rfl
        · rintro l b b' (old | new) (old' | new')
          · exact w.fits.cell.2 old old'
          · cases new'
            exact absurd (cell_lt old).2 (Nat.lt_irrefl _)
          · cases new
            exact absurd (cell_lt old').2 (Nat.lt_irrefl _)
          · cases new
            cases new'
            rfl }
  separate := by
    rintro l b p' q' (old | new) holds
    · exact w.separate l b p' q' old holds
    · cases new
      exact loose.2.2 p' q' holds
  inside := w.inside
  counted := w.counted

/-- Something new has its identity at an address. -/
def identify (w : World layout) {a made : Nat} (identity : Identity) (below : a < w.heap.length)
    (newThing : ∀ b, ¬ w.picture.thing identity b) (newAddress : ∀ i, ¬ w.picture.thing i a)
    (more : w.store.made ≤ made) (counts : ∀ n, identity = .made n → n < made) : World layout where
  picture := { w.picture with thing := fun i b => w.picture.thing i b ∨ (i, b) = (identity, a) }
  store := { w.store with made := made }
  heap := w.heap
  fits :=
    { w.fits with
      cells := by
        intro l b cell
        obtain ⟨content, p, found, depicts, held⟩ := w.fits.cells l b cell
        exact ⟨content, p, found, depicts.mono ⟨id, .inl, id⟩, held⟩
      thing := by
        constructor
        · rintro i j b (old | new) (old' | new')
          · exact w.fits.thing.1 old old'
          · cases new'
            exact absurd old (newAddress i)
          · cases new
            exact absurd old' (newAddress j)
          · cases new
            cases new'
            rfl
        · rintro i b b' (old | new) (old' | new')
          · exact w.fits.thing.2 old old'
          · cases new'
            exact absurd old (newThing b)
          · cases new
            exact absurd old' (newThing b')
          · cases new
            cases new'
            rfl }
  separate := w.separate
  inside := by
    rintro i b (old | new)
    · exact w.inside i b old
    · cases new
      exact below
  counted := by
    rintro n b (old | new)
    · exact (w.counted n b old).trans_le more
    · cases new
      exact counts n rfl

section

variable {a : Nat} (before : w.Extends w')
include before

theorem fix_extends (loose : w'.Loose a) {p q : Pointer} (held : w'.heap[a]? = some (p, q))
    (new : w.heap.length ≤ a) : w.Extends (w'.fix loose held) where
  picture := before.picture.trans ⟨id, id, .inl⟩
  length := before.length
  cell := before.cell
  holds := by
    rintro b p' q' below (old | new')
    · exact before.holds b p' q' below old
    · cases new'
      exact absurd below (Nat.not_lt.mpr new)
  kept := before.kept

theorem bind_extends (loose : w'.Loose a) (content : Cell) {p : Pointer}
    (held : w'.heap[a]? = some (p, content.flag.pointer))
    (depicts : w'.picture.Depicts layout content.value p) (new : w.heap.length ≤ a) :
    w.Extends (w'.bind loose content held depicts) where
  picture := before.picture.trans ⟨.inl, id, id⟩
  length := before.length
  cell := by
    rintro l b below (old | new')
    · exact before.cell l b below old
    · cases new'
      exact absurd below (Nat.not_lt.mpr new)
  holds := before.holds
  kept := before.kept

theorem identify_extends {made : Nat} {identity : Identity} (below : a < w'.heap.length)
    (newThing : ∀ b, ¬ w'.picture.thing identity b) (newAddress : ∀ i, ¬ w'.picture.thing i a)
    (more : w'.store.made ≤ made) (counts : ∀ n, identity = .made n → n < made) :
    w.Extends (w'.identify identity below newThing newAddress more counts) where
  picture := before.picture.trans ⟨id, .inl, id⟩
  length := before.length
  cell := before.cell
  holds := before.holds
  kept := before.kept

end

/-- Programs tell values apart as the machine tells their pointers apart:
scalars by what they are, everything else by its identity, to which one
address belongs. -/
theorem same_eq {v u : Value} {p q : Pointer} (left : w.picture.Depicts layout v p)
    (right : w.picture.Depicts layout u q) : (p == q) = v.same u := by
  have apart {a b : Nat} {s t : String} {x y : Pointer} (one : w.picture.holds a (.string s) x)
      (other : w.picture.holds b (.string t) y) (different : s ≠ t) : (Pointer.pair a == .pair b) = false := by
    change (a == b) = false
    rw [beq_eq_false_iff_ne]
    rintro rfl
    have same := (w.fits.holds _ _ _ one).symm.trans (w.fits.holds _ _ _ other)
    simp only [Option.some.injEq, Prod.mk.injEq, Pointer.scalar.injEq, Scalar.string.injEq] at same
    exact different same.1
  have things {a b : Nat} {i j : Identity} (one : w.picture.thing i a) (other : w.picture.thing j b) :
      (Pointer.pair a == .pair b) = true ↔ i = j := by
    change (a == b) = true ↔ i = j
    rw [beq_iff_eq]
    constructor
    · rintro rfl
      exact w.fits.thing.1 one other
    · rintro rfl
      exact w.fits.thing.2 one other
  cases left with
  | scalar value => cases right <;> rfl
  | builtin one held =>
    cases right with
    | scalar value => rfl
    | builtin other _ =>
      rw [Bool.eq_iff_iff, things one other, Identity.builtin.injEq]
      exact decide_eq_true_iff.symm
    | closure _ tag => exact apart held tag (by decide)
    | returned _ tag => exact apart held tag (by decide)
  | closure one held =>
    cases right with
    | scalar value => rfl
    | builtin _ tag => exact apart held tag (by decide)
    | closure other _ =>
      rw [Bool.eq_iff_iff, things one other, Identity.made.injEq]
      exact beq_iff_eq.symm
    | returned _ tag => exact apart held tag (by decide)
  | returned one held =>
    cases right with
    | scalar value => rfl
    | builtin _ tag => exact apart held tag (by decide)
    | closure _ tag => exact apart held tag (by decide)
    | returned other _ =>
      rw [Bool.eq_iff_iff, things one other, Identity.made.injEq]
      exact beq_iff_eq.symm

end World

end ExplicitControl.Evaluator
