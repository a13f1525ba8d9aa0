import ExplicitControl.Memory.List
import ExplicitControl.Proofs.Program.Layout
import Mathlib.Data.List.Perm.Subperm

namespace ExplicitControl

namespace ProgramHeap

/-- The heap on which trees have been installed one after another. -/
def ofTrees (trees : List Tree) : ProgramHeap :=
  trees.foldl (fun heap tree => (heap.install tree).2) {}

/-- The two fields of a pair. -/
inductive Field where
  | head
  | tail
  deriving DecidableEq

/-- What a cell has in a field. -/
def Field.of : Field → Pointer × Pointer → Pointer
  | .head, cell => cell.1
  | .tail, cell => cell.2

/-- What the pair at an address has in a field. -/
def read (heap : ProgramHeap) : Field → Nat → Except HeapError Pointer
  | .head, address => heap.head address
  | .tail, address => heap.tail address

/-- A field of one cell refers to another cell. -/
def Refers (cells : Array (Pointer × Pointer)) (a : Nat) (field : Field) (b : Nat) : Prop :=
  ∃ cell, cells[a]? = some cell ∧ field.of cell = .program b

theorem read_eq_ok {heap : ProgramHeap} {a : Nat} {cell : Pointer × Pointer} (found : heap.cells[a]? = some cell)
    (field : Field) : heap.read field a = .ok (field.of cell) := by
  cases field <;>
    simp only [read, head, tail, ProgramHeap.cell, found, bind, Except.bind, pure, Except.pure, Field.of]

theorem read_eq_ok_iff {heap : ProgramHeap} {field : Field} {a b : Nat} :
    heap.read field a = .ok (.program b) ↔ Refers heap.cells a field b := by
  unfold Refers
  cases found : heap.cells[a]? with
  | none => cases field <;> simp [read, head, tail, cell, found, bind, Except.bind]
  | some cell => simp [read_eq_ok found]

/-- References go upwards, to cells below a bound, and no two fields share
one. So no walk comes to a cell twice, and trees do not run into each other. -/
structure Upward (cells : Array (Pointer × Pointer)) (bound : Nat) : Prop where
  ascends : ∀ {a b : Nat} {field : Field}, Refers cells a field b → a < b ∧ b < bound
  unshared : ∀ {a a' b : Nat} {field field' : Field}, Refers cells a field b → Refers cells a' field' b →
    a = a' ∧ field = field'

section Placing

variable {tree : Tree} {cells : Array (Pointer × Pointer)} {vacancies : List Vacancy} {a b : Nat} {field : Field}

/-- A cell that is set aside refers to nothing yet. -/
theorem refers_of_place (refers : Refers (place tree cells vacancies).2.1 a field b) :
    Refers cells a field b := by
  cases tree with
  | atom value => exact refers
  | pair head tail =>
    obtain ⟨cell, found, held⟩ := refers
    simp only [place, Array.getElem?_push] at found
    split at found
    · cases found
      cases field <;> cases held
    · exact ⟨cell, found, held⟩

theorem place_program (placed : (place tree cells vacancies).1 = .program b) :
    b = cells.size ∧ (place tree cells vacancies).2.1.size = cells.size + 1 := by
  cases tree with
  | atom value => cases placed
  | pair head tail =>
    cases placed
    exact ⟨rfl, Array.size_push _⟩

theorem place_size (tree : Tree) (cells : Array (Pointer × Pointer)) (vacancies : List Vacancy) :
    (place tree cells vacancies).2.1.size + vacancies.length
      = cells.size + (place tree cells vacancies).2.2.length := by
  cases tree with
  | atom value => rfl
  | pair head tail =>
    simp only [place, Array.size_push, List.length_cons]
    omega

theorem size_le_place : cells.size ≤ (place tree cells vacancies).2.1.size := by
  cases tree with
  | atom value => exact le_rfl
  | pair head tail => simp only [place, Array.size_push, Nat.le_add_right]

theorem place_inside (inside : ∀ v ∈ vacancies, v.address < cells.size) :
    ∀ v ∈ (place tree cells vacancies).2.2, v.address < (place tree cells vacancies).2.1.size := by
  cases tree with
  | atom value => exact inside
  | pair head tail =>
    simp only [place, Array.size_push]
    exact List.forall_mem_cons.mpr
      ⟨Nat.lt_succ_self _, fun v member => Nat.lt_succ_of_lt (inside v member)⟩

theorem refers_of_set {address : Nat} {h t : Pointer}
    (refers : Refers (cells.setIfInBounds address (h, t)) a field b) :
    a = address ∧ field.of (h, t) = .program b ∨ Refers cells a field b := by
  obtain ⟨cell, found, held⟩ := refers
  by_cases same : address = a
  · rw [Array.getElem?_setIfInBounds, if_pos same] at found
    split at found
    · cases found
      exact .inl ⟨same.symm, held⟩
    · cases found
  · rw [Array.getElem?_setIfInBounds_ne same] at found
    exact .inr ⟨cell, found, held⟩

/-- Filling a cell adds references to the cells that were set aside for its
head and tail just before: nothing refers to them yet, and they lie above all
cells that do refer. -/
theorem Upward.filled {address : Nat} {head tail : Tree} (upward : Upward cells cells.size)
    (inside : address < cells.size) :
    let first := place head cells vacancies
    let second := place tail first.2.1 first.2.2
    Upward (second.2.1.setIfInBounds address (first.1, second.1)) second.2.1.size := by
  intro first second
  have firstSize : cells.size ≤ first.2.1.size := size_le_place
  have secondSize : first.2.1.size ≤ second.2.1.size := size_le_place
  have origin {a b : Nat} {field : Field}
      (refers : Refers (second.2.1.setIfInBounds address (first.1, second.1)) a field b) :
      (a = address ∧ field = .head ∧ b = cells.size ∧ first.2.1.size = cells.size + 1) ∨
        (a = address ∧ field = .tail ∧ b = first.2.1.size ∧ second.2.1.size = first.2.1.size + 1) ∨
        Refers cells a field b := by
    rcases refers_of_set refers with ⟨same, held⟩ | old
    · cases field with
      | head => exact .inl ⟨same, rfl, place_program held⟩
      | tail => exact .inr (.inl ⟨same, rfl, place_program held⟩)
    · exact .inr (.inr (refers_of_place (refers_of_place old)))
  constructor
  · intro a b field refers
    rcases origin refers with ⟨_, _, _, _⟩ | ⟨_, _, _, _⟩ | old
    · omega
    · omega
    · have := upward.ascends old
      omega
  · intro a a' b field field' refers refers'
    rcases origin refers with ⟨here, isHead, _, _⟩ | ⟨here, isTail, _, _⟩ | old <;>
      rcases origin refers' with ⟨here', isHead', _, _⟩ | ⟨here', isTail', _, _⟩ | old'
    · exact ⟨here.trans here'.symm, isHead.trans isHead'.symm⟩
    · omega
    · have := upward.ascends old'
      omega
    · omega
    · exact ⟨here.trans here'.symm, isTail.trans isTail'.symm⟩
    · have := upward.ascends old'
      omega
    · have := upward.ascends old
      omega
    · have := upward.ascends old
      omega
    · exact upward.unshared old old'

theorem fill_upward (upward : Upward cells cells.size) (inside : ∀ v ∈ vacancies, v.address < cells.size) :
    Upward (fill vacancies cells) (fill vacancies cells).size := by
  fun_induction fill vacancies cells with
  | case1 cells => exact upward
  | case2 address head tail vacancies cells headPointer cells₁ vacancies₁ headPlaced tailPointer cells₂
      vacancies₂ tailPlaced ih =>
    obtain ⟨addressInside, othersInside⟩ := List.forall_mem_cons.mp inside
    have filled : let first := place head cells vacancies
        let second := place tail first.2.1 first.2.2
        Upward (second.2.1.setIfInBounds address (first.1, second.1)) second.2.1.size :=
      upward.filled addressInside
    have headInside := @place_inside head cells vacancies othersInside
    rw [headPlaced] at filled headInside
    have tailInside := @place_inside tail cells₁ vacancies₁ headInside
    rw [tailPlaced] at tailInside
    dsimp only at filled tailInside
    rw [tailPlaced] at filled
    refine ih ?_ ?_
    · rw [Array.size_setIfInBounds]
      exact filled
    · rw [Array.size_setIfInBounds]
      exact tailInside

/-- Every pair of the trees that are still to be laid out gets a cell, but for
those that have one already. -/
theorem fill_size (vacancies : List Vacancy) (cells : Array (Pointer × Pointer)) :
    (fill vacancies cells).size + vacancies.length = cells.size + pending vacancies := by
  fun_induction fill vacancies cells with
  | case1 cells => rfl
  | case2 address head tail vacancies cells headPointer cells₁ vacancies₁ headPlaced tailPointer cells₂
      vacancies₂ tailPlaced ih =>
    have headSize := place_size head cells vacancies
    have headPending := place_pending head cells vacancies
    have tailSize := place_size tail cells₁ vacancies₁
    have tailPending := place_pending tail cells₁ vacancies₁
    rw [headPlaced] at headSize headPending
    rw [tailPlaced] at tailSize tailPending
    dsimp only at headSize headPending tailSize tailPending
    simp only [Array.size_setIfInBounds] at ih
    simp only [pending, Vacancy.pairs, List.length_cons]
    omega

end Placing

section Installing

variable {heap : ProgramHeap}

/-- Installing a tree keeps references upward, by way of an invariant of the
heap while cells are still to be filled. -/
theorem install_upward (upward : Upward heap.cells heap.size) (tree : Tree) :
    Upward (heap.install tree).2.cells (heap.install tree).2.size := by
  have inside := @place_inside tree heap.cells [] (by simp)
  refine fill_upward ⟨fun refers => ?_, fun refers refers' => ?_⟩ inside
  · have bounds := upward.ascends (refers_of_place refers)
    exact ⟨bounds.1, bounds.2.trans_le size_le_place⟩
  · exact upward.unshared (refers_of_place refers) (refers_of_place refers')

/-- Installing a tree adds as many cells as it has pairs. -/
theorem install_size (heap : ProgramHeap) (tree : Tree) :
    (heap.install tree).2.size = heap.size + tree.pairs := by
  have placed := place_size tree heap.cells []
  have counted := place_pending tree heap.cells []
  have filled := fill_size (place tree heap.cells []).2.2 (place tree heap.cells []).2.1
  simp only [pending, List.length_nil] at placed counted
  change (fill (place tree heap.cells []).2.2 (place tree heap.cells []).2.1).size = heap.cells.size + tree.pairs
  omega

/-- On a heap of installed trees references go upwards, whatever the trees are
and in whatever order they came. -/
theorem ofTrees_upward (trees : List Tree) : Upward (ofTrees trees).cells (ofTrees trees).size := by
  have start : Upward ({} : ProgramHeap).cells ({} : ProgramHeap).size := by
    constructor
    · rintro a b field ⟨_, found, _⟩
      simp at found
    · rintro a a' b field field' ⟨_, found, _⟩
      simp at found
  unfold ofTrees
  generalize ({} : ProgramHeap) = heap at start
  induction trees generalizing heap with
  | nil => exact start
  | cons tree trees ih => exact ih _ (install_upward start tree)

end Installing

section Lying

variable {cells : Array (Pointer × Pointer)} {tree : Tree} {p : Pointer} {addresses : List Nat}

theorem Lies.length_eq (lies : Lies cells tree p addresses) : addresses.length = tree.pairs := by
  induction lies with
  | atom value => rfl
  | pair _ _ _ headIH tailIH =>
    simp only [List.length_cons, List.length_append, Tree.pairs]
    omega

theorem Lies.inside (lies : Lies cells tree p addresses) : ∀ a ∈ addresses, a < cells.size := by
  induction lies with
  | atom value => simp
  | pair found _ _ headIH tailIH =>
    exact List.forall_mem_cons.mpr
      ⟨(Array.getElem?_eq_some_iff.mp found).1, List.forall_mem_append.mpr ⟨headIH, tailIH⟩⟩

end Lying

end ProgramHeap

namespace Memory

variable {memory : Memory}

/-- The tree that heads and tails lead to from a pointer, to a depth. -/
def treeAt (memory : Memory) : (depth : Nat) → Pointer → Except Error Tree
  | _, .scalar value => .ok (.atom value)
  | 0, p => .error (.machine (.endless p))
  | depth + 1, p => do
    let head ← memory.programHead p
    let tail ← memory.programTail p
    return .pair (← memory.treeAt depth head) (← memory.treeAt depth tail)

/-- A tree that lies on the heap is what heads and tails lead to from its
root, to any depth that suffices for its pairs. -/
theorem treeAt_of_lies {tree : Tree} {p : Pointer} {addresses : List Nat}
    (lies : ProgramHeap.Lies memory.program.cells tree p addresses) {depth : Nat} (deep : tree.pairs ≤ depth) :
    memory.treeAt depth p = .ok tree := by
  induction lies generalizing depth with
  | atom value => cases depth <;> rfl
  | pair found _ _ headIH tailIH =>
    cases depth with
    | zero => exact absurd deep (Nat.not_succ_le_zero _)
    | succ depth =>
      simp only [Tree.pairs] at deep
      have headRead := @headIH depth (by omega)
      have tailRead := @tailIH depth (by omega)
      simp only [treeAt, programHead, programTail, ProgramHeap.head, ProgramHeap.tail, ProgramHeap.cell, found,
        bind, Except.bind, pure, Except.pure, Except.mapError, headRead, tailRead]

/-- The cells from a pointer to the end of the program. -/
def ahead (program : ProgramHeap) : Pointer → Nat
  | .program a => program.size - a
  | _ => 0

theorem listItems_program {a : Nat} {cell : Pointer × Pointer} (found : memory.program.cells[a]? = some cell)
    (start : Pointer) (fuel : Nat) :
    listItems memory.programHead memory.programTail start (fuel + 1) (.program a)
      = (listItems memory.programHead memory.programTail start fuel cell.2).map (cell.1 :: ·) := by
  simp only [listItems, programHead, programTail, ProgramHeap.head, ProgramHeap.tail, ProgramHeap.cell, found,
    bind, Except.bind, pure, Except.pure, Except.mapError, Pointer.isNull]
  rfl

/-- A walk along tails is over after no more pairs than there are ahead,
however far it was let go. Cells only lead upwards, so there are fewer ahead
with each step. -/
theorem listItems_ends (upward : ProgramHeap.Upward memory.program.cells memory.program.size)
    {start p : Pointer} {fuel fuel' : Nat} (enough : ahead memory.program p < fuel)
    (enough' : ahead memory.program p < fuel') :
    listItems memory.programHead memory.programTail start fuel p
        = listItems memory.programHead memory.programTail start fuel' p ∧
      ∀ q, listItems memory.programHead memory.programTail start fuel p ≠ .error (.machine (.endless q)) := by
  induction fuel generalizing p fuel' with
  | zero => exact absurd enough (Nat.not_lt_zero _)
  | succ fuel ih =>
    obtain ⟨fuel', rfl⟩ := Nat.exists_eq_succ_of_ne_zero (Nat.ne_zero_of_lt enough')
    cases p with
    | pair a => exact ⟨rfl, nofun⟩
    | scalar value => cases value <;> exact ⟨rfl, nofun⟩
    | program a =>
      cases found : memory.program.cells[a]? with
      | none =>
        simp [listItems, programHead, ProgramHeap.head, ProgramHeap.cell, found, bind, Except.bind,
          Except.mapError, Pointer.isNull]
      | some cell =>
        have inside : a < memory.program.size := (Array.getElem?_eq_some_iff.mp found).1
        have nearer : ahead memory.program cell.2 < ahead memory.program (.program a) := by
          cases next : cell.2 with
          | program b =>
            have refers : ProgramHeap.Refers memory.program.cells a .tail b := ⟨cell, found, next⟩
            have bounds := upward.ascends refers
            simp only [ahead]
            omega
          | pair b =>
            simp only [ahead]
            omega
          | scalar value =>
            simp only [ahead]
            omega
        obtain ⟨same, ends⟩ := @ih cell.2 fuel' (by omega) (by omega)
        rw [listItems_program found, listItems_program found, same]
        refine ⟨rfl, fun q endless => ?_⟩
        rw [same] at ends
        cases walked : listItems memory.programHead memory.programTail start fuel' cell.2 with
        | ok items =>
          rw [walked] at endless
          cases endless
        | error cause =>
          rw [walked] at endless ends
          exact ends q (by cases endless; rfl)

end Memory

namespace ProgramHeap

/-- What installing a tree makes of a program heap: the tree lies at the root
in as many new cells as it has pairs, can be read off them again, and nothing
else has changed; references go upwards and no two fields share one, so that
every walk along a list ends. -/
structure Appends (heap : ProgramHeap) (tree : Tree) (root : Pointer) (after : ProgramHeap) : Prop where
  size : after.size = heap.size + tree.pairs
  kept : ∀ field, ∀ a < heap.size, after.read field a = heap.read field a
  lies : ∃ addresses, addresses.Perm (List.range' heap.size tree.pairs) ∧ Lies after.cells tree root addresses
  rebuilds : ∀ memory : Memory, memory.program = after → memory.treeAt tree.pairs root = .ok tree
  ascends : ∀ field a b, after.read field a = .ok (.program b) → a < b ∧ b < after.size
  unshared : ∀ field field' a a' b, after.read field a = .ok (.program b) →
    after.read field' a' = .ok (.program b) → a = a' ∧ field = field'
  walks : ∀ memory : Memory, memory.program = after → ∀ list fuel, after.size < fuel →
    listItems memory.programHead memory.programTail list fuel list = memory.programItems list ∧
      ∀ start, memory.programItems list ≠ .error (.machine (.endless start))

/-- Installing a tree on a heap of installed trees is lossless and adds cells
at the end only. The tree lies after all cells that were there, which stay as
they are, and heads and tails lead from its root to the whole of it.
References go upwards and no two of them to the same cell, so that every walk
along tails comes to an end. -/
theorem install_appends (trees : List Tree) (tree : Tree) :
    Appends (ofTrees trees) tree ((ofTrees trees).install tree).1 ((ofTrees trees).install tree).2 := by
  have upward := install_upward (ofTrees_upward trees) tree
  generalize ofTrees trees = heap at upward
  obtain ⟨kept, addresses, nodup, new, lies⟩ := heap.install_cases tree
  have size := heap.install_size tree
  refine ⟨size, fun field a below => ?_, ⟨addresses, ?_, lies⟩, ?_, ?_, ?_, ?_⟩
  · have found := Array.getElem?_eq_getElem below
    rw [read_eq_ok found, read_eq_ok ((kept a below).trans found)]
  · have inside : addresses ⊆ List.range' heap.size tree.pairs := by
      intro a member
      rw [List.mem_range'_1]
      exact ⟨new a member, size ▸ lies.inside a member⟩
    refine (List.subperm_of_subset nodup inside).perm_of_length_le ?_
    rw [List.length_range', lies.length_eq]
  · intro memory same
    rw [← same] at lies
    exact Memory.treeAt_of_lies lies le_rfl
  · intro field a b refers
    exact upward.ascends (read_eq_ok_iff.mp refers)
  · intro field field' a a' b refers refers'
    exact upward.unshared (read_eq_ok_iff.mp refers) (read_eq_ok_iff.mp refers')
  · rintro memory same list fuel enough
    rw [← same] at upward enough
    have near : Memory.ahead memory.program list ≤ memory.program.size := by
      cases list with
      | program a => exact Nat.sub_le _ _
      | pair a => exact Nat.zero_le _
      | scalar value => exact Nat.zero_le _
    obtain ⟨agree, ends⟩ := Memory.listItems_ends upward (Nat.lt_succ_of_le near) (near.trans_lt enough)
    exact ⟨agree.symm, ends⟩

end ProgramHeap

end ExplicitControl
