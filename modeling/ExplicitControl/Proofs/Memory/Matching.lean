import ExplicitControl.Memory.Reserve
import ExplicitControl.Proofs.PairGraph
import Mathlib.Data.List.Forall2

namespace ExplicitControl

/-- The same pointer, but for pairs that stand for one another. -/
inductive Pointer.Matches (ρ : Nat → Nat → Prop) : Pointer → Pointer → Prop
  | scalar (value : Scalar) : Matches ρ (.scalar value) (.scalar value)
  | program (address : Nat) : Matches ρ (.program address) (.program address)
  | pair {a b : Nat} : ρ a b → Matches ρ (.pair a) (.pair b)

namespace Pointer.Matches

variable {ρ σ : Nat → Nat → Prop} {p q p' q' : Pointer}

theorem mono (matched : p.Matches ρ q) (weaker : ∀ a b, ρ a b → σ a b) : p.Matches σ q := by
  cases matched with
  | scalar value => exact .scalar value
  | program address => exact .program address
  | pair related => exact .pair (weaker _ _ related)

theorem symm (matched : p.Matches ρ q) : q.Matches (Function.swap ρ) p := by
  cases matched with
  | scalar value => exact .scalar value
  | program address => exact .program address
  | pair related => exact .pair related

theorem comp {r : Pointer} (one : p.Matches ρ q) (other : q.Matches σ r) :
    p.Matches (Relation.Comp ρ σ) r := by
  cases one with
  | scalar value => cases other; exact .scalar value
  | program address => cases other; exact .program address
  | pair related => cases other with | pair related' => exact .pair ⟨_, related, related'⟩

/-- Comparison does not tell matching pointers apart: pairs are compared by
their addresses, and the relation of addresses is one to one. -/
theorem same_eq (unique : Relator.BiUnique ρ) (left : p.Matches ρ p') (right : q.Matches ρ q') :
    (p == q) = (p' == q') := by
  cases left with
  | scalar value => cases right <;> rfl
  | program address => cases right <;> rfl
  | @pair a b related =>
    cases right with
    | scalar value => rfl
    | program address => rfl
    | @pair a' b' related' =>
      change (a == a') = (b == b')
      rw [Bool.eq_iff_iff, beq_iff_eq, beq_iff_eq]
      constructor
      · rintro rfl
        exact unique.2 related related'
      · rintro rfl
        exact unique.1 related related'

theorem isNull_eq (matched : p.Matches ρ q) : p.isNull = q.isNull := by
  cases matched <;> rfl

theorem refl_of_below (pairless : p.Below 0) : p.Matches ρ p := by
  cases p with
  | scalar value => exact .scalar value
  | program address => exact .program address
  | pair a => exact absurd pairless (Nat.not_lt_zero _)

theorem below {limit : Nat} (matched : p.Matches ρ q) (inside : ∀ a b, ρ a b → a < limit) :
    p.Below limit := by
  cases matched with
  | scalar value => trivial
  | program address => trivial
  | pair related => exact inside _ _ related

theorem rename {f : Nat → Nat} (kept : ∀ a, p = .pair a → ρ a (f a)) : p.Matches ρ (p.rename f) := by
  cases p with
  | scalar value => exact .scalar value
  | program address => exact .program address
  | pair a => exact .pair (kept a rfl)

theorem exists_of_mem {ps qs : List Pointer} (row : List.Forall₂ (Pointer.Matches ρ) ps qs) (member : q ∈ qs) :
    ∃ p : Pointer, p.Matches ρ q := by
  induction row with
  | nil => cases member
  | cons first _ ih =>
    rcases List.mem_cons.mp member with rfl | later
    · exact ⟨_, first⟩
    · exact ih later

end Pointer.Matches

/-- The same contents, but for pairs that stand for one another. -/
inductive Contents.Matches (ρ : Nat → Nat → Prop) : Contents → Contents → Prop
  | unassigned : Matches ρ .unassigned .unassigned
  | label (position : Nat) : Matches ρ (.label position) (.label position)
  | pointer {p q : Pointer} : p.Matches ρ q → Matches ρ (.pointer p) (.pointer q)

namespace Contents.Matches

variable {ρ σ : Nat → Nat → Prop} {c d : Contents}

theorem mono (matched : c.Matches ρ d) (weaker : ∀ a b, ρ a b → σ a b) : c.Matches σ d := by
  cases matched with
  | unassigned => exact .unassigned
  | label position => exact .label position
  | pointer inner => exact .pointer (inner.mono weaker)

theorem symm (matched : c.Matches ρ d) : d.Matches (Function.swap ρ) c := by
  cases matched with
  | unassigned => exact .unassigned
  | label position => exact .label position
  | pointer inner => exact .pointer inner.symm

theorem comp {e : Contents} (one : c.Matches ρ d) (other : d.Matches σ e) :
    c.Matches (Relation.Comp ρ σ) e := by
  cases one with
  | unassigned => cases other; exact .unassigned
  | label position => cases other; exact .label position
  | pointer inner => cases other with | pointer inner' => exact .pointer (inner.comp inner')

end Contents.Matches

/-- Registers of one name with matching contents. -/
structure Register.Matches (ρ : Nat → Nat → Prop) (left right : Register) : Prop where
  name : left.name = right.name
  contents : left.contents.Matches ρ right.contents

/-- Pairs that stand for one another have matching heads and tails, and the
relation between their addresses is one to one. Pairs that stand for none are
garbage, or not there on the other side. -/
structure PairHeap.Matches (ρ : Nat → Nat → Prop) (left right : PairHeap) : Prop where
  unique : Relator.BiUnique ρ
  pairs : ∀ a b, ρ a b → ∃ head tail head' tail', left.Holds a head tail ∧
    right.Holds b head' tail' ∧ head.Matches ρ head' ∧ tail.Matches ρ tail'

/-- Memories that differ only in where the pairs lie, in what nothing refers
to, and in their logs. They have allocated as many pairs and saved as many
registers. -/
structure Memory.Matches (ρ : Nat → Nat → Prop) (left right : Memory) : Prop where
  heap : left.heap.Matches ρ right.heap
  registers : List.Forall₂ (Register.Matches ρ) left.registers.toList right.registers.toList
  stack : List.Forall₂ (Contents.Matches ρ) left.stack.items.toList right.stack.items.toList
  pushes : left.stack.pushes = right.stack.pushes
  maxDepth : left.stack.maxDepth = right.stack.maxDepth
  allocated : left.heap.statistics.allocated = right.heap.statistics.allocated
  program : left.program = right.program
  operations : left.operations = right.operations

namespace PairHeap.Matches

variable {ρ σ : Nat → Nat → Prop} {left middle right : PairHeap} {a b : Nat}

theorem lt_left (matched : left.Matches ρ right) (related : ρ a b) : a < left.free := by
  obtain ⟨_, _, _, _, holds, _⟩ := matched.pairs a b related
  exact holds.lt

theorem lt_right (matched : left.Matches ρ right) (related : ρ a b) : b < right.free := by
  obtain ⟨_, _, _, _, _, holds, _⟩ := matched.pairs a b related
  exact holds.lt

theorem symm (matched : left.Matches ρ right) : right.Matches (Function.swap ρ) left where
  unique := ⟨fun _ _ _ one other => matched.unique.2 one other,
    fun _ _ _ one other => matched.unique.1 one other⟩
  pairs := by
    intro b a related
    obtain ⟨head, tail, head', tail', holds, holds', headMatched, tailMatched⟩ :=
      matched.pairs a b related
    exact ⟨head', tail', head, tail, holds', holds, headMatched.symm, tailMatched.symm⟩

theorem comp (one : left.Matches ρ middle) (other : middle.Matches σ right) :
    left.Matches (Relation.Comp ρ σ) right where
  unique := by
    constructor
    · rintro a c b ⟨m, am, mb⟩ ⟨m', cm, mb'⟩
      have same := other.unique.1 mb mb'
      subst same
      exact one.unique.1 am cm
    · rintro a b c ⟨m, am, mb⟩ ⟨m', am', mc⟩
      have same := one.unique.2 am am'
      subst same
      exact other.unique.2 mb mc
  pairs := by
    rintro a b ⟨m, am, mb⟩
    obtain ⟨head, tail, head', tail', holds, holds', headMatched, tailMatched⟩ := one.pairs a m am
    obtain ⟨head₁, tail₁, head₂, tail₂, holds₁, holds₂, headMatched', tailMatched'⟩ :=
      other.pairs m b mb
    obtain ⟨rfl, rfl⟩ := holds'.unique holds₁
    exact ⟨head, tail, head₂, tail₂, holds, holds₂, headMatched.comp headMatched',
      tailMatched.comp tailMatched'⟩

/-- Everything that can be reached on the right stands for something, since
the roots do and matching pairs refer to matching ones. -/
theorem exists_of_reaches (matched : left.Matches ρ right) {ps qs : List Pointer}
    (roots : List.Forall₂ (Pointer.Matches ρ) ps qs) (reached : right.Reaches qs b) : ∃ a, ρ a b := by
  induction reached with
  | root isRoot =>
    obtain ⟨p, one⟩ := Pointer.Matches.exists_of_mem roots isRoot
    cases one with | pair related => exact ⟨_, related⟩
  | @head c d tail _ holds ih =>
    obtain ⟨a, related⟩ := ih
    obtain ⟨_, _, _, _, _, holds', heads, _⟩ := matched.pairs a c related
    obtain ⟨rfl, rfl⟩ := holds.unique holds'
    cases heads with | pair inner => exact ⟨_, inner⟩
  | @tail c d head _ holds ih =>
    obtain ⟨a, related⟩ := ih
    obtain ⟨_, _, _, _, _, holds', _, tails⟩ := matched.pairs a c related
    obtain ⟨rfl, rfl⟩ := holds.unique holds'
    cases tails with | pair inner => exact ⟨_, inner⟩

end PairHeap.Matches

namespace Memory.Matches

variable {ρ σ : Nat → Nat → Prop} {left middle right : Memory}

theorem symm (matched : left.Matches ρ right) : right.Matches (Function.swap ρ) left where
  heap := matched.heap.symm
  registers := matched.registers.flip.imp fun _ _ one => ⟨one.name.symm, one.contents.symm⟩
  stack := matched.stack.flip.imp fun _ _ one => one.symm
  pushes := matched.pushes.symm
  maxDepth := matched.maxDepth.symm
  allocated := matched.allocated.symm
  program := matched.program.symm
  operations := matched.operations.symm

/-- Rows that match a common row match each other, item by item. -/
theorem forall₂_comp {α : Type} {r s t : α → α → Prop} (combine : ∀ a b c, r a b → s b c → t a c)
    {xs ys zs : List α} (one : List.Forall₂ r xs ys) (other : List.Forall₂ s ys zs) :
    List.Forall₂ t xs zs := by
  induction one generalizing zs with
  | nil =>
    cases other
    exact .nil
  | cons first _ ih =>
    cases other with
    | cons first' rest' => exact .cons (combine _ _ _ first first') (ih rest')

theorem comp (one : left.Matches ρ middle) (other : middle.Matches σ right) :
    left.Matches (Relation.Comp ρ σ) right where
  heap := one.heap.comp other.heap
  registers := forall₂_comp (fun _ _ _ r s => ⟨r.name.trans s.name, r.contents.comp s.contents⟩)
    one.registers other.registers
  stack := forall₂_comp (fun _ _ _ r s => r.comp s) one.stack other.stack
  pushes := one.pushes.trans other.pushes
  maxDepth := one.maxDepth.trans other.maxDepth
  allocated := one.allocated.trans other.allocated
  program := one.program.trans other.program
  operations := one.operations.trans other.operations

end Memory.Matches

end ExplicitControl
