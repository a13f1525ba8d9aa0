import ExplicitControl.Proofs.Evaluator.Capacity
import ExplicitControl.Proofs.Evaluator.Picture

namespace ExplicitControl

namespace Interpreter

variable {locate : List Bool → Nat} {node : Node} {p q : Pointer}

theorem Node.eq_point_of_matches {ρ : Nat → Nat → Prop} (matched : p.Matches ρ (node.point locate)) :
    p = node.point locate := by
  cases node <;> cases matched <;> rfl

theorem Node.point_rename (f : Nat → Nat) : (node.point locate).rename f = node.point locate := by
  cases node <;> rfl

theorem Node.rename_eq_point {f : Nat → Nat} : p.rename f = node.point locate ↔ p = node.point locate := by
  cases p with
  | scalar value => exact Iff.rfl
  | program a => exact Iff.rfl
  | pair a => cases node <;> simp [Pointer.rename, Node.point]

theorem Value.Outlines.of_rename {f : Nat → Nat} {value : Value} (outlines : value.Outlines q)
    (same : p.rename f = q.rename f) : value.Outlines p := by
  cases p with
  | pair a =>
    cases value with
    | scalar value =>
      cases outlines
      cases same
    | _ => exact ⟨a, rfl⟩
  | _ =>
    cases q <;> cases same
    exact outlines

/-- A mistake shows in every error like the one in which it shows. -/
theorem Mistake.Shows.of_alike {m : Mistake} {e e' : Error} (shown : m.Shows locate e')
    (alike : e.Alike e') : m.Shows locate e := by
  cases alike with
  | named a b => cases shown
  | addresses same =>
    -- errors that differ in more than addresses are no errors alike
    cases shown <;> cases e <;>
      simp only [Error.rename, reduceCtorEq, Error.eval.injEq, Error.value.injEq,
        Error.machine.injEq] at same <;>
      rename_i cause <;> cases cause <;>
      simp [EvalError.rename, ValueError.rename, MachineError.rename, Node.point_rename,
        Node.rename_eq_point] at same
    case notPair.value.notProgramPair value got =>
      have leaf : got.rename _ = (Node.leaf value).point locate := same
      obtain rfl := Node.rename_eq_point.mp leaf
      exact .notPair value
    case unknownFunction.eval.unknownFunction outlines _ => exact .unknownFunction (outlines.of_rename same)
    case nonBooleanPredicate.eval.nonBooleanPredicate outlines _ =>
      exact .nonBooleanPredicate (outlines.of_rename same)
    case notScalar.value.notScalar outlines _ => exact .notScalar (outlines.of_rename same)
    all_goals first
      | (subst same; constructor)
      | (obtain ⟨rfl, rfl⟩ := same; constructor)

end Interpreter

namespace Evaluator.Picture

open Interpreter

variable {layout : Layout} {π : Picture} {ρ : Nat → Nat → Prop} {left right : PairHeap} {store : Store}

/-- A picture of matching pairs. -/
def moved (π : Picture) (ρ : Nat → Nat → Prop) (heap : PairHeap) : Picture where
  cell := fun l a => ∃ b, ρ a b ∧ π.cell l b
  thing := fun i a => ∃ b, ρ a b ∧ π.thing i b
  holds := heap.Holds

section

variable (matched : left.Matches ρ right) (fits : π.Fits layout store right.Holds)
include matched fits

theorem holds_moved {a b : Nat} {p q : Pointer} (related : ρ a b) (holds : π.holds b p q) :
    ∃ p' q', left.Holds a p' q' ∧ p'.Matches ρ p ∧ q'.Matches ρ q := by
  obtain ⟨p', q', _, _, held, held', head, tail⟩ := matched.pairs a b related
  obtain ⟨rfl, rfl⟩ := (fits.holds b p q holds).unique held'
  exact ⟨p', q', held, head, tail⟩

theorem Bindings.moved {frame : Frame} {names cells names' cells' : Pointer}
    (bindings : π.Bindings layout frame names cells) (sameNames : names'.Matches ρ names)
    (sameCells : cells'.Matches ρ cells) : (π.moved ρ left).Bindings layout frame names' cells' := by
  induction bindings generalizing names' cells' with
  | nil =>
    cases sameNames
    cases sameCells
    exact .nil
  | cons name held cell _ ih =>
    cases sameNames with
    | pair nameRelated =>
      cases sameCells with
      | pair cellRelated =>
        obtain ⟨symbol, names, nameHeld, symbolMatched, namesMatched⟩ :=
          holds_moved matched fits nameRelated name
        obtain ⟨first, cells, cellHeld, firstMatched, cellsMatched⟩ :=
          holds_moved matched fits cellRelated held
        obtain rfl := Node.eq_point_of_matches symbolMatched
        cases firstMatched with
        | pair related => exact .cons nameHeld cellHeld ⟨_, related, cell⟩ (ih namesMatched cellsMatched)

theorem Environment.moved {environment : List Frame} {p q : Pointer}
    (depicts : π.Environment layout environment q) (same : p.Matches ρ q) :
    (π.moved ρ left).Environment layout environment p := by
  induction depicts generalizing p with
  | nil =>
    cases same
    exact .nil
  | cons link frame bindings _ ih =>
    cases same with
    | pair related =>
      obtain ⟨first, rest, linkHeld, firstMatched, restMatched⟩ := holds_moved matched fits related link
      cases firstMatched with
      | pair frameRelated =>
        obtain ⟨names, cells, frameHeld, namesMatched, cellsMatched⟩ :=
          holds_moved matched fits frameRelated frame
        exact .cons linkHeld frameHeld (bindings.moved matched fits namesMatched cellsMatched) (ih restMatched)

/-- What stands for a value stands for it wherever its pairs have been moved. -/
theorem Depicts.moved {value : Value} {p q : Pointer} (depicts : π.Depicts layout value q)
    (same : p.Matches ρ q) : (π.moved ρ left).Depicts layout value p := by
  induction depicts generalizing p with
  | scalar value =>
    cases same
    exact .scalar value
  | builtin thing holds =>
    cases same with
    | pair related =>
      obtain ⟨_, _, held, tag, name⟩ := holds_moved matched fits related holds
      cases tag
      cases name
      exact .builtin ⟨_, related, thing⟩ held
  | closure thing holds first second third parameters body environment =>
    cases same with
    | pair related =>
      obtain ⟨_, _, held, tag, rest⟩ := holds_moved matched fits related holds
      cases tag
      cases rest with
      | pair related₁ =>
        obtain ⟨_, _, held₁, point₁, rest⟩ := holds_moved matched fits related₁ first
        obtain rfl := Node.eq_point_of_matches point₁
        cases rest with
        | pair related₂ =>
          obtain ⟨_, _, held₂, point₂, rest⟩ := holds_moved matched fits related₂ second
          obtain rfl := Node.eq_point_of_matches point₂
          cases rest with
          | pair related₃ =>
            obtain ⟨_, _, held₃, inner, rest⟩ := holds_moved matched fits related₃ third
            cases rest
            exact .closure ⟨_, related, thing⟩ held held₁ held₂ held₃ parameters body
              (environment.moved matched fits inner)
  | returned thing holds _ ih =>
    cases same with
    | pair related =>
      obtain ⟨_, _, held, tag, inner⟩ := holds_moved matched fits related holds
      cases tag
      exact .returned ⟨_, related, thing⟩ held (ih inner)

/-- A picture that fits one heap, moved, fits the other. So what is said about
one heap can be said about any heap that matches it. -/
theorem Fits.moved : (π.moved ρ left).Fits layout store left.Holds where
  holds := fun _ _ _ => id
  cells := by
    rintro l a ⟨b, related, cell⟩
    obtain ⟨content, p, found, depicts, held⟩ := fits.cells l b cell
    obtain ⟨p', q', _, _, held', heldRight, value, flag⟩ := matched.pairs a b related
    obtain ⟨rfl, rfl⟩ := held.unique heldRight
    refine ⟨content, p', found, depicts.moved matched fits value, ?_⟩
    cases kind : content.flag <;> rw [kind] at flag <;> cases flag <;> exact held'
  cell := by
    constructor
    · rintro l k a ⟨b, related, cell⟩ ⟨b', related', cell'⟩
      obtain rfl := matched.unique.2 related related'
      exact fits.cell.1 cell cell'
    · rintro l a a' ⟨b, related, cell⟩ ⟨b', related', cell'⟩
      obtain rfl := fits.cell.2 cell cell'
      exact matched.unique.1 related related'
  thing := by
    constructor
    · rintro i j a ⟨b, related, thing⟩ ⟨b', related', thing'⟩
      obtain rfl := matched.unique.2 related related'
      exact fits.thing.1 thing thing'
    · rintro i a a' ⟨b, related, thing⟩ ⟨b', related', thing'⟩
      obtain rfl := fits.thing.2 thing thing'
      exact matched.unique.1 related related'

end

end Evaluator.Picture

end ExplicitControl
