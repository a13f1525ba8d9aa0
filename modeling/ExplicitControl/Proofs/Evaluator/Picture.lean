import ExplicitControl.Proofs.Evaluator.Course
import Mathlib.Logic.Relator

namespace ExplicitControl

/-- The flag of a binding. -/
def Interpreter.Flag.pointer : Interpreter.Flag → Pointer
  | .uninitialised => .null
  | .constant => .bool false
  | .mutable => .bool true

namespace Evaluator

open Interpreter

/-- What functions and return values are told apart by. -/
inductive Identity where
  | builtin (function : Builtin)
  | made (count : Nat)

/-- What pairs stand for: the cell at a location, something with an identity,
or a pair of pointers that stay as they are. Only pairs that stand for cells
are ever written. -/
structure Picture where
  cell : Nat → Nat → Prop
  thing : Identity → Nat → Prop
  holds : Nat → Pointer → Pointer → Prop

namespace Picture

/-- A picture in which more is said. -/
structure Le (π σ : Picture) : Prop where
  cell : ∀ {l a}, π.cell l a → σ.cell l a
  thing : ∀ {i a}, π.thing i a → σ.thing i a
  holds : ∀ {a p q}, π.holds a p q → σ.holds a p q

/-- A list that stays as it is. -/
inductive Lists (π : Picture) : List Pointer → Pointer → Prop
  | nil : Lists π [] .null
  | cons {item : Pointer} {items : List Pointer} {a : Nat} {rest : Pointer} :
      π.holds a item rest → Lists π items rest → Lists π (item :: items) (.pair a)

variable (layout : Layout) (π : Picture)

/-- The names and the cells of a frame, in two lists side by side. -/
inductive Bindings : Frame → Pointer → Pointer → Prop
  | nil : Bindings [] .null .null
  | cons {symbol : Node} {location : Nat} {frame : Frame} {n c cell : Nat} {names cells : Pointer} :
      π.holds n (symbol.point layout.locate) names → π.holds c (.pair cell) cells → π.cell location cell →
      Bindings frame names cells → Bindings ((symbol, location) :: frame) (.pair n) (.pair c)

/-- Frames, innermost first. -/
inductive Environment : List Frame → Pointer → Prop
  | nil : Environment [] .null
  | cons {frame : Frame} {environment : List Frame} {a f : Nat} {names cells rest : Pointer} :
      π.holds a (.pair f) rest → π.holds f names cells → Bindings layout π frame names cells →
      Environment environment rest → Environment (frame :: environment) (.pair a)

/-- The pointer of a value: the scalar itself, or a pair with what the value
is made of. -/
inductive Depicts : Value → Pointer → Prop
  | scalar (value : Scalar) : Depicts (.scalar value) (.scalar value)
  | builtin {function : Builtin} {a : Nat} : π.thing (.builtin function) a →
      π.holds a (.string Tag.primitive.text) (.string function.name) →
      Depicts (.builtin function) (.pair a)
  | closure {count a b c d : Nat} {parameters body : Node} {environment : List Frame} {e : Pointer} :
      π.thing (.made count) a → π.holds a (.string Tag.compound.text) (.pair b) →
      π.holds b (parameters.point layout.locate) (.pair c) →
      π.holds c (body.point layout.locate) (.pair d) → π.holds d e .null →
      parameters.Placed layout.program layout.locate → body.Placed layout.program layout.locate →
      Environment layout π environment e → Depicts (.closure count parameters body environment) (.pair a)
  | returned {count a : Nat} {content : Value} {p : Pointer} :
      π.thing (.made count) a → π.holds a (.string Tag.returnValue.text) p → Depicts content p →
      Depicts (.returned count content) (.pair a)

/-- A picture of a store, given what each pair holds. -/
structure Fits (store : Store) (stored : Nat → Pointer → Pointer → Prop) : Prop where
  holds : ∀ a p q, π.holds a p q → stored a p q
  cells : ∀ l a, π.cell l a → ∃ cell p, store.cells[l]? = some cell ∧ Depicts layout π cell.value p ∧
    stored a p cell.flag.pointer
  cell : Relator.BiUnique π.cell
  thing : Relator.BiUnique π.thing

variable {layout : Layout} {π σ : Picture}

theorem Lists.mono {items : List Pointer} {p : Pointer} (lists : π.Lists items p) (le : π.Le σ) :
    σ.Lists items p := by
  induction lists with
  | nil => exact .nil
  | cons holds _ ih => exact .cons (le.holds holds) ih

theorem Bindings.mono {frame : Frame} {names cells : Pointer} (bindings : π.Bindings layout frame names cells)
    (le : π.Le σ) : σ.Bindings layout frame names cells := by
  induction bindings with
  | nil => exact .nil
  | cons name held cell _ ih => exact .cons (le.holds name) (le.holds held) (le.cell cell) ih

theorem Environment.mono {environment : List Frame} {p : Pointer}
    (depicts : π.Environment layout environment p) (le : π.Le σ) : σ.Environment layout environment p := by
  induction depicts with
  | nil => exact .nil
  | cons link frame bindings _ ih => exact .cons (le.holds link) (le.holds frame) (bindings.mono le) ih

/-- More may be said in a picture without taking back what a pointer stands
for. -/
theorem Depicts.mono {value : Value} {p : Pointer} (depicts : π.Depicts layout value p) (le : π.Le σ) :
    σ.Depicts layout value p := by
  induction depicts with
  | scalar value => exact .scalar value
  | builtin thing holds => exact .builtin (le.thing thing) (le.holds holds)
  | closure thing tag first second third parameters body environment =>
    exact .closure (le.thing thing) (le.holds tag) (le.holds first) (le.holds second) (le.holds third)
      parameters body (environment.mono le)
  | returned thing holds _ ih => exact .returned (le.thing thing) (le.holds holds) ih

theorem Fits.imp {store : Store} {stored stored' : Nat → Pointer → Pointer → Prop}
    (fits : π.Fits layout store stored) (weaker : ∀ a p q, stored a p q → stored' a p q) :
    π.Fits layout store stored' := by
  refine { fits with holds := fun a p q holds => weaker a p q (fits.holds a p q holds), cells := ?_ }
  intro l a cell
  obtain ⟨content, p, found, depicts, held⟩ := fits.cells l a cell
  exact ⟨content, p, found, depicts, weaker a p _ held⟩

theorem Le.refl (π : Picture) : π.Le π := ⟨id, id, id⟩

theorem Le.trans {τ : Picture} (one : π.Le σ) (other : σ.Le τ) : π.Le τ :=
  ⟨other.cell ∘ one.cell, other.thing ∘ one.thing, other.holds ∘ one.holds⟩

theorem Depicts.outlines {value : Value} {p : Pointer} (depicts : π.Depicts layout value p) :
    value.Outlines p := by
  cases depicts with
  | scalar value => rfl
  | builtin _ _ => exact ⟨_, rfl⟩
  | closure _ _ _ _ _ _ _ _ => exact ⟨_, rfl⟩
  | returned _ _ _ => exact ⟨_, rfl⟩

end Picture

end Evaluator

end ExplicitControl
