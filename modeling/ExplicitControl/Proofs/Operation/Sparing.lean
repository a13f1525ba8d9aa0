import ExplicitControl.Proofs.Memory.Quiet

namespace ExplicitControl

/-- Every pair with false for its tail is there afterwards as it was. Cells of
constants have false for their tail, which is the flag that keeps them from
being assigned to. -/
def Cells.Spares (cells after : Cells) : Prop :=
  ∀ (a : Nat) (head : Pointer), cells[a]? = some (head, .bool false) → after[a]? = some (head, .bool false)

namespace Cells.Spares

theorem refl (cells : Cells) : Cells.Spares cells cells := fun _ _ => id

theorem trans {cells between after : Cells} (one : Cells.Spares cells between)
    (other : Cells.Spares between after) : Cells.Spares cells after :=
  fun a head found => other a head (one a head found)

theorem append (cells added : Cells) : Cells.Spares cells (cells ++ added) := by
  intro a head found
  rwa [List.getElem?_append_left (List.getElem?_eq_some_iff.mp found).1]

/-- A pair with another tail may be written. -/
theorem set {cells : Cells} {a : Nat} {head tail : Pointer} (found : cells[a]? = some (head, tail))
    (other : tail ≠ .bool false) (pair : Pointer × Pointer) : Cells.Spares cells (cells.set a pair) := by
  intro b head' held
  have apart : a ≠ b := by
    rintro rfl
    cases found.symm.trans held
    exact other rfl
  rwa [List.getElem?_set_ne apart]

end Cells.Spares

/-- The last pair of a list has null for its tail, so it is not one of those
to be spared. -/
theorem Memory.tail_of_lastPair {memory : Memory} {start p last : Pointer} {fuel : Nat}
    (found : memory.lastPair start fuel p = .ok last) : memory.tail last = .ok .null := by
  induction fuel generalizing p with
  | zero => cases found
  | succ fuel ih =>
    obtain ⟨rest, isRest, found⟩ := Read.bind_eq_ok_iff.mp found
    split at found
    · rename_i isNull
      cases found
      rw [isRest]
      unfold Pointer.isNull at isNull
      split at isNull
      · rfl
      · cases isNull
    · exact ih found

/-- An action that, where nothing is collected, spares pairs with false for
their tail. -/
def Action.Sparing {α : Type} (action : Action α) : Prop :=
  ∀ program operations cells, Action.Brings program operations action cells fun _ after => Cells.Spares cells after

namespace Action.Sparing

variable {α β : Type}

theorem pure (value : α) : Sparing (Pure.pure value) := fun _ _ cells => .pure (.refl cells)

theorem throw (cause : Error) : Sparing (MonadExcept.throw cause : Action α) := fun _ _ _ => .throw cause

theorem bind {x : Action α} {f : α → Action β} (first : Sparing x) (next : ∀ a, Sparing (f a))
    (quiet : ∀ a, Quiet (f a)) : Sparing (x >>= f) :=
  fun program operations cells => (first program operations cells).bind
    (fun a between spares => (next a program operations between).mono fun _ _ spares' => spares.trans spares') quiet

theorem inspect_bind {f : Memory → Except Error α} {g : α → Action β} (next : ∀ a, Sparing (g a)) :
    Sparing (Action.inspect f >>= g) :=
  fun program operations cells => .inspect_bind fun _ a _ _ => next a program operations cells

theorem reserve_bind {count : Nat} {pending : List Pointer} {f : List Pointer → Action β}
    (next : Sparing (f pending)) (quiet : ∀ moved, Quiet (f moved)) : Sparing (Action.reserve count pending >>= f) :=
  fun program operations cells => .reserve_bind (next program operations cells) quiet

theorem allocReserved (head tail : Pointer) : Sparing (Action.allocReserved head tail) :=
  fun _ _ cells => .allocReserved (.append cells _)

theorem allocPair (head tail : Pointer) : Sparing (Action.allocPair head tail) :=
  reserve_bind (allocReserved _ _) fun _ => .allocReserved _ _

theorem buildList (items : List Pointer) : Sparing (Action.buildList items) := by
  induction items with
  | nil => exact pure _
  | cons item rest ih => exact ih.bind (fun _ => allocReserved _ _) fun _ => .allocReserved _ _

theorem allocBindings (bindings : List Binding) : Sparing (Environment.allocBindings bindings) := by
  induction bindings with
  | nil => exact pure _
  | cons binding rest ih =>
    exact (allocReserved _ _).bind (fun _ => ih.bind (fun _ => pure _) fun _ => .pure _) fun _ =>
      (Quiet.allocBindings _).bind fun _ => .pure _

theorem push (bindings : List Binding) (enclosing : Pointer) : Sparing (Environment.push bindings enclosing) := by
  refine (allocBindings _).bind (fun cells => ?_) fun _ =>
    (Quiet.buildList _).bind fun _ => (Quiet.buildList _).bind fun _ => (Quiet.allocReserved _ _).bind fun _ =>
      .allocReserved _ _
  refine (buildList _).bind (fun names => ?_) fun _ =>
    (Quiet.buildList _).bind fun _ => (Quiet.allocReserved _ _).bind fun _ => .allocReserved _ _
  refine (buildList _).bind (fun cells => ?_) fun _ => (Quiet.allocReserved _ _).bind fun _ => .allocReserved _ _
  exact (allocReserved _ _).bind (fun _ => allocReserved _ _) fun _ => .allocReserved _ _

theorem allocPrimitives (names : List String) : Sparing (Environment.allocPrimitives names) := by
  induction names with
  | nil => exact pure _
  | cons name rest ih =>
    exact (allocReserved _ _).bind (fun _ => ih.bind (fun _ => pure _) fun _ => .pure _) fun _ =>
      (Quiet.allocPrimitives _).bind fun _ => .pure _

theorem global : Sparing Environment.global :=
  reserve_bind ((allocPrimitives _).bind (fun _ => push _ _) fun _ => .push _ _) fun _ =>
    (Quiet.allocPrimitives _).bind fun _ => .push _ _

theorem extendBlock (body environment : Pointer) : Sparing (Environment.extendBlock body environment) :=
  inspect_bind fun _ => reserve_bind ((push _ _).bind (fun _ => pure _) fun _ => .pure _) fun _ =>
    (Quiet.push _ _).bind fun _ => .pure _

theorem extendCall (function arguments : Pointer) : Sparing (Environment.extendCall function arguments) :=
  inspect_bind fun _ => reserve_bind
    (inspect_bind fun _ => inspect_bind fun _ => (push _ _).bind (fun _ => pure _) fun _ => .pure _) fun _ =>
    (Quiet.inspect _).bind fun _ => (Quiet.inspect _).bind fun _ => (Quiet.push _ _).bind fun _ => .pure _

/-- An argument is appended behind a pair that has null for its tail, and that
is the one pair that is written. -/
theorem appendArgument (value list : Pointer) : Sparing (ExplicitControl.appendArgument value list) := by
  refine reserve_bind ?_ fun moved => (Quiet.allocReserved _ _).bind fun cell => .appendTo _ _ _
  refine (allocReserved _ _).bind (fun cell => ?_) fun cell => .appendTo _ _ _
  split
  · exact pure _
  · intro program operations cells
    refine .inspect_bind fun memory last bears found => ?_
    obtain ⟨a, head, rfl, held⟩ := bears.of_tail (Memory.tail_of_lastPair found)
    have linked : Brings program operations (Action.setTail (.pair a) cell) cells fun _ after =>
        Cells.Spares cells after := by
      refine .setTail fun b head' tail' same held' => ?_
      cases same
      cases held.symm.trans held'
      exact .set held nofun _
    exact linked.bind (fun _ _ spares => .pure spares) fun _ => .pure _

end Action.Sparing

namespace HeapOperation

/-- Whether an operation may write into a pair, or do what one that writes
does, or clear the stack. -/
def writes : HeapOperation → Bool
  | .setHead | .setTail | .applyPrimitive | .clearStack => true
  | _ => false

theorem read_sparing {f : Memory → Except Error Pointer} {operands : List Pointer} :
    Action.Sparing (do return (⟨← Action.inspect f, operands⟩ : Applied)) :=
  .inspect_bind fun _ => .pure _

/-- Operations that are not there to write spare pairs with false for their
tail: they add pairs only, or append to a list. -/
theorem run_sparing {operation : HeapOperation} (reads : operation.writes = false) (operands : List Pointer) :
    Action.Sparing (operation.run operands) := by
  unfold run
  split
  · exact .pure _
  · exact .pure _
  · exact .pure _
  · exact (Action.Sparing.allocPair _ _).bind (fun _ => .pure _) fun _ => .pure _
  · exact read_sparing
  · exact read_sparing
  · cases reads
  · cases reads
  · exact read_sparing
  · exact read_sparing
  · exact read_sparing
  · cases reads
  · exact read_sparing
  · exact read_sparing
  · exact read_sparing
  · exact read_sparing
  · exact read_sparing
  · exact read_sparing
  · exact Action.Sparing.global.bind (fun _ => .pure _) fun _ => .pure _
  · exact (Action.Sparing.extendBlock _ _).bind (fun _ => .pure _) fun _ => .pure _
  · exact (Action.Sparing.extendCall _ _).bind (fun _ => .pure _) fun _ => .pure _
  · exact .reserve_bind ((Action.Sparing.buildList _).bind (fun _ => .pure _) fun _ => .pure _) fun _ =>
      (Action.Quiet.buildList _).bind fun _ => .pure _
  · exact .appendArgument _ _
  · exact read_sparing
  · exact read_sparing
  · exact .reserve_bind ((Action.Sparing.allocReserved _ _).bind (fun _ => .pure _) fun _ => .pure _) fun _ =>
      (Action.Quiet.allocReserved _ _).bind fun _ => .pure _
  · exact read_sparing
  · exact read_sparing
  · exact .throw _

end HeapOperation

end ExplicitControl
