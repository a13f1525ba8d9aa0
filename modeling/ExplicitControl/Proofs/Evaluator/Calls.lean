import ExplicitControl.Proofs.Evaluator.Arguments
import ExplicitControl.Proofs.Machine.Ready

namespace ExplicitControl.Evaluator

open Interpreter

variable {layout : Layout} {w : World layout} {values : List Value} {p q : Pointer} {base : Nat}

theorem checkCount_reads (expected got : Nat) :
    Reads layout.locate (fun _ _ => True) (checkCount expected got) (Environment.checkCount expected got) := by
  simp only [checkCount, Environment.checkCount]
  split
  · exact .error (.tooMany expected got)
  · split
    · exact .error (.tooFew expected got)
    · exact .ok trivial

theorem length_eq_of_checkCount {expected got : Nat} (passed : checkCount expected got = .ok ()) :
    expected = got := by
  simp only [checkCount] at passed
  split at passed
  · cases passed
  · split at passed
    · cases passed
    · omega

theorem length_eq_of_callNames {parameters body : Node} {got : Nat} {names locals : List Node}
    (found : callNames parameters body got = .ok (names, locals)) : names.length = got := by
  obtain ⟨names', _, rest⟩ := Read.bind_eq_ok_iff.mp found
  obtain ⟨_, passed, rest⟩ := Read.bind_eq_ok_iff.mp rest
  obtain ⟨_, _, rest⟩ := Read.bind_eq_ok_iff.mp rest
  cases rest
  exact length_eq_of_checkCount passed

theorem given_pictured {π : Picture} (names : List Node) {ps : List Pointer}
    (row : List.Forall₂ (π.Depicts layout) values ps) :
    List.Forall₂ (Pictured layout π)
      (List.zipWith Binding.mutable (names.map (Node.point layout.locate)) ps)
      (List.zipWith (fun symbol value => (symbol, (⟨value, .mutable⟩ : Cell))) names values) := by
  induction row generalizing names with
  | nil => cases names <;> exact .nil
  | cons first _ ih =>
    cases names with
    | nil => exact .nil
    | cons symbol names => exact .cons ⟨rfl, first, rfl⟩ (ih names)

section

variable {count : Nat} {parameters body : Node} {environment : List Frame}
  (depicts : w.picture.Depicts layout (.closure count parameters body environment) p)
include depicts

/-- The parts of a function value, found by the operations that the evaluator
has for them. -/
theorem closure_parts :
    parameters.Placed layout.program layout.locate ∧ body.Placed layout.program layout.locate ∧
      ∃ e, w.picture.Environment layout environment e ∧
        ∀ memory : Memory, memory.Bears layout.program table w.heap →
          memory.item p 1 = .ok (parameters.point layout.locate) ∧
          memory.item p 2 = .ok (body.point layout.locate) ∧ memory.item p 3 = .ok e := by
  cases depicts with
  | closure _ tag first second third parametersPlaced bodyPlaced environment =>
    refine ⟨parametersPlaced, bodyPlaced, _, environment, fun memory bears => ?_⟩
    have tail₁ := bears.tail_eq (w.fits.holds _ _ _ tag)
    have tail₂ := bears.tail_eq (w.fits.holds _ _ _ first)
    have tail₃ := bears.tail_eq (w.fits.holds _ _ _ second)
    simp only [Memory.item, listRef, tail₁, tail₂, tail₃, bind, Except.bind]
    exact ⟨bears.head_eq (w.fits.holds _ _ _ first), bears.head_eq (w.fits.holds _ _ _ second),
      bears.head_eq (w.fits.holds _ _ _ third)⟩

/-- The body of a function value is the node that the interpreter has in the
closure. -/
theorem compoundBody_yields :
    Yields layout .compoundBody [p] w.heap (body.point layout.locate) w.heap := by
  obtain ⟨_, _, _, _, parts⟩ := closure_parts depicts
  exact .read (by simp) rfl fun memory bears => (parts memory bears).2.1

theorem callNames_reads (arguments : w.Arguments base values q) {memory : Memory}
    (bears : memory.Bears layout.program table w.heap) :
    Reads layout.locate
      (fun found read => read.1 = found.1.map (Node.point layout.locate) ∧
        read.2 = found.2.map (Node.point layout.locate))
      (callNames parameters body values.length) (Environment.callNames memory p q) := by
  obtain ⟨parametersPlaced, bodyPlaced, _, _, parts⟩ := closure_parts depicts
  obtain ⟨ps, row, items⟩ := arguments.items_eq
  rw [← bears.program] at parametersPlaced bodyPlaced
  simp only [Environment.callNames, (parts memory bears).1, (parts memory bears).2.1]
  refine (parameterNames_reads layout.injective parametersPlaced).bind fun names read rows => ?_
  obtain rfl := Node.At.row_eq rows
  simp only [items memory bears, row.length_eq]
  have counted : Reads layout.locate (fun _ _ => True) (checkCount names.length ps.length)
      (Environment.checkCount (names.map (Node.point layout.locate)).length ps.length) := by
    rw [List.length_map]
    exact checkCount_reads _ _
  change Reads _ _ _ (Environment.checkCount (names.map (Node.point layout.locate)).length ps.length >>= _)
  refine counted.bind fun _ _ _ => ?_
  refine (declaredNames_reads layout.injective bodyPlaced).bind fun declared read rows => ?_
  obtain rfl := Node.At.row_eq rows
  refine .ok ⟨rfl, ?_⟩
  simp only [List.filter_map, Function.comp_def, Node.point_contains layout.injective]

/-- The frame of a call is what the interpreter opens for it: the same names
in the same order, bound to what stands for the same values. -/
theorem extendCall_yields {names locals : List Node}
    (found : callNames parameters body values.length = .ok (names, locals))
    (arguments : w.Arguments base values q) :
    ∃ r w' extended, Yields layout .extendCall [p, q] w.heap r w'.heap ∧ w.Extends w' ∧
      Interpretation.openFrame
        (List.zipWith (fun symbol value => (symbol, (⟨value, .mutable⟩ : Cell))) names values
          ++ locals.map declared) environment w.store = .ok extended w'.store ∧
      w'.picture.Environment layout extended r := by
  obtain ⟨_, _, e, inner, parts⟩ := closure_parts depicts
  obtain ⟨ps, row, items⟩ := arguments.items_eq
  obtain ⟨r, w', gives, grows, length, extended, opened, depicts'⟩ :=
    Builds.push (List.rel_append (given_pictured names row) (declared_pictured w.picture locals)) inner
  have size : Environment.frameSize
        (List.zipWith (fun symbol value => (symbol, (⟨value, .mutable⟩ : Cell))) names values
          ++ locals.map declared).length
      = Environment.frameSize ((names.map (Node.point layout.locate)).length
          + (locals.map (Node.point layout.locate)).length) := by
    have same := length_eq_of_callNames found
    simp only [List.length_append, List.length_zipWith, List.length_map, same, Nat.min_self]
  rw [size] at length
  have read : Action.Gives layout.program table
      (Action.inspect fun memory => Environment.callNames memory p q) w.heap
      (names.map (Node.point layout.locate), locals.map (Node.point layout.locate)) w.heap := by
    refine .inspect fun memory bears => ?_
    have reads := callNames_reads depicts arguments bears
    rw [found] at reads
    generalize Environment.callNames memory p q = outcome at reads
    cases reads with | ok same => exact congrArg Except.ok (Prod.ext same.1 same.2)
  have readItems : Action.Gives layout.program table (Action.inspect fun memory => memory.items q)
      w.heap ps w.heap := .inspect items
  have readInner : Action.Gives layout.program table (Action.inspect fun memory => memory.item p 3)
      w.heap e w.heap := .inspect fun memory bears => (parts memory bears).2.2
  have pushed : Action.Gives layout.program table (Environment.extendCall p q) w.heap (r, [p, q]) w'.heap :=
    read.bind (.reserve length.ge (readItems.bind (readInner.bind (gives.bind (.pure _ _)))))
  exact ⟨r, w', extended, .of_run (by simp) (pushed.bind (.pure _ _)), grows, opened, depicts'⟩

theorem extendCall_declines {m : Mistake} (failed : callNames parameters body values.length = .error m)
    (arguments : w.Arguments base values q) : Declines layout .extendCall [p, q] w.heap m := by
  refine .of_run (by simp) (.bind (.bind (.inspect fun memory bears => ?_) _) _)
  have reads := callNames_reads depicts arguments bears
  rw [failed] at reads
  generalize Environment.callNames memory p q = outcome at reads
  cases reads with | error shown => exact ⟨_, rfl, shown⟩

end

/-- The operation that a function of every program is carried out by. -/
def builtinOperation : Builtin → Operation
  | .identical => .addressAware .identical
  | .different => .addressAware .different
  | .scalar operation => .primitive operation

theorem find_builtin (function : Builtin) : table.find? function.name = some (builtinOperation function) := by
  cases function with
  | identical => rfl
  | different => rfl
  | scalar operation => cases operation <;> rfl

/-- Values are all scalars on both sides, or the first that is not is reported
by both. -/
theorem scalars_cases {π : Picture} {ps : List Pointer} (row : List.Forall₂ (π.Depicts layout) values ps) :
    (∃ given, Interpreter.scalars values = .ok given ∧ ExplicitControl.scalars ps = .ok given) ∨
      ∃ value p, value.Outlines p ∧ Interpreter.scalars values = .error (.notScalar value) ∧
        ExplicitControl.scalars ps = .error (.value (.notScalar p)) := by
  induction row with
  | nil => exact .inl ⟨[], rfl, rfl⟩
  | @cons value p _ _ first _ ih =>
    have outlines := first.outlines
    cases value with
    | scalar value =>
      cases outlines
      rcases ih with ⟨given, left, right⟩ | ⟨other, q, outlines, left, right⟩
      · refine .inl ⟨value :: given, ?_, ?_⟩
        · simp only [Interpreter.scalars, left]
          rfl
        · simp only [ExplicitControl.scalars, right]
          rfl
      · refine .inr ⟨other, q, outlines, ?_, ?_⟩
        · simp only [Interpreter.scalars, left]
          rfl
        · simp only [ExplicitControl.scalars, right]
          rfl
    | builtin function =>
      obtain ⟨a, rfl⟩ := outlines
      exact .inr ⟨_, _, first.outlines, rfl, rfl⟩
    | closure count parameters body environment =>
      obtain ⟨a, rfl⟩ := outlines
      exact .inr ⟨_, _, first.outlines, rfl, rfl⟩
    | returned count content =>
      obtain ⟨a, rfl⟩ := outlines
      exact .inr ⟨_, _, first.outlines, rfl, rfl⟩

/-- How an operation goes along with what the interpreter makes of values. -/
def Answers (w : World layout) (action : Action Applied) (reword : Error → Error) :
    Except Mistake Value → Prop
  | .ok value => ∃ r operands, w.picture.Depicts layout value r ∧
      Action.Gives layout.program table action w.heap ⟨r, operands⟩ w.heap
  | .error m => Action.Refuses layout.program table action w.heap fun cause =>
      m.Shows layout.locate (reword cause)

theorem complaint_shows (function : Builtin) (cause : OperandError) :
    (function.complaint cause).Shows layout.locate
      (countMistake (.machine (.operand function.name cause))) := by
  cases cause with
  | type expected got => exact .operand _ _
  | arity expected got =>
    simp only [Builtin.complaint, countMistake]
    split
    · exact .tooMany expected got
    · exact .tooFew expected got

theorem primitive_answers (operation : Primitive) (fuel : Nat) {ps : List Pointer}
    (row : List.Forall₂ (w.picture.Depicts layout) values ps) :
    Answers w (Operation.callFuel fuel (Builtin.scalar operation).name (.primitive operation) ps) countMistake
      ((Builtin.scalar operation).apply values) := by
  rw [Operation.callFuel_primitive]
  rcases scalars_cases row with ⟨given, left, right⟩ | ⟨other, q, outlines, left, right⟩
  · cases applied : operation.apply given with
    | ok value =>
      have interpreted : (Builtin.scalar operation).apply values = .ok (.scalar value) := by
        simp only [Builtin.apply, left, bind, Except.bind, applied]
        rfl
      have called (name : String) : operation.call name ps = .ok (.scalar value) := by
        simp only [Primitive.call, right, bind, Except.bind, applied]
        rfl
      rw [interpreted]
      exact ⟨.scalar value, ps, .scalar value, (Action.Gives.inspect fun _ _ => called _).bind (.pure _ _)⟩
    | error cause =>
      have interpreted : (Builtin.scalar operation).apply values
          = .error ((Builtin.scalar operation).complaint cause) := by
        simp only [Builtin.apply, left, bind, Except.bind, applied]
        rfl
      have called (name : String) : operation.call name ps = .error (.machine (.operand name cause)) := by
        simp only [Primitive.call, right, bind, Except.bind, applied]
        rfl
      rw [interpreted]
      exact Action.Refuses.bind (.inspect fun _ _ => ⟨_, called _, complaint_shows _ cause⟩) _
  · have interpreted : (Builtin.scalar operation).apply values = .error (.notScalar other) := by
      simp only [Builtin.apply, left]
      rfl
    have called (name : String) : operation.call name ps = .error (.value (.notScalar q)) := by
      simp only [Primitive.call, right]
      rfl
    rw [interpreted]
    exact Action.Refuses.bind (.inspect fun _ _ => ⟨_, called _, .notScalar outlines⟩) _

/-- What the machine makes of operands is what the interpreter makes of
values. A wrong number of operands is told as a wrong number of arguments,
unless an operand is wrong in itself. -/
theorem builtin_answers (function : Builtin) (fuel : Nat) {ps : List Pointer}
    (row : List.Forall₂ (w.picture.Depicts layout) values ps) :
    Answers w (Operation.callFuel fuel function.name (builtinOperation function) ps) countMistake
      (function.apply values) := by
  have arity (operation : HeapOperation) (name : function.name = operation.name) :
      (function.complaint (.arity 2 values.length)).Shows layout.locate
        (countMistake (.machine (.operand operation.name (.arity 2 ps.length)))) := by
    rw [row.length_eq, ← name]
    exact complaint_shows function _
  cases function with
  | scalar operation => exact primitive_answers operation fuel row
  | _ =>
    simp only [builtinOperation]
    rw [Operation.callFuel_run fuel _ (by simp)]
    match values, ps, row with
    | [_, _], [_, _], .cons first (.cons second .nil) =>
      refine ⟨_, _, ?_, .pure _ _⟩
      simp only [bne, World.same_eq first second]
      exact .scalar _
    | [], [], _ => exact fun memory _ => ⟨_, memory, rfl, arity _ rfl⟩
    | [_], [_], _ => exact fun memory _ => ⟨_, memory, rfl, arity _ rfl⟩
    | _ :: _ :: _ :: _, _ :: _ :: _ :: _, _ => exact fun memory _ => ⟨_, memory, rfl, arity _ rfl⟩

/-- A call of a function of every program: it is found by its name in the
table, and its operands are read off the list of arguments. -/
theorem applyPrimitive_answers {function : Builtin} (depicts : w.picture.Depicts layout (.builtin function) p)
    (arguments : w.Arguments base values q) :
    Answers w (Operation.call HeapOperation.applyPrimitive.name (.addressAware .applyPrimitive) [p, q]) id
      (function.apply values) := by
  obtain ⟨ps, row, items⟩ := arguments.items_eq
  cases depicts with
  | @builtin _ a _ held =>
    have symbol : Action.Gives layout.program table (Action.inspect fun memory => memory.tail (.pair a))
        w.heap (.string function.name) w.heap := .inspect fun _ bears => bears.tail_eq (w.fits.holds _ _ _ held)
    have inputs : Action.Gives layout.program table (Action.inspect fun memory => memory.items q)
        w.heap ps w.heap := .inspect items
    have operation : Action.Gives layout.program table (Action.operation function.name)
        w.heap (builtinOperation function) w.heap := by
      refine .inspect fun memory bears => ?_
      rw [bears.operations, find_builtin]
    have once : ¬ Operation.Repeats (builtinOperation function) ps := by
      rintro ⟨same, _⟩
      cases function <;> cases same
    have answers := builtin_answers function 0 row
    generalize function.apply values = outcome at answers
    cases outcome with
    | ok value =>
      obtain ⟨r, operands, depicts, gives⟩ := answers
      refine ⟨r, [.pair a, q], depicts, gives.le, fun memory bears room => ?_⟩
      rw [← Operation.callFuel_eq_zero once memory.heap.free] at gives
      have called : Action.Gives layout.program table
          (Operation.callFuel (memory.heap.free + 1) HeapOperation.applyPrimitive.name
            (.addressAware .applyPrimitive) [.pair a, q]) w.heap ⟨r, [.pair a, q]⟩ w.heap :=
        symbol.bind (inputs.bind (operation.bind ((gives.mapError _).bind (.pure _ _))))
      exact called.runs memory bears room
    | error m =>
      intro memory bears
      rw [← Operation.callFuel_eq_zero once memory.heap.free] at answers
      have called : Action.Refuses layout.program table
          (Operation.callFuel (memory.heap.free + 1) HeapOperation.applyPrimitive.name
            (.addressAware .applyPrimitive) [.pair a, q]) w.heap (m.Shows layout.locate) :=
        .after symbol (.after inputs (.after operation (.bind (.mapError answers) _)))
      exact called memory bears

theorem applyPrimitive_yields {function : Builtin} {value : Value}
    (depicts : w.picture.Depicts layout (.builtin function) p) (arguments : w.Arguments base values q)
    (applied : function.apply values = .ok value) :
    ∃ r, w.picture.Depicts layout value r ∧ Yields layout .applyPrimitive [p, q] w.heap r w.heap := by
  have answers := applyPrimitive_answers depicts arguments
  rw [applied] at answers
  obtain ⟨r, operands, depicts, gives⟩ := answers
  exact ⟨r, depicts, operands, gives⟩

theorem applyPrimitive_declines {function : Builtin} {m : Mistake}
    (depicts : w.picture.Depicts layout (.builtin function) p) (arguments : w.Arguments base values q)
    (failed : function.apply values = .error m) : Declines layout .applyPrimitive [p, q] w.heap m := by
  have answers := applyPrimitive_answers depicts arguments
  rw [failed] at answers
  exact answers

end ExplicitControl.Evaluator
