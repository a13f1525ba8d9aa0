import ExplicitControl.Proofs.Interpreter.Evaluate

namespace ExplicitControl.Interpreter

open Interpretation

/-- One computation comes to an end only where the other comes to the same
end. The first may run out of depth where the second goes on, and that is the
only difference. -/
def Shallower {α : Type} (x y : Interpretation α) : Prop :=
  ∀ store, (∃ store', x store = .error .unfinished store') ∨ x store = y store

/-- One interpreter comes to an end only where the other comes to the same
end. -/
def Evaluation.Shallower (one other : Evaluation) : Prop :=
  ∀ node environment, Interpreter.Shallower (one node environment) (other node environment)

namespace Shallower

variable {α β : Type} {x y : Interpretation α} {f g : α → Interpretation β}

theorem refl (x : Interpretation α) : Shallower x x :=
  fun _ => .inr rfl

theorem bind (first : Shallower x y) (next : ∀ a, Shallower (f a) (g a)) :
    Shallower (x >>= f) (y >>= g) := by
  intro store
  change (∃ store', EStateM.bind x f store = _) ∨ EStateM.bind x f store = EStateM.bind y g store
  simp only [EStateM.bind]
  rcases first store with ⟨store', unfinished⟩ | same
  · rw [unfinished]
    exact .inl ⟨store', rfl⟩
  · rw [← same]
    cases x store with
    | ok a store' => exact next a store'
    | error halt store' => exact .inr rfl

/-- What comes first is the same on both sides, so only what follows can come
to different ends. -/
theorem after (next : ∀ a, Shallower (f a) (g a)) : Shallower (x >>= f) (x >>= g) :=
  (refl x).bind next

end Shallower

section

variable {one other : Evaluation} (shallower : one.Shallower other)
include shallower

theorem statements_shallower (environment : List Frame) (list : Node) :
    Shallower (statements one environment list) (statements other environment list) := by
  induction list with
  | leaf value => exact .refl _
  | pair place first rest _ ih =>
    simp only [statements]
    split
    · exact shallower first environment
    · refine (shallower first environment).bind fun value => ?_
      cases value with
      | returned identity content => exact .refl _
      | _ => exact ih

theorem arguments_shallower (environment : List Frame) (list : Node) :
    Shallower (arguments one environment list) (arguments other environment list) := by
  induction list with
  | leaf value => exact .refl _
  | pair place first rest _ ih =>
    refine (shallower first environment).bind fun value => ?_
    split
    · exact .refl _
    · exact ih.bind fun _ => .refl _

/-- A call evaluates the body of a closure and nothing else, so with an
interpreter that is let go deeper it comes to the same end. -/
theorem call_shallower (function : Value) (values : List Value) :
    Shallower (call one function values) (call other function values) := by
  cases function with
  | closure identity parameters body environment =>
    refine .after fun names => .after fun extended => ?_
    exact (shallower body extended).bind fun _ => .refl _
  | _ => exact .refl _

theorem application_shallower (node : Node) (environment : List Frame) :
    Shallower (application one node environment) (application other node environment) := by
  refine .after fun list => .after fun operator => (shallower operator environment).bind fun function => ?_
  split
  · exact call_shallower shallower function []
  · refine (arguments_shallower shallower environment list).bind fun values => ?_
    exact call_shallower shallower function values

theorem booleanOperation_shallower (node : Node) (environment : List Frame) :
    Shallower (booleanOperation one node environment) (booleanOperation other node environment) := by
  refine .after fun operand => (shallower operand environment).bind fun value => ?_
  refine .after fun first => .after fun settling => ?_
  split
  · exact .refl _
  · exact .after fun second => shallower second environment

theorem sequence_shallower (node : Node) (environment : List Frame) :
    Shallower (sequence one node environment) (sequence other node environment) := by
  refine .after fun list => ?_
  split
  · exact .refl _
  · exact statements_shallower shallower environment list

/-- A part is evaluated, and what is done with its value is the same. -/
theorem part_shallower {α : Type} (part : Interpretation Node) (environment : List Frame)
    (rest : Value → Interpretation α) :
    Shallower (part >>= fun node => one node environment >>= rest)
      (part >>= fun node => other node environment >>= rest) :=
  .after fun node => (shallower node environment).bind fun _ => .refl _

/-- Forms come to an end where their parts do, one lemma for each form. This
is the step of the induction on the depth. -/
theorem expression_shallower : Evaluation.Shallower (expression one) (expression other) := by
  intro node environment
  cases node with
  | leaf value => exact .refl _
  | pair place head tail =>
    unfold expression
    cases (Node.pair place head tail).kind with
    | none => exact .refl _
    | some kind =>
      cases kind with
      | constantDeclaration => exact part_shallower shallower _ environment _
      | variableDeclaration => exact part_shallower shallower _ environment _
      | assignment => exact part_shallower shallower _ environment _
      | returnStatement => exact part_shallower shallower _ environment _
      | conditional =>
        refine .after fun predicate => (shallower predicate environment).bind fun _ => .after fun chosen => ?_
        exact .after fun branch => shallower branch environment
      | booleanOperation => exact booleanOperation_shallower shallower _ environment
      | sequence => exact sequence_shallower shallower _ environment
      | application => exact application_shallower shallower _ environment
      | block => exact .after fun body => .after fun names => .after fun extended => shallower body extended
      | _ => exact .refl _

theorem program_shallower (root : Node) : Shallower (program one root) (program other root) := by
  refine .after fun first => .after fun names => .after fun extended => ?_
  exact (shallower root extended).bind fun _ => .refl _

end

/-- Letting the interpreter go deeper changes nothing but that it may come to
an end where it had none. -/
theorem eval_shallower {fuel deeper : Nat} (le : fuel ≤ deeper) :
    (eval fuel).Shallower (eval deeper) := by
  induction fuel generalizing deeper with
  | zero => exact fun _ _ store => .inl ⟨store, rfl⟩
  | succ fuel ih =>
    cases deeper with
    | zero => exact absurd le (Nat.not_succ_le_zero fuel)
    | succ deeper => exact expression_shallower (ih (Nat.le_of_succ_le_succ le))

/-- What a program comes to does not depend on how deep the interpreter is let
go, once it is let go deep enough to come to anything. -/
theorem run_eq_of_le {fuel deeper : Nat} {tree : Tree} (le : fuel ≤ deeper)
    (finished : ∀ store, run fuel tree ≠ .error .unfinished store) : run deeper tree = run fuel tree := by
  rcases program_shallower (eval_shallower le) (mark [] tree) {} with ⟨store, unfinished⟩ | same
  · exact absurd unfinished (finished store)
  · exact same.symm

end ExplicitControl.Interpreter
