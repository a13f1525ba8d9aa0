import ExplicitControl.Proofs.Evaluator.Refinement
import ExplicitControl.Proofs.Interpreter.Mistakes

namespace ExplicitControl

/-- The errors that an evaluation can end with. A part of the program is
missing only where its tree is not composed of the forms of programs. -/
inductive Error.Expected (composed : Prop) : Error → Prop
  | eval (cause : EvalError) : Expected composed (.eval cause)
  | exhausted (capacity live : Nat) : Expected composed (.heap (.exhausted capacity live))
  | notScalar (got : Pointer) : Expected composed (.value (.notScalar got))
  | notProgramPair (got : Pointer) : ¬ composed → Expected composed (.value (.notProgramPair got))
  | operand (operation expected : String) (got : Scalar) :
      Expected composed (.machine (.operand operation (.type expected got)))

namespace Evaluator

open Interpreter

theorem expected_of_exhausts {composed : Prop} {cause : Error} (exhausts : cause.Exhausts) :
    cause.Expected composed := by
  cases cause with
  | heap cause =>
    cases cause with
    | exhausted capacity live => exact .exhausted capacity live
    | _ => exact exhausts.elim
  | _ => exact exhausts.elim

/-- What the mistakes of a program show in is expected, as far as they are
possible in its tree. -/
theorem expected_of_shows {composed : Prop} {locate : List Bool → Nat} {m : Mistake} {cause : Error}
    (shown : m.Shows locate cause) (possible : m.Possible composed) : cause.Expected composed := by
  cases shown with
  | notPair got => exact .notProgramPair _ possible
  | notScalar outlines => exact .notScalar _
  | operand function cause =>
    cases cause with
    | arity expected got => exact possible.elim
    | type expected got => exact .operand function expected got
  | _ => exact .eval _

/-- Whatever has ended, not for want of room, has ended as the interpreter
says. -/
theorem exists_agrees {made : Machine}
    (isMade : Machine.make registers OperationTable.evaluator controller = .ok made) (tree : Tree) :
    ∃ layout, ∀ (settings : Settings) steps, (run steps (made.configure settings) tree).1.Settled →
      Agrees layout (Interpreter.run steps tree) (run steps (made.configure settings) tree) := by
  obtain ⟨layout, program, leads⟩ := exists_leads tree
  exact ⟨layout, fun settings steps settled => agrees_of_settled isMade program settled (leads steps)⟩

/-- An evaluation that fails, not for want of room, shows a mistake that the
interpreter finds. -/
theorem exists_mistake_of_failed {fuel : Nat} {settings : Settings} {tree : Tree} {cause : Error}
    (failed : evaluate fuel settings tree = .failed cause) (roomy : ¬ cause.Exhausts) :
    ∃ m store locate, Interpreter.run fuel tree = .error (.mistake m) store ∧ m.Shows locate cause := by
  obtain ⟨made, isMade⟩ := make_ok
  obtain ⟨layout, agrees⟩ := exists_agrees isMade tree
  simp only [evaluate, machine_eq isMade] at failed
  have settled : (run fuel (made.configure settings) tree).1.Settled := by
    rw [failed]
    exact roomy
  have agreed := agrees settings fuel settled
  generalize ended : Interpreter.run fuel tree = result at agreed
  generalize run fuel (made.configure settings) tree = left at failed agreed
  cases agreed with
  | value fits depicts => cases failed
  | mistake shown =>
    cases failed
    exact ⟨_, _, _, rfl, shown⟩

/-- Whatever the program and the capacity, an evaluation that fails does so
for a mistake of the program's own or for want of room. The machine itself
never breaks: no register is read that holds nothing, no stack underflows, and
no reference is followed to where no pair is. -/
theorem evaluate_fails_expectedly {fuel : Nat} {settings : Settings} {tree : Tree} {cause : Error}
    (failed : evaluate fuel settings tree = .failed cause) : cause.Expected tree.Composed := by
  by_cases exhausts : cause.Exhausts
  · exact expected_of_exhausts exhausts
  · obtain ⟨m, store, locate, ended, shown⟩ := exists_mistake_of_failed failed exhausts
    exact expected_of_shows shown (run_possible ended)

/-- Whether a run has ended for want of a declaration of a symbol. -/
def isUnbound (symbol : String) : Outcome Pointer → Bool
  | .failed (.eval (.unboundName (.scalar (.string found)))) => found == symbol
  | _ => false

theorem eq_of_isUnbound {symbol : String} {outcome : Outcome Pointer}
    (unbound : isUnbound symbol outcome = true) : outcome = .failed (.eval (.unboundName (.string symbol))) := by
  unfold isUnbound at unbound
  split at unbound
  · rw [beq_iff_eq.mp unbound]
  · cases unbound

theorem evaluate_unbound_fails_expectedly :
    evaluate 400 ⟨100, false⟩ (.name "x") = .failed (.eval (.unboundName (.string "x"))) ∧
      (Tree.name "x").Composed ∧ Error.Expected (Tree.name "x").Composed (.eval (.unboundName (.string "x"))) := by
  have unbound : isUnbound "x" (run 400 (pristine.configure ⟨100, false⟩) (.name "x")).1 = true := by decide +kernel
  have failed : evaluate 400 ⟨100, false⟩ (.name "x") = .failed (.eval (.unboundName (.string "x"))) := by
    rw [evaluate, machine_pristine]
    exact eq_of_isUnbound unbound
  exact ⟨failed, .name .body "x", evaluate_fails_expectedly failed⟩

end Evaluator

end ExplicitControl
