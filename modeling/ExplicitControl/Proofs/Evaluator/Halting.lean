import ExplicitControl.Proofs.Evaluator.Safety
import ExplicitControl.Proofs.Interpreter.Termination

namespace ExplicitControl

namespace Evaluator

open Interpreter

/-- A program without function definitions has been evaluated after a number
of instructions that does not depend on the capacity. It has a value then, or
has failed: for a mistake of its own or for want of room, and never because a
single operation went on without end. -/
theorem evaluate_halts (tree : Tree) (functionless : tree.Functionless) :
    ∃ steps, ∀ settings,
      (∃ p, evaluate steps settings tree = .done p) ∨
        ∃ cause, evaluate steps settings tree = .failed cause ∧ cause.Expected tree.Composed := by
  obtain ⟨made, isMade⟩ := make_ok
  obtain ⟨layout, program, leads⟩ := exists_leads tree
  -- the interpreter comes to an end, and the evaluator with it
  have finished := run_ends functionless
  obtain ⟨steps, bound, ended⟩ := agrees_or_exhausts isMade program finished (leads _)
  refine ⟨steps, fun settings => ?_⟩
  simp only [evaluate, machine_eq isMade]
  rcases ended settings with agrees | ⟨_, cause, failed, exhausts⟩
  · generalize interpreted : Interpreter.run _ tree = result at agrees
    generalize run steps (made.configure settings) tree = left at agrees
    cases agrees with
    | value fits depicts => exact .inl ⟨_, rfl⟩
    | mistake shown => exact .inr ⟨_, rfl, expected_of_shows shown (run_possible interpreted)⟩
  · exact .inr ⟨cause, failed, expected_of_exhausts exhausts⟩

/-- A primitive function by another name, called for what the program returns:
calls and returns do not keep a program from ending, only function definitions
could. -/
theorem evaluate_renamed_halts :
    let program := Tree.sequence [.constantDeclaration "not" (.name "!"),
      .conditionalStatement (.application (.name "not") [.atom (.bool false)])
        (.block (.returnStatement (.name "not"))) (.sequence [])]
    program.Functionless ∧ ∃ steps, ∀ settings,
      (∃ p, evaluate steps settings program = .done p) ∨
        ∃ cause, evaluate steps settings program = .failed cause ∧ cause.Expected program.Composed := by
  intro program
  have functionless : program.Functionless := by
    simp [program, Tree.Functionless, Tree.sequence, Tree.constantDeclaration, Tree.conditionalStatement,
      Tree.application, Tree.block, Tree.returnStatement, Tree.name, Tree.tagged, Tree.ofList]
  exact ⟨functionless, evaluate_halts program functionless⟩

end Evaluator

end ExplicitControl
