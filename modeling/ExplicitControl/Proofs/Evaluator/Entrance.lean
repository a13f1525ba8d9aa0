import ExplicitControl.Proofs.Evaluator.Dispatch

namespace ExplicitControl.Evaluator

open Interpreter

variable {layout : Layout} {n : Nat} {evaluate : Evaluation} {r : Nat → Contents}
  {heap : Cells} {flag : Bool}

theorem programRoot_yields {root : Pointer} (held : layout.program.root = some root) (cells : Cells) :
    Yields layout .programRoot [] cells root cells := by
  refine .read (by simp) rfl fun memory bears => ?_
  simp only [bears.program, held]

/-- A program from the first instruction to the end: the evaluator sets up the
environment, goes along with the interpreter, opens a return value at the top
level, and comes behind the last instruction with an empty stack. -/
theorem program_leads (simulates : Simulates layout n evaluate) {root : Node}
    (placed : root.Placed layout.program layout.locate)
    (held : layout.program.root = some (root.point layout.locate)) :
    Leads layout n (Label.entrance.code ++ Label.evalDispatch.code) ⟨r, [], [], flag⟩
      (Gained (World.blank layout) [] Label.done.position) (program evaluate root {}) := by
  obtain ⟨p, w, first, yields, grows, opened, depicts⟩ := globalEnvironment_yields layout
  refine .clearStack (.put nofun .nil (programRoot_yields held _) (.put nofun .nil yields (.computed opened ?_)))
  cases names : root.declaredNames with
  | error m => exact .put_fails (.cons rfl (.cons rfl .nil)) (extendBlock_declines placed names p w.heap)
  | ok names =>
    obtain ⟨q, w₁, extended, yields₁, grows₁, opened₁, depicts₁⟩ := extendBlock_yields placed names depicts
    refine .computed rfl (.computed opened₁ (.put nofun (.cons rfl (.cons rfl .nil)) yields₁ (.assignLabel ?_)))
    refine Leads.bind (simulates _ _ _ _ _ _ _ ⟨placed, rfl, ⟨q, rfl, depicts₁⟩, rfl⟩) ?_
    rintro value _ _ _ ⟨grows₂, shown, val⟩
    have later := grows.trans (grows₁.trans grows₂)
    refine .of_code (Label.follows .topLevelDone) ?_
    refine returned_leads shown val (Label.follows .topLevelReturn) ?_ ?_
    · rintro identity content (_ | _ | _ | ⟨_, held, inside⟩)
      refine .put nofun (.cons val .nil) (.returnContent (World.fits _ |>.holds _ _ _ held)) (.leave ?_)
      exact .ok (.refl _ _) ⟨later, inside, rfl⟩
    · exact .leave (.ok (.refl _ _) ⟨later, shown, val⟩)

end ExplicitControl.Evaluator
