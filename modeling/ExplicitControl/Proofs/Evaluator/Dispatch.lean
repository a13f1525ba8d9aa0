import ExplicitControl.Proofs.Evaluator.Application

namespace ExplicitControl.Evaluator

open Interpreter

variable {layout : Layout} {n : Nat} {evaluate : Evaluation} {w : World layout} {node : Node}
  {environment : List Frame} {label : Nat} {r : Nat → Contents} {trail : List Mark} {flag : Bool}

/-- Forms are tried in order, and none but the right one is taken for it,
since forms have different texts. -/
theorem tests_leads {α : Type} {post : α → Store → Config → Nat → Prop}
    {result : EStateM.Result Halt Store α} {heap : Cells} {codes : List Code} {text : String}
    (held : r Listing.e = .pointer (.string text)) {kinds : List ExpressionKind}
    (found : ∀ kind flag, kind.text = text →
      LeadsFrom layout n (Label.handler kind).position ⟨r, trail, heap, flag⟩ post result)
    (missing : ∀ flag, (∀ kind ∈ kinds, kind.text ≠ text) →
      Leads layout n codes ⟨r, trail, heap, flag⟩ post result) :
    Leads layout n (Label.tests kinds ++ codes) ⟨r, trail, heap, flag⟩ post result := by
  induction kinds generalizing flag with
  | nil => exact missing flag (by simp)
  | cons kind kinds ih =>
    refine .ask (.cons held (.cons rfl .nil)) (.identical _ _ _) ?_
    have tested : (Pointer.string text == .string kind.text) = (text == kind.text) := rfl
    rw [tested]
    by_cases same : kind.text = text
    · exact .branch (beq_iff_eq.mpr same.symm) (found kind _ same)
    · refine .branch_passed (beq_eq_false_iff_ne.mpr (Ne.symm same)) (ih fun flag others => ?_)
      refine missing flag ?_
      simpa [same] using others

theorem kind_text_inj {one other : ExpressionKind} (same : one.text = other.text) : one = other := by
  cases one <;> cases other <;> first | rfl | exact absurd same (by decide)

theorem selfEvaluating_of_kind {place : List Bool} {head tail : Node} :
    (Node.pair place head tail).kind ≠ some .selfEvaluating := by
  intro kind
  cases head with
  | pair => cases kind
  | leaf value =>
    cases value with
    | string tag => exact absurd (List.find?_some kind) (by simp [ExpressionKind.tags])
    | _ => cases kind

theorem unknownExpression_leads {place : List Bool} {head tail : Node} {store : Store}
    {post : Value → Store → Config → Nat → Prop}
    (placed : (Node.pair place head tail).Placed layout.program layout.locate)
    (expHeld : r Listing.exp = .pointer ((Node.pair place head tail).point layout.locate)) :
    Leads layout n Label.unknownExpression.code ⟨r, trail, w.heap, flag⟩ post
      (.error (.mistake (.unknownExpression head)) store) := by
  refine .act_fails (.cons expHeld .nil) (.signal fun memory bears => ?_)
  rw [← bears.program] at placed
  have read := programHead_reads placed
  simp only [Signal.error]
  generalize memory.programHead _ = outcome at read ⊢
  cases read with | ok found => exact found.1 ▸ .unknownExpression head

/-- From the label that a form is handled at, the evaluator goes along with
the interpreter. -/
theorem handler_leads (simulates : Simulates layout n evaluate) (poised : Poised w node environment label r)
    {kind : ExpressionKind} (isKind : node.kind = some kind) :
    LeadsFrom layout n (Label.handler kind).position ⟨r, trail, w.heap, flag⟩ (Gained w trail label)
      (expression evaluate node environment w.store) := by
  cases node with
  | leaf value =>
    cases isKind
    refine .of_code (Label.follows .selfEval) (.assignRegister (.gotoRegister poised.cont ?_))
    exact .ok (.refl _ _) ⟨.refl w, .scalar value, poised.exp⟩
  | pair place head tail =>
    unfold expression
    rw [isKind]
    cases kind with
    | selfEvaluating => exact absurd isKind selfEvaluating_of_kind
    | name => exact .of_code (Label.follows .name) (name_leads poised)
    | constantDeclaration =>
      exact .of_code (Label.follows .constantDeclaration) (constantDeclaration_leads poised simulates)
    | variableDeclaration =>
      exact .of_code (Label.follows_next .variableDeclaration .declaration rfl)
        (variableDeclaration_leads poised simulates)
    | assignment => exact .of_code (Label.follows .assignment) (assignment_leads poised simulates)
    | conditional => exact .of_code (Label.follows .conditional) (conditional_leads poised simulates)
    | functionDefinition => exact .of_code (Label.follows .functionDefinition) (functionDefinition_leads poised)
    | sequence =>
      exact .of_code (Label.follows_next .sequence .sequenceLoop rfl) (sequence_leads poised simulates)
    | application => exact .of_code (Label.follows .application) (application_leads poised simulates)
    | returnStatement => exact .of_code (Label.follows .return) (returnStatement_leads poised simulates)
    | block => exact .of_code (Label.follows .block) (block_leads poised simulates)
    | booleanOperation =>
      exact .of_code (Label.follows .booleanOperation) (booleanOperation_leads poised simulates)

/-- From where an expression has been entered, the evaluator goes along with
the interpreter, whatever form it has or if it has none. -/
theorem entered_leads (simulates : Simulates layout n evaluate) (poised : Poised w node environment label r) :
    Leads layout (n + 1) Label.evalDispatch.code ⟨r, trail, w.heap, flag⟩
      (Gained w (.entered label (r Listing.exp) (r Listing.env) :: trail) label)
      (expression evaluate node environment w.store) := by
  have read := yields_expressionKind poised.placed w.heap
  have supplies : Config.Supplies ⟨r, trail, w.heap, flag⟩ [.register Listing.exp] [node.point layout.locate] :=
    .cons poised.exp .nil
  refine Leads.step ?_ (.enter poised.cont) fun _ here => (Reaches.put supplies read (by decide) here).marked
  have poised' (value : Contents) : Poised w node environment label (write r Listing.e value) :=
    ⟨poised.placed, poised.exp, poised.env, poised.cont⟩
  cases isKind : node.kind with
  | some kind =>
    refine tests_leads (by rfl) ?_ ?_
    · intro kind' flag same
      obtain rfl := kind_text_inj same
      exact handler_leads simulates (poised' _) isKind
    · intro flag others
      exact absurd rfl (others kind (by cases kind <;> decide))
  | none =>
    refine tests_leads (by rfl) ?_ ?_
    · intro kind flag same
      exact absurd same (by cases kind <;> decide)
    · intro flag _
      refine .goto ?_ (Label.follows .unknownExpression)
      cases node with
      | leaf value => cases isKind
      | pair place head tail =>
        unfold expression
        rw [isKind]
        exact unknownExpression_leads poised.placed poised.exp

/-- An expression takes a step more than its parts, and is left where it was
to go on. -/
theorem expression_simulates (simulates : Simulates layout n evaluate) :
    Simulates layout (n + 1) (expression evaluate) := by
  intro w node environment label r trail flag poised position follows
  refine (entered_leads simulates poised position follows).imp ?_
  rintro value _ _ _ ⟨grows, shown, val⟩
  exact ⟨_, .left (.refl _ _), grows, shown, val⟩

/-- The evaluator goes along with the interpreter, however deep it is let go:
by induction on the depth, with one lemma for each form. -/
theorem eval_simulates (layout : Layout) (fuel : Nat) : Simulates layout fuel (eval fuel) := by
  induction fuel with
  | zero =>
    intro w node environment label r trail flag _ position _
    exact .unfinished (.refl _ _) (Nat.zero_le _)
  | succ fuel ih => exact expression_simulates ih

end ExplicitControl.Evaluator
