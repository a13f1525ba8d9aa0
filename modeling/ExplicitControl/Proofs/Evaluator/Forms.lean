import ExplicitControl.Proofs.Evaluator.Calls
import ExplicitControl.Proofs.Evaluator.Lookup

namespace ExplicitControl.Evaluator

open Interpreter

variable {layout : Layout}

/-- What an evaluation leaves: a value in a later world, everything saved
before, and the position to go on at. -/
inductive Gained (w : World layout) (trail : List Mark) (label : Nat) :
    Value → Store → Config → Nat → Prop
  | intro {value : Value} {w' : World layout} {p : Pointer} {r : Nat → Contents} {flag : Bool} :
      w.Extends w' → w'.picture.Depicts layout value p → r Listing.val = .pointer p →
      Gained w trail label value w'.store ⟨r, trail, w'.heap, flag⟩ label

/-- The registers before an evaluation. -/
structure Poised (w : World layout) (node : Node) (environment : List Frame) (label : Nat)
    (r : Nat → Contents) : Prop where
  placed : node.Placed layout.program layout.locate
  exp : r Listing.exp = .pointer (node.point layout.locate)
  env : ∃ e, r Listing.env = .pointer e ∧ w.picture.Environment layout environment e
  cont : r Listing.cont = .label label

/-- The evaluator goes along with an interpreter: entered with any node, in
any world and with anything on its trail, it comes to the label where it is to
go on with the value that the interpreter has, shows the same mistake, or
takes at least `n` steps where the interpreter was not let go deep enough. -/
def Simulates (layout : Layout) (n : Nat) (evaluate : Evaluation) : Prop :=
  ∀ (w : World layout) (node : Node) (environment : List Frame) (label : Nat) (r : Nat → Contents)
    (trail : List Mark) (flag : Bool), Poised w node environment label r →
    Leads layout n Label.evalDispatch.code ⟨r, trail, w.heap, flag⟩ (Gained w trail label)
      (evaluate node environment w.store)

variable {n : Nat} {evaluate : Evaluation} {w w' : World layout} {node : Node} {environment : List Frame}
  {label : Nat} {r : Nat → Contents} {trail : List Mark} {flag : Bool}

theorem Gained.earlier {value : Value} {store : Store} {c : Config} {position : Nat} (grows : w.Extends w')
    (gained : Gained w' trail label value store c position) :
    Gained w trail label value store c position := by
  obtain ⟨grows', depicts, val⟩ := gained
  exact ⟨grows.trans grows', depicts, val⟩

/-- An expression whose value is that of one of its parts. The part is
evaluated with the same label to go on at, and nothing is saved for it. -/
theorem Simulates.tail (simulates : Simulates layout n evaluate) (grows : w.Extends w')
    (poised : Poised w' node environment label r) :
    Leads layout n Label.evalDispatch.code ⟨r, trail, w'.heap, flag⟩ (Gained w trail label)
      (evaluate node environment w'.store) :=
  (simulates _ _ _ _ _ _ _ poised).imp fun _ _ _ _ gained => gained.earlier grows

theorem LeadsFrom.of_code {α : Type} {c : Config} {codes : List Code}
    {post : α → Store → Config → Nat → Prop} {result : EStateM.Result Halt Store α}
    (follows : Follows label codes) (leads : Leads layout n codes c post result) :
    LeadsFrom layout n label c post result :=
  leads label follows

theorem cell_eq {location : Nat} {store : Store} {content : Cell}
    (found : store.cells[location]? = some content) :
    Interpretation.cell location store = .ok content store := by
  simp only [Interpretation.cell, List.getD_eq_getElem?_getD, found, Option.getD_some]

theorem isNull_flag {flag : Flag} (declared : flag ≠ .uninitialised) : flag.pointer.isNull = false := by
  cases flag with
  | uninitialised => exact absurd rfl declared
  | constant => rfl
  | mutable => rfl

/-- A value that must be a truth value, or is reported as none. -/
theorem truth_leads {α : Type} {codes : List Code} {target : Nat} {value : Value} {p : Pointer}
    {store : Store} {f : Bool → Interpretation α} {post : α → Store → Config → Nat → Prop}
    (depicts : w.picture.Depicts layout value p) (held : r Listing.val = .pointer p)
    (follows : Follows target codes)
    (next : ∀ b, p = .bool b → Leads layout n codes ⟨r, trail, w.heap, true⟩ post (f b store)) :
    Leads layout n
      [ask (.isKind .boolean) [Listing.val], .branch target, .goto Label.nonBooleanPredicate.position]
      ⟨r, trail, w.heap, flag⟩ post ((Interpreter.truth value >>= f) store) := by
  refine .ask (.cons held .nil) (.isKind _ _ _) ?_
  have fails (other : PointerKind.boolean.test p = false) :
      Leads layout n [.branch target, .goto Label.nonBooleanPredicate.position]
        ⟨r, trail, w.heap, PointerKind.boolean.test p⟩ post
        (.error (.mistake (.nonBooleanPredicate value)) store) := by
    refine .branch_passed other (.goto ?_ (Label.follows .nonBooleanPredicate))
    exact .act_fails (.cons held .nil) (.signal fun _ _ => .nonBooleanPredicate depicts.outlines)
  cases depicts with
  | scalar value =>
    cases value with
    | bool b => exact .branch_taken rfl follows (next b rfl)
    | _ => exact fails rfl
  | _ => exact fails rfl

/-- A value that may be a return value, which then ends what it was met in. -/
theorem returned_leads {α : Type} {codes codes' : List Code} {target : Nat} {value : Value} {p : Pointer}
    {store : Store} {f : Nat → Value → Interpretation α} {g : Value → Interpretation α}
    {post : α → Store → Config → Nat → Prop}
    (depicts : w.picture.Depicts layout value p) (held : r Listing.val = .pointer p)
    (follows : Follows target codes')
    (returned : ∀ identity content, w.picture.Depicts layout (.returned identity content) p →
      Leads layout n codes' ⟨r, trail, w.heap, true⟩ post (f identity content store))
    (plain : Leads layout n codes ⟨r, trail, w.heap, false⟩ post (g value store)) :
    Leads layout n (ask (.isTagged .returnValue) [Listing.val] :: .branch target :: codes)
      ⟨r, trail, w.heap, flag⟩ post
      ((match value with | .returned identity content => f identity content | other => g other) store) := by
  refine .ask (.cons held .nil) (isTagged_yields depicts .returnValue) ?_
  cases value with
  | returned identity content => exact .branch_taken rfl follows (returned identity content depicts)
  | _ => exact .branch_passed rfl plain

section

variable (poised : Poised w node environment label r)
include poised

/-- A name is looked up frame by frame, and its cell must have been
initialized. -/
theorem name_leads :
    Leads layout n Label.name.code ⟨r, trail, w.heap, flag⟩ (Gained w trail label)
      (Interpreter.name node environment w.store) := by
  obtain ⟨placed, expHeld, ⟨e, envHeld, depicts⟩, contHeld⟩ := poised
  refine .read nofun expHeld (selects_part placed .nameSymbol) fun symbol _ => ?_
  refine .assignRegister (.assignLabel (.goto ?_ (Label.follows_next .findBinding .scan rfl)))
  refine Leads.bind (findBinding_leads (by rfl) (by rfl) depicts (by exact envHeld) w.store) ?_
  rintro location _ _ _ ⟨rfl, rfl, cell, r', flag, rfl, isCell, searched, res⟩
  refine .of_code (Label.follows .nameFound) ?_
  obtain ⟨content, p, found, shown, held⟩ := w.fits.cells location cell isCell
  refine .computed (cell_eq found) (.put nofun (.cons res .nil) (.tail held) ?_)
  refine .ask (.cons rfl .nil) (.isNull _ _) ?_
  by_cases undeclared : content.flag = .uninitialised
  · rw [if_pos undeclared, undeclared]
    refine .branch_taken rfl (Label.follows .useBeforeDeclaration) ?_
    exact .act_fails (.cons searched.a .nil) (.signal fun _ _ => .useBeforeDeclaration symbol)
  · rw [if_neg undeclared]
    refine .branch_passed (isNull_flag undeclared) ?_
    refine .put nofun (.cons res .nil) (.head held) (.gotoRegister (searched.cont.trans contHeld) ?_)
    exact .ok (.refl _ _) ⟨.refl w, shown, rfl⟩

theorem functionDefinition_leads :
    Leads layout n Label.functionDefinition.code ⟨r, trail, w.heap, flag⟩ (Gained w trail label)
      (Interpreter.functionDefinition node environment w.store) := by
  obtain ⟨placed, expHeld, ⟨e, envHeld, depicts⟩, contHeld⟩ := poised
  refine .read nofun expHeld (selects_part placed .functionParameters) fun parameters parametersPlaced => ?_
  refine .read nofun expHeld (selects_part placed .functionBody) fun body bodyPlaced => ?_
  obtain ⟨p, w', yields, grows, shown, store⟩ := makeCompound_yields parametersPlaced bodyPlaced depicts
  refine .put nofun (.cons rfl (.cons rfl (.cons envHeld .nil))) yields (.gotoRegister contHeld ?_)
  exact .ok (.refl _ _) (store ▸ ⟨grows, shown, rfl⟩)

theorem block_leads (simulates : Simulates layout n evaluate) :
    Leads layout n Label.block.code ⟨r, trail, w.heap, flag⟩ (Gained w trail label)
      (Interpreter.block evaluate node environment w.store) := by
  obtain ⟨placed, expHeld, ⟨e, envHeld, depicts⟩, contHeld⟩ := poised
  refine .read nofun expHeld (selects_part placed .blockBody) fun body bodyPlaced => ?_
  cases names : body.declaredNames with
  | error m =>
    exact .put_fails (.cons rfl (.cons envHeld .nil)) (extendBlock_declines bodyPlaced names e w.heap)
  | ok names =>
    obtain ⟨p, w₁, extended, yields, grows, opened, depicts'⟩ := extendBlock_yields bodyPlaced names depicts
    refine .computed rfl (.computed opened (.put nofun (.cons rfl (.cons envHeld .nil)) yields ?_))
    refine .goto ?_ (Label.follows .evalDispatch)
    exact simulates.tail grows ⟨bodyPlaced, rfl, ⟨p, rfl, depicts'⟩, contHeld⟩

theorem returnStatement_leads (simulates : Simulates layout n evaluate) :
    Leads layout n Label.return.code ⟨r, trail, w.heap, flag⟩ (Gained w trail label)
      (Interpreter.returnStatement evaluate node environment w.store) := by
  obtain ⟨placed, expHeld, ⟨e, envHeld, depicts⟩, contHeld⟩ := poised
  refine .save (.read nofun expHeld (selects_part placed .returnExpression) fun part partPlaced => ?_)
  refine .assignLabel (.goto ?_ (Label.follows .evalDispatch))
  refine Leads.bind (simulates _ _ _ _ _ _ _ ⟨partPlaced, rfl, ⟨e, envHeld, depicts⟩, rfl⟩) ?_
  rintro content _ _ _ ⟨grows, shown, val⟩
  refine .of_code (Label.follows .returnWrap) (.restore ?_)
  obtain ⟨q, w₂, yields, grows', shown', store⟩ := makeReturn_yields shown
  refine .put nofun (.cons val .nil) yields (.gotoRegister contHeld ?_)
  exact .ok (.refl _ _) (store ▸ ⟨grows.trans grows', shown', rfl⟩)

theorem declaration_leads (simulates : Simulates layout n evaluate) {kind : Flag}
    (kindHeld : r Listing.unev = .pointer kind.pointer) :
    Leads layout n Label.declaration.code ⟨r, trail, w.heap, flag⟩ (Gained w trail label)
      (Interpreter.declaration kind evaluate node environment w.store) := by
  obtain ⟨placed, expHeld, ⟨e, envHeld, depicts⟩, contHeld⟩ := poised
  refine .save (.save (.save (.save ?_)))
  refine .read nofun expHeld (selects_part placed .declarationValue) fun part partPlaced => ?_
  refine .assignLabel (.goto ?_ (Label.follows .evalDispatch))
  refine Leads.bind (simulates _ _ _ _ _ _ _ ⟨partPlaced, rfl, ⟨e, envHeld, depicts⟩, rfl⟩) ?_
  rintro value _ _ _ ⟨grows, shown, val⟩
  refine .of_code (Label.follows .declarationBind) (.restore (.restore (.restore (.restore ?_))))
  refine .read nofun expHeld (selects_declarationSymbol placed) fun symbol _ => ?_
  refine .assignRegister (.assignLabel (.goto ?_ (Label.follows_next .findBinding .scan rfl)))
  refine Leads.bind (findBinding_leads (by rfl) (by rfl) (depicts.mono grows.picture) (by exact envHeld) _) ?_
  rintro location _ _ _ ⟨rfl, rfl, cell, r', flag, rfl, isCell, searched, res⟩
  refine .of_code (Label.follows .declarationFound) ?_
  obtain ⟨content, p, found, _, held⟩ := World.fits _ |>.cells location cell isCell
  refine .act (.cons res (.cons (searched.val.trans val) .nil)) (.setHead held _) ?_
  refine .act (.cons res (.cons (searched.unev.trans kindHeld) .nil))
    (.setTail (List.getElem?_set_self (World.cell_lt isCell).1) _) ?_
  rw [List.set_set]
  refine .assignConstant (.gotoRegister (searched.cont.trans contHeld) ?_)
  exact .ok (.refl _ _) ⟨grows.trans (World.assign_extends isCell ⟨value, kind⟩ shown), .scalar _, rfl⟩

theorem constantDeclaration_leads (simulates : Simulates layout n evaluate) :
    Leads layout n Label.constantDeclaration.code ⟨r, trail, w.heap, flag⟩ (Gained w trail label)
      (Interpreter.declaration .constant evaluate node environment w.store) := by
  obtain ⟨placed, expHeld, envHeld, contHeld⟩ := poised
  refine .assignConstant (.goto ?_ (Label.follows .declaration))
  exact declaration_leads (by exact ⟨placed, expHeld, envHeld, contHeld⟩) simulates (by rfl)

theorem variableDeclaration_leads (simulates : Simulates layout n evaluate) :
    Leads layout n (Label.variableDeclaration.code ++ Label.declaration.code) ⟨r, trail, w.heap, flag⟩
      (Gained w trail label) (Interpreter.declaration .mutable evaluate node environment w.store) := by
  obtain ⟨placed, expHeld, envHeld, contHeld⟩ := poised
  refine .assignConstant ?_
  exact declaration_leads (by exact ⟨placed, expHeld, envHeld, contHeld⟩) simulates (by rfl)

theorem assignment_leads (simulates : Simulates layout n evaluate) :
    Leads layout n Label.assignment.code ⟨r, trail, w.heap, flag⟩ (Gained w trail label)
      (Interpreter.assignment evaluate node environment w.store) := by
  obtain ⟨placed, expHeld, ⟨e, envHeld, depicts⟩, contHeld⟩ := poised
  refine .save (.save (.save ?_))
  refine .read nofun expHeld (selects_part placed .declarationValue) fun part partPlaced => ?_
  refine .assignLabel (.goto ?_ (Label.follows .evalDispatch))
  refine Leads.bind (simulates _ _ _ _ _ _ _ ⟨partPlaced, rfl, ⟨e, envHeld, depicts⟩, rfl⟩) ?_
  rintro value _ _ _ ⟨grows, shown, val⟩
  refine .of_code (Label.follows .assignmentBind) (.restore (.restore (.restore ?_)))
  refine .read nofun expHeld (selects_declarationSymbol placed) fun symbol _ => ?_
  refine .assignRegister (.assignLabel (.goto ?_ (Label.follows_next .findBinding .scan rfl)))
  refine Leads.bind (findBinding_leads (by rfl) (by rfl) (depicts.mono grows.picture) (by exact envHeld) _) ?_
  rintro location _ _ _ ⟨rfl, rfl, cell, r', flag, rfl, isCell, searched, res⟩
  refine .of_code (Label.follows .assignmentFound) ?_
  obtain ⟨⟨content, kind⟩, p, found, _, held⟩ := World.fits _ |>.cells location cell isCell
  refine .computed (cell_eq found) (.put nofun (.cons res .nil) (.tail held) ?_)
  refine .ask (.cons rfl .nil) (.isNull _ _) ?_
  cases kind with
  | uninitialised =>
    refine .branch_taken rfl (Label.follows .useBeforeDeclaration) ?_
    exact .act_fails (.cons searched.a .nil) (.signal fun _ _ => .useBeforeDeclaration symbol)
  | constant =>
    refine .branch_passed rfl (.ask (.cons rfl (.cons rfl .nil)) (.identical _ _ _) ?_)
    refine .branch_taken rfl (Label.follows .assignToConstant) ?_
    exact .act_fails (.cons searched.a .nil) (.signal fun _ _ => .assignToConstant symbol)
  | mutable =>
    refine .branch_passed rfl (.ask (.cons rfl (.cons rfl .nil)) (.identical _ _ _) ?_)
    refine .branch_passed rfl (.act (.cons res (.cons (searched.val.trans val) .nil)) (.setHead held _) ?_)
    refine .gotoRegister (searched.cont.trans contHeld) (.ok (.refl _ _) ?_)
    exact ⟨grows.trans (World.assign_extends isCell ⟨value, .mutable⟩ shown), shown, searched.val.trans val⟩

/-- A conditional evaluates its predicate and then one of its branches, which
stands where the conditional stands. -/
theorem conditional_leads (simulates : Simulates layout n evaluate) :
    Leads layout n Label.conditional.code ⟨r, trail, w.heap, flag⟩ (Gained w trail label)
      (Interpreter.conditional evaluate node environment w.store) := by
  obtain ⟨placed, expHeld, ⟨e, envHeld, depicts⟩, contHeld⟩ := poised
  refine .save (.save (.save (.assignLabel ?_)))
  refine .read nofun expHeld (selects_part placed .conditionalPredicate) fun predicate predicatePlaced => ?_
  refine .goto ?_ (Label.follows .evalDispatch)
  refine Leads.bind (simulates _ _ _ _ _ _ _ ⟨predicatePlaced, rfl, ⟨e, envHeld, depicts⟩, rfl⟩) ?_
  rintro value _ _ _ ⟨grows, shown, val⟩
  refine .of_code (Label.follows .conditionalDecide) (.restore (.restore (.restore ?_)))
  refine truth_leads shown val (Label.follows .conditionalChoose) ?_
  rintro chosen rfl
  refine .ask (.cons val (.cons rfl .nil)) (.identical _ _ _) ?_
  have depicts' := depicts.mono grows.picture
  cases chosen with
  | true =>
    refine .branch_taken rfl (Label.follows .conditionalConsequent) ?_
    refine .read nofun expHeld (selects_part placed .conditionalConsequent) fun branch branchPlaced => ?_
    refine .goto ?_ (Label.follows .evalDispatch)
    exact simulates.tail grows ⟨branchPlaced, rfl, ⟨e, envHeld, depicts'⟩, contHeld⟩
  | false =>
    refine .branch_passed rfl ?_
    refine .read nofun expHeld (selects_part placed .conditionalAlternative) fun branch branchPlaced => ?_
    refine .goto ?_ (Label.follows .evalDispatch)
    exact simulates.tail grows ⟨branchPlaced, rfl, ⟨e, envHeld, depicts'⟩, contHeld⟩

theorem booleanOperation_leads (simulates : Simulates layout n evaluate) :
    Leads layout n Label.booleanOperation.code ⟨r, trail, w.heap, flag⟩ (Gained w trail label)
      (Interpreter.booleanOperation evaluate node environment w.store) := by
  obtain ⟨placed, expHeld, ⟨e, envHeld, depicts⟩, contHeld⟩ := poised
  refine .save (.save (.save (.assignLabel ?_)))
  refine .read nofun expHeld (selects_operand placed .booleanFirst 0 fun _ => rfl) fun operand operandPlaced => ?_
  refine .goto ?_ (Label.follows .evalDispatch)
  refine Leads.bind (simulates _ _ _ _ _ _ _ ⟨operandPlaced, rfl, ⟨e, envHeld, depicts⟩, rfl⟩) ?_
  rintro value _ _ _ ⟨grows, shown, val⟩
  refine .of_code (Label.follows .booleanDecide) (.restore (.restore (.restore ?_)))
  refine truth_leads shown val (Label.follows .booleanCheck) ?_
  rintro first rfl
  refine .read nofun expHeld (selects_settlingValue placed) fun settling _ => ?_
  refine .ask (.cons val (.cons rfl .nil)) (.identical _ _ _) ?_
  have same : (Pointer.bool first == .bool settling) = (first == settling) := by
    cases first <;> cases settling <;> rfl
  rw [same]
  by_cases settled : first = settling
  · rw [if_pos settled]
    refine .branch_taken (beq_iff_eq.mpr settled) (Label.follows .booleanShortCircuit) ?_
    exact .gotoRegister contHeld (.ok (.refl _ _) ⟨grows, .scalar _, val⟩)
  · rw [if_neg settled]
    refine .branch_passed (beq_eq_false_iff_ne.mpr settled) ?_
    refine .read nofun expHeld (selects_operand placed .booleanSecond 1 fun _ => rfl) fun operand operandPlaced => ?_
    refine .goto ?_ (Label.follows .evalDispatch)
    exact simulates.tail grows ⟨operandPlaced, rfl, ⟨e, envHeld, depicts.mono grows.picture⟩, contHeld⟩

end

/-- The statements of a sequence one by one, with the place to go on at saved.
A return value ends the sequence early. -/
theorem statements_leads (simulates : Simulates layout n evaluate) {list : Node}
    (placed : list.Placed layout.program layout.locate)
    (unev : r Listing.unev = .pointer (list.point layout.locate)) {e : Pointer}
    (envHeld : r Listing.env = .pointer e) (depicts : w.picture.Environment layout environment e) :
    Leads layout n Label.sequenceLoop.code ⟨r, .saved Listing.cont (.label label) :: trail, w.heap, flag⟩
      (Gained w trail label)
      (Interpreter.statements evaluate environment list w.store) := by
  induction list generalizing w r flag with
  | leaf value => exact .put_fails (.cons unev .nil) (selects_programHead placed _)
  | pair place first rest _ ih =>
    have ⟨firstPlaced, putFirst⟩ := selects_programHead placed w.heap
    have ⟨restPlaced, putRest⟩ := selects_programTail placed w.heap
    refine .put nofun (.cons unev .nil) putFirst (.put nofun (.cons unev .nil) putRest ?_)
    refine .ask (.cons rfl .nil) (.isNull _ _) ?_
    rw [Node.point_isNull, Interpreter.statements]
    cases rest.isNull with
    | true =>
      refine .branch_taken rfl (Label.follows .sequenceLast) (.restore (.goto ?_ (Label.follows .evalDispatch)))
      exact simulates _ _ _ _ _ _ _ ⟨firstPlaced, rfl, ⟨e, envHeld, depicts⟩, rfl⟩
    | false =>
      refine .branch_passed rfl (.save (.save (.assignLabel (.goto ?_ (Label.follows .evalDispatch)))))
      refine Leads.bind (simulates _ _ _ _ _ _ _ ⟨firstPlaced, rfl, ⟨e, envHeld, depicts⟩, rfl⟩) ?_
      rintro value _ _ _ ⟨grows, shown, val⟩
      refine .of_code (Label.follows .sequenceNext) (.restore (.restore ?_))
      refine returned_leads shown val (Label.follows .sequenceReturn) ?_ ?_
      · intro identity content returned
        refine .restore (.gotoRegister rfl (.ok (.refl _ _) ⟨grows, returned, val⟩))
      · refine .put nofun (.cons unev .nil) (selects_programTail placed _).2 (.goto ?_ (Label.follows .sequenceLoop))
        refine Leads.imp (ih restPlaced (by rfl) (by exact envHeld) (depicts.mono grows.picture)) ?_
        exact fun _ _ _ _ gained => gained.earlier grows

theorem sequence_leads (poised : Poised w node environment label r) (simulates : Simulates layout n evaluate) :
    Leads layout n (Label.sequence.code ++ Label.sequenceLoop.code) ⟨r, trail, w.heap, flag⟩
      (Gained w trail label) (Interpreter.sequence evaluate node environment w.store) := by
  obtain ⟨placed, expHeld, ⟨e, envHeld, depicts⟩, contHeld⟩ := poised
  refine .read nofun expHeld (selects_part placed .sequenceStatements) fun list listPlaced => ?_
  refine .ask (.cons rfl .nil) (.isNull _ _) ?_
  rw [Node.point_isNull]
  cases list.isNull with
  | true =>
    refine .branch_taken rfl (Label.follows .sequenceEmpty) (.assignConstant (.gotoRegister contHeld ?_))
    exact .ok (.refl _ _) ⟨.refl w, .scalar _, rfl⟩
  | false =>
    refine .branch_passed rfl (.saveHeld contHeld ?_)
    exact statements_leads simulates listPlaced rfl envHeld depicts

end ExplicitControl.Evaluator
