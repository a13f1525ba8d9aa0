import ExplicitControl.Proofs.Evaluator.Forms

namespace ExplicitControl.Evaluator

open Interpreter

variable {layout : Layout} {n : Nat} {evaluate : Evaluation} {w w' : World layout} {node : Node}
  {environment : List Frame} {label base : Nat} {r : Nat → Contents} {trail : List Mark} {flag : Bool}
  {function : Value} {values : List Value} {p q : Pointer}

/-- A call, with the place to go on at saved. The body of a closure is
evaluated in the frame that the call opens, and a return value is opened where
the call ends. -/
theorem call_leads (simulates : Simulates layout n evaluate)
    (depicts : w.picture.Depicts layout function p) (arguments : w.Arguments base values q)
    (fnHeld : r Listing.fn = .pointer p) (arglHeld : r Listing.argl = .pointer q) :
    Leads layout n Label.applyDispatch.code ⟨r, .saved Listing.cont (.label label) :: trail, w.heap, flag⟩
      (Gained w trail label)
      (Interpreter.call evaluate function values w.store) := by
  have unknown (other : valueTag function ≠ some .primitive) (other' : valueTag function ≠ some .compound) :
      Leads layout n Label.applyDispatch.code ⟨r, .saved Listing.cont (.label label) :: trail, w.heap, flag⟩
      (Gained w trail label)
        (.error (.mistake (.unknownFunction function)) w.store) := by
    refine .ask (.cons fnHeld .nil) (isTagged_yields depicts .primitive) ?_
    refine .branch_passed (decide_eq_false other) ?_
    refine .ask (.cons fnHeld .nil) (isTagged_yields depicts .compound) ?_
    refine .branch_passed (decide_eq_false other') (.goto ?_ (Label.follows .unknownFunction))
    exact .act_fails (.cons fnHeld .nil) (.signal fun _ _ => .unknownFunction depicts.outlines)
  cases function with
  | builtin function =>
    refine .ask (.cons fnHeld .nil) (isTagged_yields depicts .primitive) ?_
    refine .branch_taken rfl (Label.follows .primitiveApply) ?_
    cases applied : function.apply values with
    | ok value =>
      obtain ⟨p', shown, yields⟩ := applyPrimitive_yields depicts arguments applied
      have called : Interpreter.call evaluate (.builtin function) values w.store = .ok value w.store := by
        simp only [Interpreter.call, applied]
        rfl
      rw [called]
      refine .put nofun (.cons fnHeld (.cons arglHeld .nil)) yields (.restore (.gotoRegister rfl ?_))
      exact .ok (.refl _ _) ⟨.refl w, shown, rfl⟩
    | error m =>
      have called : Interpreter.call evaluate (.builtin function) values w.store
          = .error (.mistake m) w.store := by
        simp only [Interpreter.call, applied]
        rfl
      rw [called]
      exact .put_fails (.cons fnHeld (.cons arglHeld .nil)) (applyPrimitive_declines depicts arguments applied)
  | closure count parameters body inner =>
    refine .ask (.cons fnHeld .nil) (isTagged_yields depicts .primitive) (.branch_passed rfl ?_)
    refine .ask (.cons fnHeld .nil) (isTagged_yields depicts .compound) ?_
    refine .branch_taken rfl (Label.follows .compoundApply) ?_
    rw [Interpreter.call]
    cases names : callNames parameters body values.length with
    | error m =>
      exact .put_fails (.cons fnHeld (.cons arglHeld .nil)) (extendCall_declines depicts names arguments)
    | ok found =>
      obtain ⟨names, locals⟩ := found
      obtain ⟨p', w₁, extended, yields, grows, opened, env⟩ := extendCall_yields depicts names arguments
      have depicts' := depicts.mono grows.picture
      refine .computed rfl (.computed opened (.put nofun (.cons fnHeld (.cons arglHeld .nil)) yields ?_))
      refine .put nofun (.cons fnHeld .nil) (compoundBody_yields depicts') ?_
      refine .assignLabel (.goto ?_ (Label.follows .evalDispatch))
      have bodyPlaced := (closure_parts depicts).2.1
      refine Leads.bind (simulates _ _ _ _ _ _ _ ⟨bodyPlaced, rfl, ⟨p', rfl, env⟩, rfl⟩) ?_
      rintro value _ _ _ ⟨grows', shown, val⟩
      refine .of_code (Label.follows .compoundReturn) ?_
      refine returned_leads shown val (Label.follows .compoundReturnValue) ?_ ?_
      · rintro identity content (_ | _ | _ | ⟨_, held, inside⟩)
        refine .put nofun (.cons val .nil) (.returnContent (World.fits _ |>.holds _ _ _ held)) ?_
        refine .restore (.gotoRegister rfl (.ok (.refl _ _) ?_))
        exact ⟨grows.trans grows', inside, rfl⟩
      · refine .assignConstant (.restore (.gotoRegister rfl (.ok (.refl _ _) ?_)))
        exact ⟨grows.trans grows', .scalar _, rfl⟩
  | _ => exact unknown (by simp [valueTag]) (by simp [valueTag])

/-- What evaluating the arguments of a call leaves: their values after those
from before, in a list, and the function as it was saved. -/
inductive Collected (w : World layout) (before : List Value) (function : Pointer)
    (trail : List Mark) : List Value → Store → Config → Nat → Prop
  | intro {values : List Value} {w' : World layout} {p : Pointer} {r : Nat → Contents} {flag : Bool}
      {position : Nat} :
      w.Extends w' → w'.Arguments w.heap.length (before ++ values) p → r Listing.argl = .pointer p →
      r Listing.fn = .pointer function → Follows position Label.applyDispatch.code →
      Collected w before function trail values w'.store ⟨r, trail, w'.heap, flag⟩ position

/-- The arguments of a call one by one, with the function saved. The list that
they are collected in is saved too while the next of them is evaluated. -/
theorem arguments_leads (simulates : Simulates layout n evaluate) {list : Node}
    (placed : list.Placed layout.program layout.locate)
    (unev : r Listing.unev = .pointer (list.point layout.locate)) {e : Pointer}
    (envHeld : r Listing.env = .pointer e) (depicts : w.picture.Environment layout environment e)
    (grows : w.Extends w') {before : List Value} (arguments : w'.Arguments w.heap.length before p)
    (arglHeld : r Listing.argl = .pointer p) :
    Leads layout n Label.argumentLoop.code ⟨r, .saved Listing.fn (.pointer q) :: trail, w'.heap, flag⟩
      (Collected w before q trail) (Interpreter.arguments evaluate environment list w'.store) := by
  induction list generalizing w' r flag before p with
  | leaf value => exact .save (.put_fails (.cons unev .nil) (selects_programHead placed _))
  | pair place first rest _ ih =>
    have ⟨firstPlaced, putFirst⟩ := selects_programHead placed w'.heap
    have ⟨restPlaced, putRest⟩ := selects_programTail placed w'.heap
    refine .save (.put nofun (.cons unev .nil) putFirst (.put nofun (.cons unev .nil) putRest ?_))
    refine .ask (.cons rfl .nil) (.isNull _ _) ?_
    rw [Node.point_isNull, Interpreter.arguments]
    cases rest.isNull with
    | true =>
      refine .branch_taken rfl (Label.follows .lastArgument) (.assignLabel ?_)
      refine .goto ?_ (Label.follows .evalDispatch)
      refine Leads.bind (simulates _ _ _ _ _ _ _
        ⟨firstPlaced, rfl, ⟨e, envHeld, depicts.mono grows.picture⟩, rfl⟩) ?_
      rintro value _ _ _ ⟨grows', shown, val⟩
      refine .of_code (Label.follows_next .accumulateLast .applyDispatch rfl) (.restore ?_)
      obtain ⟨p', w₂, yields, grows'', store, arguments'⟩ :=
        adjoinArgument_yields (grows.trans grows') (arguments.later grows') shown
      refine .put nofun (.cons val (.cons arglHeld .nil)) yields (.restore fun position follows => ?_)
      exact .ok (.refl _ _) (store ▸ ⟨grows'', arguments', rfl, rfl, follows⟩)
    | false =>
      refine .branch_passed rfl (.save (.save (.assignLabel (.goto ?_ (Label.follows .evalDispatch)))))
      refine Leads.bind (simulates _ _ _ _ _ _ _
        ⟨firstPlaced, rfl, ⟨e, envHeld, depicts.mono grows.picture⟩, rfl⟩) ?_
      rintro value _ _ _ ⟨grows', shown, val⟩
      refine .of_code (Label.follows .accumulate) (.restore (.restore (.restore ?_)))
      obtain ⟨p', w₂, yields, grows'', store, arguments'⟩ :=
        adjoinArgument_yields (grows.trans grows') (arguments.later grows') shown
      refine .put nofun (.cons val (.cons arglHeld .nil)) yields ?_
      refine .put nofun (.cons unev .nil) (selects_programTail placed _).2 (.goto ?_ (Label.follows .argumentLoop))
      rw [← store]
      refine Leads.bind (ih restPlaced (by rfl) (by exact envHeld) grows'' arguments' (by rfl)) ?_
      rintro values _ _ position ⟨grows₃, arguments₃, argl, fn, follows⟩
      rw [List.append_assoc] at arguments₃
      exact .ok (.refl _ _) ⟨grows₃, arguments₃, argl, fn, follows⟩

/-- An application evaluates the function, its arguments from left to right,
and then calls, each as the interpreter does and with the same mistakes. -/
theorem application_leads (poised : Poised w node environment label r)
    (simulates : Simulates layout n evaluate) :
    Leads layout n Label.application.code ⟨r, trail, w.heap, flag⟩ (Gained w trail label)
      (Interpreter.application evaluate node environment w.store) := by
  obtain ⟨placed, expHeld, ⟨e, envHeld, depicts⟩, contHeld⟩ := poised
  refine .save (.save (.read nofun expHeld (selects_part placed .argumentExpressions) fun list listPlaced => ?_))
  refine .save (.read nofun expHeld (selects_part placed .functionExpression) fun operator operatorPlaced => ?_)
  refine .assignLabel (.goto ?_ (Label.follows .evalDispatch))
  refine Leads.bind (simulates _ _ _ _ _ _ _ ⟨operatorPlaced, rfl, ⟨e, envHeld, depicts⟩, rfl⟩) ?_
  rintro function _ _ _ ⟨grows, shown, val⟩
  refine .of_code (Label.follows_next .didFunction .argumentLoop rfl) (.restore (.restore ?_))
  refine .assignConstant (.assignRegister (.ask (.cons rfl .nil) (.isNull _ _) ?_))
  rw [Node.point_isNull, contHeld]
  cases list.isNull with
  | true =>
    refine .branch_taken rfl (Label.follows .applyDispatch) ?_
    refine Leads.imp (call_leads simulates shown (.nil 0) (by exact val) (by rfl)) ?_
    exact fun _ _ _ _ gained => gained.earlier grows
  | false =>
    refine .branch_passed rfl (.saveHeld val ?_)
    refine Leads.bind (arguments_leads simulates listPlaced (by rfl) (by exact envHeld)
      (depicts.mono grows.picture) (.refl _) (.nil _) (by rfl)) ?_
    rintro values _ _ position ⟨grows', arguments, argl, fn, follows⟩
    refine .of_code follows ?_
    refine Leads.imp (call_leads simulates (shown.mono grows'.picture) arguments fn argl) ?_
    exact fun _ _ _ _ gained => gained.earlier (grows.trans grows')

end ExplicitControl.Evaluator
