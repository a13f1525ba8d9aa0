import ExplicitControl.Proofs.Evaluator.Kind

namespace ExplicitControl.Evaluator

open Listing

/-- What is known of registers and the flag taken together. -/
inductive Fact where
  | none
  /-- The name of the form of the expression is in its register. -/
  | classified
  /-- And the flag tells whether it is a certain form. -/
  | asked (kind : ExpressionKind)
  /-- The flag tells whether there are no more names. -/
  | ended
  /-- The flag tells whether a name is the one that is wanted. -/
  | same
  /-- The flag tells whether a register holds a pair with a tag. -/
  | tagged (tag : Tag) (index : Nat)
  /-- The flag of a binding is in its register. -/
  | flagged
  /-- And the flag of the machine tells whether it is that of a constant. -/
  | locked
  /-- The binding is not that of a constant. -/
  | unlocked
  deriving DecidableEq

/-- What lies under the slots that are known: nothing, before the first frame
is made, once it is the only one or afterwards, or what a continuation needs. -/
inductive Phase where
  | blank
  | founded
  | ground
  | framed
  deriving DecidableEq

/-- Once another frame is made. -/
def Phase.onward : Phase → Phase
  | .founded => .ground
  | phase => phase

structure State where
  registers : Nat → Kind
  stack : List Kind
  fact : Fact
  phase : Phase

/-- What is known of a register in any case. -/
def resting (index : Nat) : Kind :=
  if index = env then .scope else if index = fn then .held else if index = argl then .list else .any

/-- What a return value is handed back to: the values that are taken there, and
the slots that are left on the stack for it. -/
def Label.returnPoint : Label → Option (Grade × List Kind)
  | .returnWrap => some (.plain, [.exit])
  | .declarationBind => some (.plain, [.continuation, .truth, .environment true, .declaring])
  | .assignmentBind => some (.plain, [.continuation, .environment true, .form .assignment])
  | .conditionalDecide => some (.plain, [.continuation, .environment true, .form .conditional])
  | .booleanDecide => some (.plain, [.continuation, .environment true, .form .booleanOperation])
  | .sequenceNext => some (.bound, [.environment true, .pending, .continuation])
  | .didFunction => some (.plain, [.operands, .environment true, .continuation])
  | .accumulate => some (.plain, [.operands, .environment true, .arguments, .value .plain, .continuation])
  | .accumulateLast => some (.plain, [.arguments, .value .plain, .continuation])
  | .compoundReturn => some (.free, [.continuation])
  | _ => none

namespace State

/-- The kinds of some registers, with no more known of the others than is
known in any case. -/
def given (kinds : List (Nat × Kind)) (stack : List Kind) (phase : Phase) : State where
  registers := fun index => (kinds.lookup index).getD (resting index)
  stack := stack
  fact := .none
  phase := phase

def set (st : State) (index : Nat) (kind : Kind) : State :=
  { st with registers := Function.update st.registers index kind, fact := .none }

def le (st other : State) : Bool :=
  (List.range Evaluator.registers.length).all (fun index => (st.registers index).le (other.registers index)) &&
    st.stack.length == other.stack.length && (st.stack.zip other.stack).all (fun pair => pair.1.le pair.2) &&
    (other.fact = .none || st.fact = other.fact) && st.phase = other.phase

def rests (st : State) : Bool :=
  (List.range Evaluator.registers.length).all fun index => (st.registers index).le (resting index)

/-- Whether control may go on at the continuation. -/
def resumes (st : State) : Bool :=
  st.rests && st.stack = [] && st.phase = .framed &&
    ((st.registers cont).le .continuation && (st.registers val).le (.value .bound) ||
      st.registers cont = .exit && (st.registers val).le (.value .free))

/-- What is known where a return value is handed back. -/
def resumed (grade : Grade) (kinds : List Kind) : State :=
  given [(val, .value grade)] kinds .framed

/-- A continuation is set up from the known slots. -/
def fold (st : State) (label : Label) : Option State :=
  let entered (grade : Grade) : State :=
    given [(exp, (st.registers exp).entered grade), (env, .environment true), (cont, .continuation)] [] .framed
  if st.rests && st.registers env = .environment true then
    match label, label.returnPoint with
    | .topLevelDone, _ => if st.stack = [] && st.phase = .ground then some (entered .free) else none
    | _, some (grade, kinds) => if st.stack = kinds && st.phase = .framed then some (entered grade) else none
    | _, none => none
  else none

/-- What an operation finds that leaves its operand as it is. -/
def found : HeapOperation → Kind → Option Kind
  | .select .nameSymbol, .form .name => some .any
  | .select .functionParameters, .form .functionDefinition => some .any
  | .select .functionBody, .form .functionDefinition => some (.code .free)
  | .select .blockBody, .form .block => some (.code .bound)
  | .select .returnExpression, .form .returnStatement => some (.node .plain)
  | .select .declarationValue, .form .assignment => some (.node .plain)
  | .select .declarationValue, .spent => some (.node .plain)
  | .select .conditionalPredicate, .core .conditional => some (.node .plain)
  | .select .conditionalConsequent, .form .conditional => some (.node .bound)
  | .select .conditionalAlternative, .form .conditional => some (.node .bound)
  | .select .argumentExpressions, .form .application => some .operands
  | .select .functionExpression, .form .application => some (.node .plain)
  | .booleanFirst, .core .booleanOperation => some (.node .plain)
  | .booleanSecond, .form .booleanOperation => some (.node .plain)
  | .declarationSymbol, .form .assignment => some .any
  | .shortCircuitValue, _ => some .any
  | .expressionKind, _ => some .any
  | .programHead, .operands => some (.node .plain)
  | .programTail, .operands => some .operands
  | .programTail, .pending => some .any
  | .head, .environment false => some (.frame false)
  | .head, .chain => some (.frame false)
  | .head, .frame own => some (.names own 0)
  | .head, .names true 0 => some .name
  | .head, .names false _ => some .any
  | .head, .bindings own => some (.binding own)
  | .head, .binding _ => some (.value .plain)
  | .tail, .environment _ => some .chain
  | .tail, .chain => some .chain
  | .tail, .frame own => some (.bindings own)
  | .tail, .names true 0 => some (.names true 1)
  | .tail, .names false _ => some (.names false 0)
  | .tail, .bindings false => some (.bindings false)
  | .tail, .binding _ => some .any
  | .returnContent, .returned => some (.value .plain)
  | _, _ => none

/-- What an operation leaves of its operand, and what it finds, where it takes
tokens from there. -/
def parted (inPlace : Bool) : HeapOperation → Kind → Option (Kind × Kind)
  | .select .sequenceStatements, .sequence => some (.any, .statements)
  | .declarationSymbol, .declaring => some (.any, .wanted none)
  | .programHead, .statements => some (.pending, .node .bound)
  | .programTail, .pending => if inPlace then some (.any, .statements) else none
  | .compoundBody, .called => some (.closure, .node .free)
  | _, _ => none

/-- What is looked up for a register is put into a register. -/
def look (st : State) (target : Nat) (operation : HeapOperation) (index : Nat) : Option State :=
  match operation, st.registers index with
  | .head, .environment true =>
    if st.stack.all Kind.steady then
      some ({ st with registers := fun i => (st.registers i).rewound }.set target (.frame true))
    else none
  | .tail, .bindings true =>
    if target = index && st.stack.all Kind.steady then
      some ({ st with registers := fun i => (st.registers i).shifted }.set target (.bindings true))
    else none
  | .tail, .binding _ =>
    if index = res && target = e then some { st.set target .any with fact := .flagged } else none
  | .expressionKind, _ =>
    if index = exp && target = e then some { st.set target .any with fact := .classified } else none
  | operation, kind =>
    match parted (target = index) operation kind with
    | some (left, result) => some ((st.set index left).set target result)
    | none => (found operation kind).map (st.set target)

/-- A frame is made for what a register holds. -/
def opened (st : State) (index : Nat) (kind : Kind) : Option State :=
  if st.rests && st.stack.all (· = .continuation) && st.phase ≠ .blank then
    let back := if (st.registers cont).le .continuation then .continuation else .any
    some (given [(index, kind), (env, .environment true), (cont, back)] st.stack st.phase.onward)
  else none

/-- The result of an operation on registers is put into a register. -/
def put (st : State) (target : Nat) : HeapOperation → List Nat → Option State
  | .programRoot, [] => some (st.set target (.code .free))
  | .globalEnvironment, [] =>
    if target = env && st.registers exp = .code .free && st.rests && st.stack = [] && st.phase = .blank then
      some (given [(exp, .code .free), (env, .environment true)] [] .founded)
    else none
  | .extendBlock, [body, environment] =>
    match st.registers body, st.registers environment with
    | .code grade, .environment _ =>
      if body = exp && target = env then st.opened exp (.node grade) else none
    | _, _ => none
  | .extendCall, [function, arguments] =>
    if function = fn && target = env && st.registers function = .closure && st.registers arguments = .arguments then
      st.opened fn .called
    else none
  | .makeCompound, [_, body, environment] =>
    if st.registers body = .code .free && (st.registers environment).le (.environment false) then
      some (st.set target .closure)
    else none
  | .makeReturn, [value] =>
    if (st.registers value).le (.value .plain) then some (st.set target .returned) else none
  | .adjoinArgument, [value, arguments] =>
    if (st.registers value).le (.value .plain) && st.registers arguments = .arguments then
      some (st.set target .arguments)
    else none
  | .applyPrimitive, [function, _] =>
    if st.registers function = .primitive then some (st.set target (.value .plain)) else none
  | operation, [index] => if st.phase = .blank then none else st.look target operation index
  | _, _ => none

/-- An operation is carried out for its effect. -/
def act (st : State) : HeapOperation → List Nat → Option State
  | .clearStack, [] => if st.stack = [] && st.phase = .blank then some { st with fact := .none } else none
  | .setHead, [binding, value] =>
    match st.registers binding with
    | .binding _ => if (st.registers value).le (.value .plain) then some { st with fact := .none } else none
    | _ => none
  | .setTail, [binding, value] =>
    if st.registers value = .truth then
      match st.registers binding, st.registers a with
      | .binding true, .hit => some (st.set a .any)
      | .binding false, .stray => some { st with fact := .none }
      | _, _ => none
    else none
  | _, _ => none

/-- What a test tells. -/
def ask (st : State) : HeapOperation → List Input → Option Fact
  | .isKind .null, [.register index] =>
    some (if index = c && st.registers c = .names true 0 then .ended
      else if st.fact = .flagged then .flagged else .none)
  | .isKind _, [.register _] => some .none
  | .identical, [.register one, .register other] =>
    some (if one = e && other = a && st.registers e = .name && st.registers a = .wanted (some 0) then .same
      else .none)
  | .identical, [.register index, .constant (.string text)] =>
    some (match ExpressionKind.all.find? (·.text = text) with
      | some kind => if index = e && st.fact = .classified then .asked kind else .none
      | none => .none)
  | .identical, [.register index, .constant (.bool b)] =>
    some (if index = e && b = false && st.fact = .flagged then .locked else .none)
  | .isTagged tag, [.register index] => some (.tagged tag index)
  | _, _ => none

/-- What is known of an expression of a form. -/
def formed : ExpressionKind → Kind
  | .constantDeclaration | .variableDeclaration => .declaring
  | .sequence => .sequence
  | kind => .form kind

/-- What is known of a value with a tag. -/
def withTag : Tag → Kind → Kind
  | .primitive, .value .plain => .primitive
  | .compound, .value .plain => .closure
  | .returnValue, .value .free => .returned
  | _, kind => kind

/-- What is known of a value without a tag. -/
def withoutTag : Tag → Kind → Kind
  | .returnValue, .value .free => .value .plain
  | _, kind => kind

/-- What is known if the flag is set. -/
def taken (st : State) : State :=
  match st.fact with
  | .asked kind =>
    if st.registers exp = .node .bound then
      if kind = .returnStatement && st.registers cont = .continuation then
        (st.set exp (formed kind)).set cont .exit
      else st.set exp (formed kind)
    else { st with fact := .none }
  | .ended =>
    if st.registers c = .names true 0 && st.registers a = .wanted (some 0) then st.set a .stray
    else { st with fact := .none }
  | .same =>
    if st.registers e = .name && st.registers a = .wanted (some 0) then st.set a .hit
    else { st with fact := .none }
  | .tagged tag index => st.set index (withTag tag (st.registers index))
  | _ => { st with fact := .none }

/-- What is known if the flag is not set. -/
def missed (st : State) : State :=
  match st.fact with
  | .asked _ => { st with fact := .classified }
  | .same =>
    if st.registers e = .name && st.registers a = .wanted (some 0) then st.set a (.wanted (some 1))
    else { st with fact := .none }
  | .tagged tag index => st.set index (withoutTag tag (st.registers index))
  | .flagged => st
  | .locked => { st with fact := .unlocked }
  | _ => { st with fact := .none }

def constantKind : Pointer → Kind
  | .null => .arguments
  | .undefined => .value .plain
  | .bool _ => .truth
  | _ => .any

/-- Registers as inputs. -/
def indices : List Input → Option (List Nat)
  | [] => some []
  | .register index :: rest => (indices rest).map (index :: ·)
  | .constant _ :: _ => none

/-- An instruction that is no jump is carried out. -/
def after (st : State) : Code → Option State
  | .save index =>
    some { st with
      registers := Function.update st.registers index (st.registers index).copied
      stack := st.registers index :: st.stack
      fact := .none }
  | .restore index =>
    match st.stack with
    | kind :: rest => some { st.set index kind with stack := rest }
    | [] => none
  | .assign target (.register index) => some (st.set target (st.registers index).copied)
  | .assign target (.constant value) => some (st.set target (constantKind value))
  | .assign target (.label position) =>
    if target = cont then
      (Label.all.find? (·.position = position)).bind st.fold
    else some (st.set target (.label position))
  | .assign target (.application ⟨_, .addressAware operation, inputs⟩) =>
    (indices inputs).bind (st.put target operation)
  | .perform ⟨_, .addressAware operation, inputs⟩ => (indices inputs).bind (st.act operation)
  | .test ⟨_, .addressAware operation, inputs⟩ => (st.ask operation inputs).map fun fact => { st with fact }
  | _ => none

end State

/-- What is known where a name is looked up, by what it is looked up for. -/
def lookups (own other : List (Nat × Kind)) : List State :=
  let base : List (Nat × Kind) := [(env, .environment true), (cont, .continuation)]
  let declaring : List (Nat × Kind) :=
    [(d, .label Label.declarationFound.position), (val, .value .plain), (unev, .truth)] ++ base
  [.given (own ++ declaring) [] .framed,
    .given ((a, .stray) :: other ++ declaring) [] .framed,
    .given ([(d, .label Label.nameFound.position)] ++ other ++ base) [] .framed,
    .given ([(d, .label Label.assignmentFound.position), (val, .value .plain)] ++ other ++ base) [] .framed]

namespace Label

/-- What is known whenever control comes to a label, one of several things. It
is met by the instructions before every jump to the label, so the evaluator
can be carried out on kinds instead of contents, label by label. -/
def signature (label : Label) : List State :=
  let handling (kind : Kind) : State :=
    .given [(exp, kind), (env, .environment true), (cont, .continuation)] [] .framed
  match label with
  | .entrance => [.given [] [] .blank]
  | .evalDispatch => [handling (.node .bound)]
  | .findBinding => lookups [(a, .wanted none), (b, .environment true)] [(b, .chain)]
  | .scan =>
    lookups [(a, .wanted (some 0)), (b, .environment true), (c, .names true 0), (res, .bindings true)]
      [(b, .chain), (c, .names false 0), (res, .bindings false)]
  | .nextFrame => (lookups [] [(b, .chain)]).tail
  | .found => lookups [(a, .hit), (res, .bindings true)] [(res, .bindings false)]
  | .selfEval => [handling (.form .selfEvaluating)]
  | .name => [handling (.form .name)]
  | .nameFound => [.given [(res, .binding false), (env, .environment true), (cont, .continuation)] [] .framed]
  | .functionDefinition => [handling (.form .functionDefinition)]
  | .block => [handling (.form .block)]
  | .return =>
    [.given [(exp, .form .returnStatement), (env, .environment true), (cont, .exit)] [] .framed]
  | .constantDeclaration => [handling .declaring]
  | .variableDeclaration => [handling .declaring]
  | .declaration =>
    [.given [(exp, .declaring), (unev, .truth), (env, .environment true), (cont, .continuation)] [] .framed]
  | .declarationFound =>
    [.given [(a, .hit), (res, .binding true), (val, .value .plain), (unev, .truth), (env, .environment true),
        (cont, .continuation)] [] .framed,
      .given [(a, .stray), (res, .binding false), (val, .value .plain), (unev, .truth), (env, .environment true),
        (cont, .continuation)] [] .framed]
  | .assignment => [handling (.form .assignment)]
  | .assignmentFound =>
    [.given [(res, .binding false), (val, .value .plain), (env, .environment true), (cont, .continuation)] []
      .framed]
  | .conditional => [handling (.form .conditional)]
  | .conditionalChoose => [handling (.form .conditional)]
  | .conditionalConsequent => [handling (.form .conditional)]
  | .booleanOperation => [handling (.form .booleanOperation)]
  | .booleanCheck =>
    [.given [(exp, .form .booleanOperation), (val, .value .plain), (env, .environment true),
      (cont, .continuation)] [] .framed]
  | .booleanShortCircuit => [.given [(val, .value .plain), (cont, .continuation)] [] .framed]
  | .sequence => [handling .sequence]
  | .sequenceLoop => [.given [(unev, .statements), (env, .environment true)] [.continuation] .framed]
  | .sequenceLast => [.given [(exp, .node .bound), (env, .environment true)] [.continuation] .framed]
  | .sequenceReturn => [.given [(val, .value .bound)] [.continuation] .framed]
  | .sequenceEmpty => [.given [(cont, .continuation)] [] .framed]
  | .application => [handling (.form .application)]
  | .argumentLoop =>
    [.given [(unev, .operands), (env, .environment true), (argl, .arguments)] [.value .plain, .continuation] .framed]
  | .lastArgument =>
    [.given [(exp, .node .plain), (env, .environment true)] [.arguments, .value .plain, .continuation] .framed]
  | .applyDispatch => [.given [(fn, .value .plain), (argl, .arguments)] [.continuation] .framed]
  | .primitiveApply => [.given [(fn, .primitive), (argl, .arguments)] [.continuation] .framed]
  | .compoundApply => [.given [(fn, .closure), (argl, .arguments)] [.continuation] .framed]
  | .compoundReturnValue => [.given [(val, .returned)] [.continuation] .framed]
  | .topLevelDone => [.given [(val, .value .free)] [] .ground]
  | .topLevelReturn => [.given [(val, .returned)] [] .ground]
  | .done => [.given [(val, .value .plain)] [] .ground]
  | .unknownFunction => [.given [] [.continuation] .framed]
  | label =>
    match label.returnPoint with
    | some (grade, kinds) => [.resumed grade kinds]
    | none => [.given [] [] .framed]

end Label

namespace State

/-- What is known behind an instruction, where control comes there. -/
def next (st : State) : Code → Option State
  | .branch _ => some st.missed
  | .goto _ => none
  | .gotoRegister _ => none
  | code => st.after code

/-- What is known behind some instructions. -/
def through : State → List Code → Option State
  | st, [] => some st
  | st, code :: codes => (st.next code).bind fun st => st.through codes

end State

/-- The last label up to a position. -/
def labelAt (position : Nat) : Label :=
  (Label.all.reverse.find? (·.position ≤ position)).getD .entrance

/-- What is known before each instruction, one of several things. -/
def statesAt (position : Nat) : List State :=
  let label := labelAt position
  label.signature.filterMap fun st => st.through (label.code.take (position - label.position))

/-- Whether control may come to a position. -/
def admits (position : Nat) (st : State) : Bool :=
  (statesAt position).any st.le

/-- Whether control may leave an instruction at a position in every way that
it can. -/
def State.leaves (st : State) (position : Nat) : Code → Bool
  | .goto target => admits target st
  | .branch target => admits target st.taken && admits (position + 1) st.missed
  | .gotoRegister index =>
    if index = cont then st.resumes
    else match st.registers index with
      | .label target => admits target st
      | _ => false
  | .perform ⟨_, .addressAware (.signal _), _⟩ => true
  | code =>
    match st.after code with
    | some st => admits (position + 1) st
    | none => false

/-- Every instruction keeps to the signatures: from what is known before it,
control can only come to where what is known behind it is enough. This is
computed for the listing as it is. -/
theorem listing_verified :
    ∀ entry ∈ listing.zipIdx, ∀ st ∈ statesAt entry.2, (st.rests && st.leaves entry.2 entry.1) = true := by
  decide +kernel

/-- Where return values are handed back they may be. -/
theorem returnPoints_verified :
    ∀ label ∈ Label.all, ∀ point ∈ label.returnPoint, admits label.position (.resumed point.1 point.2) = true := by
  decide +kernel

theorem topLevelDone_verified :
    admits Label.topLevelDone.position (.given [(val, .value .free)] [] .ground) = true := by
  decide +kernel

theorem done_verified : ∀ st ∈ statesAt Label.done.position, st.rests = true := by
  decide +kernel

end ExplicitControl.Evaluator
