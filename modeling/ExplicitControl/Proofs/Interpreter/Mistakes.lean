import ExplicitControl.Proofs.Program.Composed

namespace ExplicitControl.Interpreter

open Interpretation

/-- Whether the interpreter can run into a mistake, in a tree that is composed
or in any tree. In a composed tree no part is missing, and in no tree is a
wrong number of operands told as such: it is told like a wrong number of
arguments. -/
def Mistake.Possible (composed : Prop) : Mistake → Prop
  | .notPair _ => ¬ composed
  | .operand _ (.arity _ _) => False
  | _ => True

/-- Declarations may stand anywhere. -/
abbrev anywhere : Site → Prop := fun _ => True

/-- A node for a composed tree, wherever it stands. -/
def Node.Sound (node : Node) : Prop :=
  ∃ site, node.Composed anywhere site

/-- A node for a composed tree of one form. -/
def Node.Formed (kind : ExpressionKind) (node : Node) : Prop :=
  ∃ site, node.Form anywhere site (some kind)

/-- A reading of the tree gives what is said of it, or a possible mistake. -/
def Yields {α : Type} (composed : Prop) (x : Except Mistake α) (post : α → Prop) : Prop :=
  match x with
  | .ok a => post a
  | .error m => m.Possible composed

namespace Yields

variable {composed : Prop} {α β : Type} {x : Except Mistake α} {post : α → Prop}

theorem mono {goal : α → Prop} (yields : Yields composed x post) (le : ∀ a, post a → goal a) :
    Yields composed x goal := by
  cases x with
  | ok a => exact le a yields
  | error m => exact yields

theorem bind {f : α → Except Mistake β} {goal : β → Prop} (first : Yields composed x post)
    (next : ∀ a, post a → Yields composed (f a) goal) : Yields composed (x >>= f) goal := by
  cases x with
  | ok a => exact next a first
  | error m => exact first

theorem foldlM {f : β → α → Except Mistake β} {items : List α}
    (step : ∀ b, ∀ a ∈ items, Yields composed (f b a) fun _ => True) (b : β) :
    Yields composed (items.foldlM f b) fun _ => True := by
  induction items generalizing b with
  | nil => trivial
  | cons a items ih =>
    rw [List.foldlM_cons]
    refine (step b a List.mem_cons_self).bind fun b' _ => ?_
    exact ih (fun b a member => step b a (List.mem_cons_of_mem _ member)) b'

end Yields

namespace Node

variable {composed : Prop} {node : Node}

/-- Where an item is read, only a pair can be missing: an item is found by
going along tails and then to a head. -/
theorem item_error {index : Nat} {m : Mistake} (failed : node.item index = .error m) :
    ∃ got, m = .notPair got := by
  induction index generalizing node with
  | zero =>
    cases node with
    | leaf value => exact ⟨value, (Except.error.inj failed).symm⟩
    | pair place head tail => cases failed
  | succ index ih =>
    cases node with
    | leaf value => exact ⟨value, (Except.error.inj failed).symm⟩
    | pair place head tail => exact ih failed

/-- An item that composed trees have is found, and is what composition says of
it. In other trees the reading may fail for want of a pair. -/
theorem item_yields {index : Nat} {post : Node → Prop}
    (known : composed → ∃ part, node.item index = .ok part ∧ post part) :
    Yields composed (node.item index) fun part => composed → post part := by
  cases found : node.item index with
  | ok part =>
    intro isComposed
    obtain ⟨part', found', holds⟩ := known isComposed
    rw [found] at found'
    exact Except.ok.inj found' ▸ holds
  | error m =>
    obtain ⟨got, rfl⟩ := item_error found
    intro isComposed
    obtain ⟨part, found', _⟩ := known isComposed
    rw [found] at found'
    cases found'

theorem items_yields {each : Node → Prop} (known : composed → node.Row each) :
    Yields composed node.items fun items => composed → ∀ item ∈ items, each item := by
  induction node with
  | leaf value =>
    by_cases isNull : value = .null
    · subst isNull
      exact fun _ _ member => nomatch member
    · have failed : (leaf value).items = .error (.notPair value) := by
        cases value with
        | null => exact absurd rfl isNull
        | _ => rfl
      rw [failed]
      intro isComposed
      cases known isComposed
      exact isNull rfl
  | pair place head tail _ tailIH =>
    have parts (isComposed : composed) := (known isComposed).parts
    refine (tailIH fun isComposed => (parts isComposed).2).bind fun items sound isComposed => ?_
    exact List.forall_mem_cons.mpr ⟨(parts isComposed).1, sound isComposed⟩

theorem Sound.formed {kind : ExpressionKind} (sound : node.Sound) (isKind : node.kind = some kind) :
    node.Formed kind := by
  obtain ⟨site, composed⟩ := sound
  exact ⟨site, isKind ▸ composed.form⟩

theorem addSymbol_yields (found : List Node) (symbol : Node) :
    Yields composed (addSymbol found symbol) fun _ => True := by
  unfold addSymbol
  split <;> trivial

theorem named_yields (known : composed → node.Named) : Yields composed (node.item 1) fun _ => True := by
  have present (isComposed : composed) : ∃ symbol, node.item 1 = .ok symbol ∧ True := by
    obtain ⟨symbol, read⟩ := known isComposed
    exact ⟨_, read, trivial⟩
  exact (item_yields present).mono fun _ _ => trivial

theorem declarationSymbol_yields (known : composed → ∃ name, node.item 1 = .ok name ∧ name.Named) :
    Yields composed node.declarationSymbol fun _ => True :=
  (item_yields known).bind fun _ named => named_yields named

/-- What is a declaration by its form has a name. So the names of a body are
read without a mistake wherever the tree is composed. -/
theorem Sound.declares (sound : node.Sound) (declares : node.declares = true) :
    ∃ name, node.item 1 = .ok name ∧ name.Named := by
  obtain ⟨site, composed⟩ := sound
  have form := composed.form
  unfold Node.declares at declares
  generalize node.kind = kind at declares form
  cases form with
  | constantDeclaration _ binds => exact binds.name
  | variableDeclaration _ binds => exact binds.name
  | _ => cases declares

/-- The statements of a sequence stand in a proper list, and each of them is
sound. -/
theorem Formed.statements (formed : node.Formed .sequence) :
    ∃ list, node.item 1 = .ok list ∧ list.Row Node.Sound := by
  obtain ⟨site, form⟩ := formed
  cases form with
  | sequence isList row => exact ⟨_, isList, row.mono fun _ part => ⟨_, part⟩⟩

theorem statements_yields (known : composed → node.Sound) :
    Yields composed node.statements fun statements =>
      composed → ∀ statement ∈ statements, statement.Sound := by
  unfold Node.statements
  split
  case isTrue isSequence =>
    refine (item_yields fun isComposed => ((known isComposed).formed isSequence).statements).bind ?_
    exact fun list row => items_yields row
  case isFalse other => exact fun isComposed => List.forall_mem_singleton.mpr (known isComposed)

theorem declaredNames_yields (known : composed → node.Sound) :
    Yields composed node.declaredNames fun _ => True := by
  refine (statements_yields known).bind fun statements sound => Yields.foldlM ?_ []
  intro found statement member
  split
  case isTrue declares =>
    refine (declarationSymbol_yields fun isComposed => ?_).bind fun symbol _ => addSymbol_yields found symbol
    exact (sound isComposed statement member).declares declares
  case isFalse => trivial

theorem parameterNames_yields (known : composed → node.Row Named) :
    Yields composed node.parameterNames fun _ => True := by
  refine (items_yields known).bind fun items named => Yields.foldlM ?_ []
  intro found item member
  refine (named_yields fun isComposed => named isComposed item member).bind fun symbol _ => ?_
  exact addSymbol_yields found symbol

theorem settlingValue_yields (known : composed → node.Formed .booleanOperation) :
    Yields composed node.settlingValue fun _ => True := by
  have parts (isComposed : composed) : ∃ operator, node.item 1 = .ok operator ∧ operator.Named := by
    obtain ⟨site, form⟩ := known isComposed
    cases form with
    | booleanOperation isOperator named => exact ⟨_, isOperator, named⟩
  refine (item_yields parts).bind fun operator named => (named_yields named).bind fun symbol _ => ?_
  split <;> trivial

end Node

theorem checkCount_yields {composed : Prop} (expected got : Nat) :
    Yields composed (checkCount expected got) fun _ => True := by
  unfold checkCount
  split
  · trivial
  · split <;> trivial

theorem callNames_yields {composed : Prop} {parameters body : Node} (got : Nat)
    (named : composed → parameters.Row Node.Named) (sound : composed → body.Sound) :
    Yields composed (callNames parameters body got) fun _ => True := by
  refine (Node.parameterNames_yields named).bind fun names _ => ?_
  refine (checkCount_yields names.length got).bind fun _ _ => ?_
  exact (Node.declaredNames_yields sound).bind fun locals _ => trivial

theorem scalars_yields {composed : Prop} (values : List Value) :
    Yields composed (scalars values) fun _ => True := by
  induction values with
  | nil => trivial
  | cons value values ih =>
    cases value with
    | scalar value => exact ih.bind fun _ _ => trivial
    | _ => trivial

theorem complaint_possible {composed : Prop} (function : Builtin) (cause : OperandError) :
    (function.complaint cause).Possible composed := by
  cases cause with
  | arity expected got =>
    change Mistake.Possible composed (if expected < got then _ else _)
    split <;> trivial
  | type expected got => trivial

/-- A function that every program can call gives a value that is sound
anywhere. Where it complains about the number of its operands, the complaint
is the one for arguments. -/
theorem builtin_yields {composed : Prop} (function : Builtin) (values : List Value) :
    Yields composed (function.apply values) fun value => value.Sound anywhere := by
  unfold Builtin.apply
  split
  · trivial
  · trivial
  · refine (scalars_yields _).bind fun operands _ => ?_
    split
    · trivial
    · exact complaint_possible _ _
  · exact complaint_possible _ _

/-- A computation ends with what is said of it and a sound store, or with a
possible mistake, or it was not let go deep enough. -/
def Settles {α : Type} (composed : Prop) (post : α → Prop) : EStateM.Result Halt Store α → Prop
  | .ok a store => post a ∧ (composed → store.Sound anywhere)
  | .error (.mistake m) _ => m.Possible composed
  | .error .unfinished _ => True

/-- From whatever sound store it starts, a computation ends as is said, with a
possible mistake, or for want of depth. Soundness of the store is what the
forms rely on when they call a closure that was put there. -/
def Ensures {α : Type} (composed : Prop) (x : Interpretation α) (post : α → Prop) : Prop :=
  ∀ store, (composed → store.Sound anywhere) → Settles composed post (x store)

namespace Ensures

variable {composed : Prop} {α β : Type} {x : Interpretation α} {post : α → Prop}

theorem pure {a : α} (holds : post a) : Ensures composed (pure a) post :=
  fun _ sound => ⟨holds, sound⟩

theorem fail {m : Mistake} (possible : m.Possible composed) : Ensures composed (fail m) post :=
  fun _ _ => possible

theorem read {x : Except Mistake α} (yields : Yields composed x post) : Ensures composed (read x) post := by
  cases x with
  | ok a => exact .pure yields
  | error m => exact .fail yields

theorem bind {f : α → Interpretation β} {goal : β → Prop} (first : Ensures composed x post)
    (next : ∀ a, post a → Ensures composed (f a) goal) : Ensures composed (x >>= f) goal := by
  intro store sound
  have started := first store sound
  change Settles composed goal (EStateM.bind x f store)
  unfold EStateM.bind
  cases run : x store with
  | ok a store' =>
    rw [run] at started
    exact next a started.1 store' started.2
  | error halt store' =>
    rw [run] at started
    cases halt with
    | mistake m => exact started
    | unfinished => trivial

/-- A part that composed trees have is read. -/
theorem item {node : Node} {index : Nat} {part : Node → Prop} {f : Node → Interpretation β} {goal : β → Prop}
    (known : composed → ∃ found, node.item index = .ok found ∧ part found)
    (next : ∀ found, (composed → part found) → Ensures composed (f found) goal) :
    Ensures composed (Interpretation.read (node.item index) >>= f) goal :=
  (read (Node.item_yields known)).bind next

theorem identity : Ensures composed identity fun _ => True :=
  fun _ sound => ⟨trivial, sound⟩

theorem cell (location : Nat) :
    Ensures composed (cell location) fun cell => composed → cell.value.Sound anywhere := by
  refine fun store sound => ⟨fun isComposed => ?_, sound⟩
  rw [List.getD_eq_getElem?_getD]
  cases found : store.cells[location]? with
  | none => trivial
  | some cell => exact sound isComposed cell (List.mem_of_getElem? found)

theorem setCell {location : Nat} {cell : Cell} (known : composed → cell.value.Sound anywhere) :
    Ensures composed (setCell location cell) fun _ => True := by
  refine fun store sound => ⟨trivial, fun isComposed other member => ?_⟩
  rcases List.mem_or_eq_of_mem_set member with old | rfl
  · exact sound isComposed other old
  · exact known isComposed

theorem openFrame {bindings : List (Node × Cell)} {environment : List Frame}
    (known : composed → ∀ binding ∈ bindings, binding.2.value.Sound anywhere) :
    Ensures composed (openFrame bindings environment) fun _ => True := by
  refine fun store sound => ⟨trivial, fun isComposed cell member => ?_⟩
  rcases List.mem_append.mp member with old | new
  · exact sound isComposed cell old
  · obtain ⟨binding, isNew, rfl⟩ := List.mem_map.mp new
    exact known isComposed binding isNew

theorem lookup (environment : List Frame) (symbol : Node) :
    Ensures composed (lookup environment symbol) fun _ => True := by
  unfold Interpreter.lookup
  split
  · exact .pure trivial
  · exact .fail trivial

theorem truth (value : Value) : Ensures composed (truth value) fun _ => True := by
  unfold Interpreter.truth
  split
  · exact .pure trivial
  · exact .fail trivial

end Ensures

theorem declared_sound {composed : Prop} (names : List Node) :
    composed → ∀ binding ∈ names.map declared, binding.2.value.Sound anywhere := by
  intro _ binding member
  obtain ⟨symbol, _, rfl⟩ := List.mem_map.mp member
  trivial

/-- An interpreter that runs into possible mistakes only. -/
def Evaluation.Safe (composed : Prop) (evaluate : Evaluation) : Prop :=
  ∀ node environment, (composed → node.Sound) →
    Ensures composed (evaluate node environment) fun value => composed → value.Sound anywhere

section

variable {composed : Prop} {evaluate : Evaluation} {node : Node} (environment : List Frame)

theorem name_ensures (known : composed → node.Formed .name) :
    Ensures composed (name node environment) fun value => composed → value.Sound anywhere := by
  have named (isComposed : composed) : node.Named := by
    obtain ⟨site, form⟩ := known isComposed
    cases form with
    | name named => exact named
  refine (Ensures.read (Node.named_yields named)).bind fun symbol _ => ?_
  refine (Ensures.lookup environment symbol).bind fun location _ => ?_
  refine (Ensures.cell location).bind fun cell sound => ?_
  split
  · exact .fail trivial
  · exact .pure sound

theorem functionDefinition_ensures (known : composed → node.Formed .functionDefinition) :
    Ensures composed (functionDefinition node environment) fun value => composed → value.Sound anywhere := by
  have parts (isComposed : composed) : (∃ parameters, node.item 1 = .ok parameters ∧ parameters.Row Node.Named) ∧
      ∃ body, node.item 2 = .ok body ∧ body.Composed anywhere .body := by
    obtain ⟨site, form⟩ := known isComposed
    cases form with
    | functionDefinition isParameters isBody named body => exact ⟨⟨_, isParameters, named⟩, _, isBody, body⟩
  refine .item (fun isComposed => (parts isComposed).1) fun parameters named => ?_
  refine .item (fun isComposed => (parts isComposed).2) fun body sound => ?_
  exact Ensures.identity.bind fun identity _ => .pure fun isComposed => ⟨named isComposed, sound isComposed⟩

variable (safe : evaluate.Safe composed)
include safe

theorem declaration_ensures {flag : Flag} (known : composed → node.Binds anywhere) :
    Ensures composed (declaration flag evaluate node environment)
      fun value => composed → value.Sound anywhere := by
  refine .item (fun isComposed => (known isComposed).value) fun part sound => ?_
  refine (safe part environment fun isComposed => ⟨_, sound isComposed⟩).bind fun value valueSound => ?_
  refine (Ensures.read (Node.declarationSymbol_yields fun isComposed => (known isComposed).name)).bind
    fun symbol _ => ?_
  refine (Ensures.lookup environment symbol).bind fun location _ => ?_
  exact (Ensures.setCell valueSound).bind fun _ _ => .pure fun _ => trivial

theorem assignment_ensures (known : composed → node.Binds anywhere) :
    Ensures composed (assignment evaluate node environment) fun value => composed → value.Sound anywhere := by
  refine .item (fun isComposed => (known isComposed).value) fun part sound => ?_
  refine (safe part environment fun isComposed => ⟨_, sound isComposed⟩).bind fun value valueSound => ?_
  refine (Ensures.read (Node.declarationSymbol_yields fun isComposed => (known isComposed).name)).bind
    fun symbol _ => ?_
  refine (Ensures.lookup environment symbol).bind fun location _ => (Ensures.cell location).bind fun cell _ => ?_
  cases cell.flag with
  | uninitialised => exact .fail trivial
  | constant => exact .fail trivial
  | mutable => exact (Ensures.setCell valueSound).bind fun _ _ => .pure valueSound

theorem conditional_ensures (known : composed → node.Formed .conditional) :
    Ensures composed (conditional evaluate node environment)
      fun value => composed → value.Sound anywhere := by
  have predicate (isComposed : composed) : ∃ part, node.item 1 = .ok part ∧ part.Sound := by
    obtain ⟨site, form⟩ := known isComposed
    cases form with
    | conditional isPredicate _ _ part => exact ⟨_, isPredicate, _, part⟩
  have branch (chosen : Bool) (isComposed : composed) :
      ∃ part, node.item (if chosen then 2 else 3) = .ok part ∧ part.Sound := by
    obtain ⟨site, form⟩ := known isComposed
    cases form with
    | conditional _ isConsequent isAlternative _ consequent alternative =>
      cases chosen with
      | true => exact ⟨_, isConsequent, _, consequent⟩
      | false => exact ⟨_, isAlternative, _, alternative⟩
  refine .item predicate fun part sound => (safe part environment sound).bind fun value _ => ?_
  refine (Ensures.truth value).bind fun chosen _ => ?_
  exact .item (branch chosen) fun part sound => safe part environment sound

theorem booleanOperation_ensures (known : composed → node.Formed .booleanOperation) :
    Ensures composed (booleanOperation evaluate node environment)
      fun value => composed → value.Sound anywhere := by
  have operands (isComposed : composed) : ∃ operands, node.item 2 = .ok operands ∧
      (∃ first, operands.item 0 = .ok first ∧ first.Sound) ∧
        ∃ second, operands.item 1 = .ok second ∧ second.Sound := by
    obtain ⟨site, form⟩ := known isComposed
    cases form with
    | booleanOperation _ _ isOperands isFirst isSecond first second =>
      exact ⟨_, isOperands, ⟨_, isFirst, _, first⟩, _, isSecond, _, second⟩
  have first : Yields composed (do (← node.item 2).item 0) fun part => composed → part.Sound :=
    (Node.item_yields operands).bind fun _ parts => Node.item_yields fun isComposed => (parts isComposed).1
  have second : Yields composed (do (← node.item 2).item 1) fun part => composed → part.Sound :=
    (Node.item_yields operands).bind fun _ parts => Node.item_yields fun isComposed => (parts isComposed).2
  refine (Ensures.read first).bind fun part sound => (safe part environment sound).bind fun value _ => ?_
  refine (Ensures.truth value).bind fun chosen _ => ?_
  refine (Ensures.read (Node.settlingValue_yields known)).bind fun settling _ => ?_
  split
  · exact .pure fun _ => trivial
  · exact (Ensures.read second).bind fun part sound => safe part environment sound

theorem block_ensures (known : composed → node.Formed .block) :
    Ensures composed (block evaluate node environment) fun value => composed → value.Sound anywhere := by
  have parts (isComposed : composed) : ∃ body, node.item 1 = .ok body ∧ body.Sound := by
    obtain ⟨site, form⟩ := known isComposed
    cases form with
    | block isBody body => exact ⟨_, isBody, _, body⟩
  refine .item parts fun body sound => ?_
  refine (Ensures.read (Node.declaredNames_yields sound)).bind fun names _ => ?_
  exact (Ensures.openFrame (declared_sound names)).bind fun extended _ => safe body extended sound

theorem returnStatement_ensures (known : composed → node.Formed .returnStatement) :
    Ensures composed (returnStatement evaluate node environment)
      fun value => composed → value.Sound anywhere := by
  have parts (isComposed : composed) : ∃ part, node.item 1 = .ok part ∧ part.Sound := by
    obtain ⟨site, form⟩ := known isComposed
    cases form with
    | returnStatement isValue value => exact ⟨_, isValue, _, value⟩
  refine .item parts fun part sound => (safe part environment sound).bind fun content contentSound => ?_
  exact Ensures.identity.bind fun identity _ => .pure contentSound

/-- A list that does not end right away starts with a pair. That is why a body
without statements has to be told apart before the first of them is read. -/
theorem statements_ensures (list : Node) (known : composed → list.Row Node.Sound) (more : ¬ list.isNull) :
    Ensures composed (statements evaluate environment list) fun value => composed → value.Sound anywhere := by
  induction list with
  | leaf value =>
    refine .fail fun isComposed => ?_
    cases known isComposed
    exact more rfl
  | pair place first rest _ ih =>
    have parts (isComposed : composed) := (known isComposed).parts
    simp only [statements]
    split
    · exact safe first environment fun isComposed => (parts isComposed).1
    · rename_i goesOn
      refine (safe first environment fun isComposed => (parts isComposed).1).bind fun value sound => ?_
      cases value with
      | returned identity content => exact .pure sound
      | _ => exact ih (fun isComposed => (parts isComposed).2) goesOn

theorem sequence_ensures (known : composed → node.Formed .sequence) :
    Ensures composed (sequence evaluate node environment) fun value => composed → value.Sound anywhere := by
  refine .item (fun isComposed => (known isComposed).statements) fun list row => ?_
  split
  · exact .pure fun _ => trivial
  · rename_i more
    exact statements_ensures environment safe list row more

theorem arguments_ensures (list : Node) (known : composed → list.Row Node.Sound) (more : ¬ list.isNull) :
    Ensures composed (arguments evaluate environment list) fun values =>
      composed → ∀ value ∈ values, value.Sound anywhere := by
  induction list with
  | leaf value =>
    refine .fail fun isComposed => ?_
    cases known isComposed
    exact more rfl
  | pair place first rest _ ih =>
    have parts (isComposed : composed) := (known isComposed).parts
    refine (safe first environment fun isComposed => (parts isComposed).1).bind fun value sound => ?_
    split
    · exact .pure fun isComposed => List.forall_mem_singleton.mpr (sound isComposed)
    · rename_i goesOn
      refine (ih (fun isComposed => (parts isComposed).2) goesOn).bind fun values others => ?_
      exact .pure fun isComposed => List.forall_mem_cons.mpr ⟨sound isComposed, others isComposed⟩

omit safe in
theorem given_sound {names : List Node} {values : List Value} (sound : ∀ value ∈ values, value.Sound anywhere) :
    ∀ binding ∈ List.zipWith (fun symbol value => (symbol, (⟨value, .mutable⟩ : Cell))) names values,
      binding.2.value.Sound anywhere := by
  induction names generalizing values with
  | nil => exact fun _ member => nomatch member
  | cons name names ih =>
    cases values with
    | nil => exact fun _ member => nomatch member
    | cons value values =>
      obtain ⟨first, rest⟩ := List.forall_mem_cons.mp sound
      exact List.forall_mem_cons.mpr ⟨first, ih rest⟩

/-- A call binds sound values, and the body of a sound closure is sound, so a
call keeps to the possible mistakes where the evaluation of the body does. -/
theorem call_ensures (function : Value) (values : List Value) (known : composed → function.Sound anywhere)
    (sound : composed → ∀ value ∈ values, value.Sound anywhere) :
    Ensures composed (call evaluate function values) fun value => composed → value.Sound anywhere := by
  cases function with
  | scalar value => exact .fail trivial
  | returned identity content => exact .fail trivial
  | builtin function =>
    exact .read ((builtin_yields function values).mono fun value valueSound _ => valueSound)
  | closure identity parameters body environment =>
    refine (Ensures.read (callNames_yields values.length (fun isComposed => (known isComposed).1)
      fun isComposed => ⟨_, (known isComposed).2⟩)).bind fun names _ => ?_
    have bound (isComposed : composed) : ∀ binding ∈ List.zipWith (fun symbol value =>
        (symbol, (⟨value, .mutable⟩ : Cell))) names.1 values ++ names.2.map declared,
          binding.2.value.Sound anywhere :=
      List.forall_mem_append.mpr ⟨given_sound (sound isComposed), declared_sound names.2 isComposed⟩
    refine (Ensures.openFrame bound).bind fun extended _ => ?_
    refine (safe body extended fun isComposed => ⟨_, (known isComposed).2⟩).bind fun value valueSound => ?_
    cases value with
    | returned identity content => exact .pure valueSound
    | _ => exact .pure fun _ => trivial

theorem application_ensures (known : composed → node.Formed .application) :
    Ensures composed (application evaluate node environment)
      fun value => composed → value.Sound anywhere := by
  have operator (isComposed : composed) : ∃ part, node.item 1 = .ok part ∧ part.Sound := by
    obtain ⟨site, form⟩ := known isComposed
    cases form with
    | application isFunction _ function => exact ⟨_, isFunction, _, function⟩
  have operands (isComposed : composed) : ∃ list, node.item 2 = .ok list ∧ list.Row Node.Sound := by
    obtain ⟨site, form⟩ := known isComposed
    cases form with
    | application _ isList _ row => exact ⟨_, isList, row.mono fun _ part => ⟨_, part⟩⟩
  refine .item operands fun list row => .item operator fun part sound => ?_
  refine (safe part environment sound).bind fun function functionSound => ?_
  split
  · exact call_ensures safe function [] functionSound fun _ _ member => nomatch member
  · rename_i more
    refine (arguments_ensures environment safe list row more).bind fun values valuesSound => ?_
    exact call_ensures safe function values functionSound valuesSound

/-- Forms run into possible mistakes only, where their parts do, with one
lemma for each form. -/
theorem expression_safe : Evaluation.Safe composed (expression evaluate) := by
  intro node environment known
  have formed {kind : ExpressionKind} (isKind : node.kind = some kind) (isComposed : composed) :
      node.Formed kind := (known isComposed).formed isKind
  cases node with
  | leaf value => exact .pure fun _ => trivial
  | pair place head tail =>
    unfold expression
    cases isKind : (Node.pair place head tail).kind with
    | none => exact .fail trivial
    | some kind =>
      cases kind with
      | selfEvaluating => exact .fail trivial
      | name => exact name_ensures environment (formed isKind)
      | constantDeclaration =>
        refine declaration_ensures environment safe fun isComposed => ?_
        obtain ⟨site, form⟩ := formed isKind isComposed
        cases form with
        | constantDeclaration _ binds => exact binds
      | variableDeclaration =>
        refine declaration_ensures environment safe fun isComposed => ?_
        obtain ⟨site, form⟩ := formed isKind isComposed
        cases form with
        | variableDeclaration _ binds => exact binds
      | assignment =>
        refine assignment_ensures environment safe fun isComposed => ?_
        obtain ⟨site, form⟩ := formed isKind isComposed
        cases form with
        | assignment binds => exact binds
      | conditional => exact conditional_ensures environment safe (formed isKind)
      | functionDefinition => exact functionDefinition_ensures environment (formed isKind)
      | sequence => exact sequence_ensures environment safe (formed isKind)
      | application => exact application_ensures environment safe (formed isKind)
      | returnStatement => exact returnStatement_ensures environment safe (formed isKind)
      | block => exact block_ensures environment safe (formed isKind)
      | booleanOperation => exact booleanOperation_ensures environment safe (formed isKind)

theorem program_ensures (known : composed → node.Sound) :
    Ensures composed (program evaluate node) fun _ => True := by
  have globalsSound : ∀ binding ∈ globals, binding.2.value.Sound anywhere := by
    refine List.forall_mem_append.mpr ⟨?_, ?_⟩ <;> intro binding member <;>
      obtain ⟨_, _, rfl⟩ := List.mem_map.mp member <;> trivial
  refine (Ensures.openFrame fun _ => globalsSound).bind fun first _ => ?_
  refine (Ensures.read (Node.declaredNames_yields known)).bind fun names _ => ?_
  refine (Ensures.openFrame (declared_sound names)).bind fun extended _ => ?_
  refine (safe node extended known).bind fun value _ => ?_
  cases value with
  | _ => exact .pure trivial

end

theorem eval_safe {composed : Prop} (fuel : Nat) : (eval fuel).Safe composed := by
  induction fuel with
  | zero => exact fun _ _ _ _ _ => trivial
  | succ fuel ih => exact expression_safe ih

/-- The mistakes that a program makes are possible in its tree. The store is
empty at the start and sound ever after, whatever the depth to which the
interpreter is let go. -/
theorem run_possible {fuel : Nat} {tree : Tree} {m : Mistake} {store : Store}
    (mistaken : run fuel tree = .error (.mistake m) store) : m.Possible tree.Composed := by
  have known (isComposed : tree.Composed) : (mark [] tree).Sound := ⟨.body, [], tree, isComposed, rfl⟩
  have empty : tree.Composed → ({} : Store).Sound anywhere := fun _ _ member => nomatch member
  have ended := program_ensures (eval_safe fuel) known {} empty
  rw [show program (eval fuel) (mark [] tree) {} = run fuel tree from rfl, mistaken] at ended
  exact ended

end ExplicitControl.Interpreter
