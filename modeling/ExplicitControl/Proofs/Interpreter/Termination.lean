import ExplicitControl.Proofs.Interpreter.Evaluate

namespace ExplicitControl

/-- No pair of the tree is a function definition. -/
def Tree.Functionless : Tree → Prop
  | .atom _ => True
  | .pair head tail =>
    head ≠ .atom (.string "function_definition") ∧ head.Functionless ∧ tail.Functionless

namespace Interpreter

open Interpretation

namespace Node

/-- The number of pairs and leaves. -/
def size : Node → Nat
  | .leaf _ => 1
  | .pair _ head tail => head.size + tail.size + 1

/-- No pair is a function definition. -/
def Functionless : Node → Prop
  | .leaf _ => True
  | .pair _ head tail =>
    head ≠ .leaf (.string "function_definition") ∧ head.Functionless ∧ tail.Functionless

/-- A node without function definitions that is no larger than a bound. -/
structure Within (bound : Nat) (node : Node) : Prop where
  size : node.size ≤ bound
  functionless : node.Functionless

variable {bound : Nat} {node part head tail : Node} {place : List Bool}

theorem Within.mono {large : Nat} (within : node.Within bound) (le : bound ≤ large) : node.Within large :=
  ⟨Nat.le_trans within.size le, within.functionless⟩

theorem Within.parts (within : (pair place head tail).Within (bound + 1)) :
    head.Within bound ∧ tail.Within bound := by
  obtain ⟨size, _, headFree, tailFree⟩ := within
  simp only [Node.size] at size
  exact ⟨⟨by omega, headFree⟩, ⟨by omega, tailFree⟩⟩

/-- Items are smaller than what they are items of, so the depth that is left
is enough for them. -/
theorem Within.item {index : Nat} (within : node.Within (bound + 1)) (found : node.item index = .ok part) :
    part.Within bound := by
  induction index generalizing node with
  | zero =>
    cases node with
    | leaf value => cases found
    | pair place head tail => exact Except.ok.inj found ▸ within.parts.1
  | succ index ih =>
    cases node with
    | leaf value => cases found
    | pair place head tail => exact ih (within.parts.2.mono (Nat.le_succ bound)) found

theorem not_within_zero : ¬ node.Within 0 := by
  rintro ⟨size, _⟩
  cases node with
  | leaf value => exact Nat.not_succ_le_zero 0 size
  | pair place head tail => exact Nat.not_succ_le_zero _ size

theorem Functionless.kind_ne (functionless : node.Functionless) : node.kind ≠ some .functionDefinition := by
  intro isDefinition
  cases node with
  | leaf value => cases isDefinition
  | pair place head tail =>
    unfold Node.kind at isDefinition
    split at isDefinition
    case h_1 => cases isDefinition
    case h_2 tag _ same =>
      cases same
      have tagged := List.find?_some isDefinition
      simp only [ExpressionKind.tags, List.contains_cons, List.contains_nil, Bool.or_false, beq_iff_eq] at tagged
      exact functionless.1 (congrArg (fun tag => leaf (.string tag)) tagged)
    case h_3 => cases isDefinition

end Node

/-- No closure, and no closure returned. -/
def Value.Plain : Value → Prop
  | .closure _ _ _ _ => False
  | .returned _ content => content.Plain
  | _ => True

/-- No cell holds a closure. -/
def Store.Plain (store : Store) : Prop :=
  ∀ cell ∈ store.cells, cell.value.Plain

/-- A computation has come to an end, with what is said of its value and a
store without closures, or with a mistake. -/
def Ended {α : Type} (post : α → Prop) : EStateM.Result Halt Store α → Prop
  | .ok a store => post a ∧ store.Plain
  | .error (.mistake _) _ => True
  | .error .unfinished _ => False

/-- From whatever store without closures it starts, a computation comes to an
end, with a store that still has none. Closures are the one way back to an
expression that was evaluated before. -/
def Ends {α : Type} (x : Interpretation α) (post : α → Prop) : Prop :=
  ∀ store : Store, store.Plain → Ended post (x store)

namespace Ends

variable {α β : Type} {x : Interpretation α} {post : α → Prop}

theorem pure {a : α} (holds : post a) : Ends (pure a) post :=
  fun _ plain => ⟨holds, plain⟩

theorem fail (m : Mistake) : Ends (fail m) post :=
  fun _ _ => trivial

theorem read {x : Except Mistake α} (found : ∀ a, x = .ok a → post a) : Ends (read x) post := by
  cases x with
  | ok a => exact .pure (found a rfl)
  | error m => exact .fail m

theorem bind {f : α → Interpretation β} {goal : β → Prop} (first : Ends x post)
    (next : ∀ a, post a → Ends (f a) goal) : Ends (x >>= f) goal := by
  intro store plain
  have started := first store plain
  change Ended goal (EStateM.bind x f store)
  unfold EStateM.bind
  cases run : x store with
  | ok a store' =>
    rw [run] at started
    exact next a started.1 store' started.2
  | error halt store' =>
    rw [run] at started
    cases halt with
    | mistake m => trivial
    | unfinished => exact started

/-- Something that does not matter is read first: if it fails, the computation
has come to an end. -/
theorem after {x : Except Mistake α} {f : α → Interpretation β} {goal : β → Prop}
    (next : ∀ a, Ends (f a) goal) : Ends (Interpretation.read x >>= f) goal := by
  have known : Ends (Interpretation.read x) fun _ => True := read fun _ _ => trivial
  exact known.bind fun a _ => next a

theorem identity : Ends identity fun _ => True :=
  fun _ plain => ⟨trivial, plain⟩

theorem cell (location : Nat) : Ends (cell location) fun cell => cell.value.Plain := by
  refine fun store plain => ⟨?_, plain⟩
  rw [List.getD_eq_getElem?_getD]
  cases found : store.cells[location]? with
  | none => trivial
  | some cell => exact plain cell (List.mem_of_getElem? found)

theorem setCell {location : Nat} {cell : Cell} (isPlain : cell.value.Plain) :
    Ends (setCell location cell) fun _ => True := by
  refine fun store plain => ⟨trivial, fun other member => ?_⟩
  rcases List.mem_or_eq_of_mem_set member with old | rfl
  · exact plain other old
  · exact isPlain

theorem openFrame {bindings : List (Node × Cell)} {environment : List Frame}
    (isPlain : ∀ binding ∈ bindings, binding.2.value.Plain) :
    Ends (openFrame bindings environment) fun _ => True := by
  refine fun store plain => ⟨trivial, fun cell member => ?_⟩
  rcases List.mem_append.mp member with old | new
  · exact plain cell old
  · obtain ⟨binding, isNew, rfl⟩ := List.mem_map.mp new
    exact isPlain binding isNew

theorem lookup (environment : List Frame) (symbol : Node) : Ends (lookup environment symbol) fun _ => True := by
  unfold Interpreter.lookup
  split
  · exact .pure trivial
  · exact .fail _

theorem truth (value : Value) : Ends (truth value) fun _ => True := by
  unfold Interpreter.truth
  split
  · exact .pure trivial
  · exact .fail _

end Ends

theorem declared_plain (names : List Node) : ∀ binding ∈ names.map declared, binding.2.value.Plain := by
  intro binding member
  obtain ⟨symbol, _, rfl⟩ := List.mem_map.mp member
  trivial

/-- No function that every program has makes a closure. What comes out of one
is a scalar. -/
theorem builtin_plain (function : Builtin) (values : List Value) :
    ∀ value, function.apply values = .ok value → value.Plain := by
  intro value applied
  unfold Builtin.apply at applied
  split at applied
  · cases applied
    trivial
  · cases applied
    trivial
  · rename_i operation
    cases given : scalars values with
    | error m =>
      rw [given] at applied
      cases applied
    | ok operands =>
      rw [given] at applied
      simp only [bind, Except.bind] at applied
      split at applied
      · cases applied
        trivial
      · cases applied
  · cases applied

/-- An interpreter that comes to an end on nodes up to a size. -/
def Evaluation.EndsWithin (bound : Nat) (evaluate : Evaluation) : Prop :=
  ∀ node environment, node.Within bound → Ends (evaluate node environment) Value.Plain

section

variable {bound : Nat} {evaluate : Evaluation} {node : Node} (environment : List Frame)

theorem name_ends : Ends (name node environment) Value.Plain := by
  refine .after fun symbol => (Ends.lookup environment symbol).bind fun location _ => ?_
  refine (Ends.cell location).bind fun cell plain => ?_
  split
  · exact .fail _
  · exact .pure plain

variable (parts : evaluate.EndsWithin bound)
include parts

/-- A part is evaluated first, and is small enough for the interpreter to come
to an end on it. -/
theorem part_ends {α : Type} {index : Nat} {rest : Value → Interpretation α} {goal : α → Prop}
    (within : node.Within (bound + 1)) (next : ∀ value, value.Plain → Ends (rest value) goal) :
    Ends (read (node.item index) >>= fun part => evaluate part environment >>= rest) goal :=
  (Ends.read fun _ found => within.item found).bind fun part small => (parts part environment small).bind next

theorem declaration_ends (flag : Flag) (within : node.Within (bound + 1)) :
    Ends (declaration flag evaluate node environment) Value.Plain := by
  refine part_ends environment parts within fun value plain => .after fun symbol => ?_
  refine (Ends.lookup environment symbol).bind fun location _ => ?_
  exact (Ends.setCell plain).bind fun _ _ => .pure trivial

theorem assignment_ends (within : node.Within (bound + 1)) :
    Ends (assignment evaluate node environment) Value.Plain := by
  refine part_ends environment parts within fun value plain => .after fun symbol => ?_
  refine (Ends.lookup environment symbol).bind fun location _ => (Ends.cell location).bind fun cell _ => ?_
  cases cell.flag with
  | uninitialised => exact .fail _
  | constant => exact .fail _
  | mutable => exact (Ends.setCell plain).bind fun _ _ => .pure plain

theorem conditional_ends (within : node.Within (bound + 1)) :
    Ends (conditional evaluate node environment) Value.Plain := by
  refine part_ends environment parts within fun value _ => (Ends.truth value).bind fun chosen _ => ?_
  exact (Ends.read fun _ found => within.item found).bind fun branch small => parts branch environment small

theorem booleanOperation_ends (within : node.Within (bound + 1)) :
    Ends (booleanOperation evaluate node environment) Value.Plain := by
  have operand (index : Nat) : Ends (read (do (← node.item 2).item index)) (Node.Within bound) := by
    refine .read fun part found => ?_
    cases isList : node.item 2 with
    | error m =>
      rw [isList] at found
      cases found
    | ok list =>
      rw [isList] at found
      exact ((within.item isList).mono (Nat.le_succ bound)).item found
  refine (operand 0).bind fun first small => (parts first environment small).bind fun value _ => ?_
  refine (Ends.truth value).bind fun chosen _ => .after fun settling => ?_
  split
  · exact .pure trivial
  · exact (operand 1).bind fun second small => parts second environment small

theorem block_ends (within : node.Within (bound + 1)) : Ends (block evaluate node environment) Value.Plain := by
  refine (Ends.read fun _ found => within.item found).bind fun body small => .after fun names => ?_
  exact (Ends.openFrame (declared_plain names)).bind fun extended _ => parts body extended small

theorem returnStatement_ends (within : node.Within (bound + 1)) :
    Ends (returnStatement evaluate node environment) Value.Plain :=
  part_ends environment parts within fun _ plain => Ends.identity.bind fun _ _ => .pure plain

theorem statements_ends (list : Node) (within : list.Within (bound + 1)) :
    Ends (statements evaluate environment list) Value.Plain := by
  -- the rest of the list is no expression: its statements are smaller than the list still
  induction list with
  | leaf value => exact .fail _
  | pair place first rest _ ih =>
    obtain ⟨firstSmall, restSmall⟩ := within.parts
    simp only [statements]
    split
    · exact parts first environment firstSmall
    · refine (parts first environment firstSmall).bind fun value plain => ?_
      cases value with
      | returned identity content => exact .pure plain
      | _ => exact ih (restSmall.mono (Nat.le_succ bound))

theorem sequence_ends (within : node.Within (bound + 1)) : Ends (sequence evaluate node environment) Value.Plain := by
  refine (Ends.read fun _ found => within.item found).bind fun list small => ?_
  split
  · exact .pure trivial
  · exact statements_ends environment parts list (small.mono (Nat.le_succ bound))

theorem arguments_ends (list : Node) (within : list.Within (bound + 1)) :
    Ends (arguments evaluate environment list) fun _ => True := by
  induction list with
  | leaf value => exact .fail _
  | pair place first rest _ ih =>
    obtain ⟨firstSmall, restSmall⟩ := within.parts
    refine (parts first environment firstSmall).bind fun value _ => ?_
    split
    · exact .pure trivial
    · exact (ih (restSmall.mono (Nat.le_succ bound))).bind fun _ _ => .pure trivial

omit parts in
/-- There is no closure to be called, so a call is one of a function that
every program has, which evaluates nothing. -/
theorem call_ends (function : Value) (values : List Value) (plain : function.Plain) :
    Ends (call evaluate function values) Value.Plain := by
  cases function with
  | scalar value => exact .fail _
  | returned identity content => exact .fail _
  | builtin function => exact .read (builtin_plain function values)
  | closure identity parameters body environment => exact plain.elim

theorem application_ends (within : node.Within (bound + 1)) :
    Ends (application evaluate node environment) Value.Plain := by
  refine (Ends.read fun _ found => within.item found).bind fun list small => ?_
  refine part_ends environment parts within fun function plain => ?_
  split
  · exact call_ends function [] plain
  · refine (arguments_ends environment parts list (small.mono (Nat.le_succ bound))).bind fun values _ => ?_
    exact call_ends function values plain

/-- Forms come to an end where smaller nodes do. Each form evaluates parts of
itself only, since closures are never made. -/
theorem expression_ends : Evaluation.EndsWithin (bound + 1) (expression evaluate) := by
  intro node environment within
  cases node with
  | leaf value => exact .pure trivial
  | pair place head tail =>
    unfold expression
    cases isKind : (Node.pair place head tail).kind with
    | none => exact .fail _
    | some kind =>
      cases kind with
      | selfEvaluating => exact .fail _
      | name => exact name_ends environment
      | constantDeclaration => exact declaration_ends environment parts .constant within
      | variableDeclaration => exact declaration_ends environment parts .mutable within
      | assignment => exact assignment_ends environment parts within
      | conditional => exact conditional_ends environment parts within
      | functionDefinition => exact absurd isKind within.functionless.kind_ne
      | sequence => exact sequence_ends environment parts within
      | application => exact application_ends environment parts within
      | returnStatement => exact returnStatement_ends environment parts within
      | block => exact block_ends environment parts within
      | booleanOperation => exact booleanOperation_ends environment parts within

theorem program_ends (within : node.Within bound) : Ends (program evaluate node) fun _ => True := by
  have globalsPlain : ∀ binding ∈ globals, binding.2.value.Plain := by
    refine List.forall_mem_append.mpr ⟨?_, ?_⟩ <;> intro binding member <;>
      obtain ⟨_, _, rfl⟩ := List.mem_map.mp member <;> trivial
  refine (Ends.openFrame globalsPlain).bind fun first _ => .after fun names => ?_
  refine (Ends.openFrame (declared_plain names)).bind fun extended _ => ?_
  refine (parts node extended within).bind fun value _ => ?_
  -- a return at the top is taken apart, so that the value has to be looked at
  cases value <;> exact .pure trivial

end

/-- An expression is evaluated no deeper than it is large, by induction on its
size. -/
theorem eval_ends (bound : Nat) : (eval bound).EndsWithin bound := by
  induction bound with
  | zero => exact fun _ _ within => absurd within Node.not_within_zero
  | succ bound ih => exact expression_ends ih

theorem functionless_mark {tree : Tree} (functionless : tree.Functionless) (place : List Bool) :
    (mark place tree).Functionless := by
  induction tree generalizing place with
  | atom value => trivial
  | pair head tail headIH tailIH =>
    obtain ⟨isOther, headFree, tailFree⟩ := functionless
    refine ⟨fun same => isOther ?_, headIH headFree _, tailIH tailFree _⟩
    cases head with
    | atom value => cases same; rfl
    | pair _ _ => cases same

/-- A program that defines no function comes to an end, when it is let go as
deep as its tree is large. Its expressions are evaluated once each at most,
and what is evaluated next is a smaller part of the tree. -/
theorem run_ends {tree : Tree} (functionless : tree.Functionless) (store : Store) :
    run (mark [] tree).size tree ≠ .error .unfinished store := by
  have ended := program_ends (eval_ends _) ⟨Nat.le_refl _, functionless_mark functionless []⟩ {}
    fun _ member => nomatch member
  intro unfinished
  change Ended _ (run (mark [] tree).size tree) at ended
  rw [unfinished] at ended
  exact ended

end Interpreter

end ExplicitControl
