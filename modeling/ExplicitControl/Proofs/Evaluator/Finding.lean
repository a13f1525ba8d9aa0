import ExplicitControl.Proofs.Evaluator.Signature
import ExplicitControl.Proofs.Evaluator.Effects

namespace ExplicitControl.Evaluator

open Interpreter (Node Law Duty DutyEach Reads)

/-- What the machine reads off the program is there in the tree. -/
theorem reads_ok {α β : Type} {locate : List Bool → Nat} {rel : α → β → Prop} {x : Except Interpreter.Mistake α}
    {y : Except Error β} {b : β} (reads : Reads locate rel x y) (read : y = .ok b) : ∃ a, x = .ok a ∧ rel a b := by
  subst read
  cases reads with
  | ok related => exact ⟨_, rfl, related⟩

variable {layout : Layout} {law : Law} {census : Census} {σ : Context} {kind result left : Kind} {p q : Pointer}
  {cells : Cells} {tokens tokens' : Tokens} {memory : Memory} {node : Node}

/-- An operation on a pointer changes nothing, and what it gives is described. -/
def Finds (layout : Layout) (operation : HeapOperation) (p : Pointer) (cells : Cells) (post : Pointer → Prop) : Prop :=
  Action.Brings layout.program table (Operation.call operation.name (.addressAware operation) [p]) cells
    fun applied cells' => cells' = cells ∧ post applied.value

theorem Finds.read {operation : HeapOperation} {f : Memory → Except Error Pointer} {operands : List Pointer}
    {post : Pointer → Prop} (direct : operation ≠ .applyPrimitive)
    (run : operation.run [p] = do return ⟨← Action.inspect f, operands⟩)
    (read : ∀ memory q, memory.Bears layout.program table cells → f memory = .ok q → post q) :
    Finds layout operation p cells post := by
  unfold Finds
  rw [call_eq_run fun same => absurd same direct, run]
  exact .inspect_bind fun memory q bears found => .pure ⟨rfl, read memory q bears found⟩

section

variable (placed : node.At layout.program layout.locate p) (bears : memory.Bears layout.program table cells)
include placed bears

theorem programItem_node {index : Nat} (read : memory.programItem p index = .ok q) :
    ∃ part, node.item index = .ok part ∧ part.At layout.program layout.locate q := by
  obtain ⟨rfl, placed⟩ := placed
  rw [← bears.program] at placed ⊢
  exact reads_ok (Interpreter.programItem_reads placed index) read

theorem programHead_node (read : memory.programHead p = .ok q) :
    ∃ place head tail, node = .pair place head tail ∧ head.At layout.program layout.locate q := by
  obtain ⟨rfl, placed⟩ := placed
  rw [← bears.program] at placed ⊢
  obtain ⟨head, isHead, headPlaced⟩ := reads_ok (Interpreter.programHead_reads placed) read
  cases node with
  | leaf value => cases isHead
  | pair place head tail =>
    cases isHead
    exact ⟨place, head, tail, rfl, headPlaced⟩

theorem programTail_node (read : memory.programTail p = .ok q) :
    ∃ place head tail, node = .pair place head tail ∧ tail.At layout.program layout.locate q := by
  obtain ⟨rfl, placed⟩ := placed
  rw [← bears.program] at placed ⊢
  obtain ⟨tail, isTail, tailPlaced⟩ := reads_ok (Interpreter.programTail_reads placed) read
  cases node with
  | leaf value => cases isTail
  | pair place head tail =>
    cases isTail
    exact ⟨place, head, tail, rfl, tailPlaced⟩

theorem declarationSymbol_node (read : Environment.declarationSymbol memory p = .ok q) :
    ∃ symbol, node.declarationSymbol = .ok symbol ∧ symbol.At layout.program layout.locate q := by
  obtain ⟨rfl, placed⟩ := placed
  rw [← bears.program] at placed ⊢
  exact reads_ok (Interpreter.declarationSymbol_reads placed) read

theorem operand_node {index place : Nat}
    (read : (do memory.programItem (← memory.programItem p index) place) = .ok q) :
    ∃ list part, node.item index = .ok list ∧ list.item place = .ok part ∧
      part.At layout.program layout.locate q := by
  obtain ⟨r, readList, readItem⟩ := Read.bind_eq_ok_iff.mp read
  obtain ⟨list, isList, listPlaced⟩ := programItem_node placed bears readList
  obtain ⟨part, isPart, partPlaced⟩ := programItem_node listPlaced bears readItem
  exact ⟨list, part, isList, isPart, partPlaced⟩

end

/-- A node inside another form owes nothing. -/
theorem Holds.inner {grade : Grade} (known : census.Known σ.frame) (placed : node.At layout.program layout.locate p)
    (good : law.good .inner (grade.returns σ) node) :
    Holds layout law census σ (.node grade) (.pointer p) tokens := by
  obtain ⟨record, found⟩ := known
  exact .node placed good fun _ => ⟨record, 0, found, rfl, Multiset.zero_le _⟩

/-- What a selector finds in a form is the part of the node that the form has
there. -/
theorem select_sound {part : Selector} (found : State.found (.select part) kind = some result)
    (known : census.Known σ.frame) (holds : Holds layout law census σ kind (.pointer p) tokens) :
    Finds layout (.select part) p cells fun q => Holds layout law census σ result (.pointer q) tokens' := by
  refine .read nofun rfl fun memory q bears read => ?_
  cases holds with
  | @form form _ _ _ _ placed isKind good =>
    have parts := law.parts good
    obtain ⟨node, isPart, partPlaced⟩ := programItem_node placed bears read
    have inner (member : (form, part.index) ∈ Interpreter.innerParts) : law.good .inner false node :=
      parts.inner _ _ node member isKind isPart
    cases part <;> cases form <;> cases found
    case form.nameSymbol.name.refl => exact .any _
    case form.functionParameters.functionDefinition.refl => exact .any _
    case form.functionBody.functionDefinition.refl => exact .code partPlaced (parts.function node isKind isPart)
    case form.blockBody.block.refl => exact .code partPlaced (parts.block node isKind isPart)
    case form.conditionalConsequent.conditional.refl =>
      exact .inner known partPlaced (parts.branch 2 node (.inl rfl) isKind isPart)
    case form.conditionalAlternative.conditional.refl =>
      exact .inner known partPlaced (parts.branch 3 node (.inr rfl) isKind isPart)
    case form.argumentExpressions.application.refl =>
      exact .operands partPlaced (parts.operands node (.inl isKind) isPart)
    all_goals exact .inner known partPlaced (inner (by decide))
  | @core form _ _ _ _ _ placed isKind good =>
    obtain ⟨node, isPart, partPlaced⟩ := programItem_node placed bears read
    cases part <;> cases form <;> cases found
    exact .inner known partPlaced ((law.parts good).inner _ _ node (by decide) isKind isPart)
  | @spent _ node _ _ placed declares good =>
    obtain ⟨value, isPart, partPlaced⟩ := programItem_node placed bears read
    cases part <;> cases found
    have isKind : node.kind = some .constantDeclaration ∨ node.kind = some .variableDeclaration := by
      unfold Node.declares at declares
      split at declares
      · rename_i kind isKind
        cases kind <;> first | exact .inl isKind | exact .inr isKind | cases declares
      · cases declares
    rcases isKind with isKind | isKind
    · exact .inner known partPlaced ((law.parts good).inner _ _ value (by decide) isKind isPart)
    · exact .inner known partPlaced ((law.parts good).inner _ _ value (by decide) isKind isPart)
  | _ => cases part <;> cases found

section

variable {a : Nat} {head tail : Pointer} (fits : census.Fits layout law cells)
  (held : cells[a]? = some (head, tail))
include fits held

theorem environment_parts {f : Nat} (environment : census.Environment f (.pair a)) :
    ∃ record, census.frames[f]? = some record ∧ head = .pair record.address ∧
      (tail = .null ∨ ∃ outer, census.Environment outer tail) := by
  obtain ⟨_, same, role⟩ := environment
  cases same
  cases fits.allowed held role with
  | outermost known _ => exact ⟨_, known, rfl, .inl rfl⟩
  | environment known _ outer => exact ⟨_, known, rfl, .inr ⟨_, outer⟩⟩

theorem names_parts {items : List Pointer} (names : census.Names items (.pair a)) :
    ∃ rest, items = head :: rest ∧ census.Names rest tail := by
  cases items with
  | nil => cases names
  | cons name items =>
    obtain ⟨_, same, role⟩ := names
    cases same
    cases fits.allowed held role with
    | names rest => exact ⟨_, rfl, rest⟩

theorem bindings_parts {addresses : List Nat} (bindings : census.Bindings addresses (.pair a)) :
    ∃ cell rest, addresses = cell :: rest ∧ head = .pair cell ∧ census.Bindings rest tail := by
  cases addresses with
  | nil => cases bindings
  | cons cell addresses =>
    obtain ⟨_, same, role⟩ := bindings
    cases same
    cases fits.allowed held role with
    | bindings _ rest => exact ⟨cell, _, rfl, rfl, rest⟩

end

theorem getElem?_of_drop {α : Type} {items rest : List α} {item : α} {k : Nat} (split : items.drop k = item :: rest) :
    items[k]? = some item := by
  rw [← List.head?_drop, split]
  rfl

theorem drop_succ_of_drop {α : Type} {items rest : List α} {item : α} {k : Nat}
    (split : items.drop k = item :: rest) : items.drop (k + 1) = rest := by
  rw [← List.tail_drop, split]
  rfl

section

variable (fits : census.Fits layout law cells) (bears : memory.Bears layout.program table cells)
include fits bears

/-- What the head of a pair of an environment is, by what the pair is there
for. -/
theorem head_sound (found : State.found .head kind = some result)
    (holds : Holds layout law census σ kind (.pointer p) tokens) (read : memory.head p = .ok q) :
    Holds layout law census σ result (.pointer q) tokens' := by
  obtain ⟨a, tail, rfl, held⟩ := bears.of_head read
  cases holds with
  | @environment own _ _ _ environment _ =>
    cases own <;> cases found
    obtain ⟨record, known, rfl, _⟩ := environment_parts fits held environment
    exact .frame known nofun
  | chain environment =>
    cases found
    obtain ⟨record, known, rfl, _⟩ := environment_parts fits held environment
    exact .frame known nofun
  | frame known own =>
    cases found
    cases fits.allowed held (fits.frames _ _ known).address with
    | frame known' names _ =>
      cases known.symm.trans known'
      exact .names (k := 0) known names fun isOwn => ⟨(own isOwn).1, by rw [(own isOwn).2]⟩
  | @names own ahead _ k record _ _ known names isOwn =>
    obtain ⟨rest, split, _⟩ := names_parts fits held names
    cases own with
    | false =>
      cases found
      exact .any _
    | true =>
      cases ahead with
      | succ _ => cases found
      | zero =>
        cases found
        obtain ⟨rfl, rfl⟩ := isOwn rfl
        exact .name known (getElem?_of_drop split)
  | bindings known bindings own =>
    cases found
    obtain ⟨cell, rest, split, rfl, _⟩ := bindings_parts fits held bindings
    exact .binding known (getElem?_of_drop split) own
  | binding known listed _ =>
    cases found
    cases fits.allowed held ((fits.frames _ _ known).cells _ _ listed) with
    | binding value _ _ => exact .value value
  | _ => cases found

/-- What the tail of a pair of an environment is, by what the pair is there
for. -/
theorem tail_sound (found : State.found .tail kind = some result)
    (holds : Holds layout law census σ kind (.pointer p) tokens) (read : memory.tail p = .ok q) :
    Holds layout law census σ result (.pointer q) tokens' := by
  obtain ⟨a, head, rfl, held⟩ := bears.of_tail read
  have enclosing {f : Nat} (environment : census.Environment f (.pair a)) :
      Holds layout law census σ .chain (.pointer q) tokens' := by
    obtain ⟨_, _, _, rfl | ⟨outer, environment⟩⟩ := environment_parts fits held environment
    · exact .outside
    · exact .chain environment
  cases holds with
  | environment environment _ =>
    cases found
    exact enclosing environment
  | chain environment =>
    cases found
    exact enclosing environment
  | frame known own =>
    cases found
    cases fits.allowed held (fits.frames _ _ known).address with
    | frame known' _ bindings =>
      cases known.symm.trans known'
      exact .bindings (k := 0) known bindings fun isOwn => ⟨(own isOwn).1, (own isOwn).2.symm⟩
  | @names own ahead _ k record _ _ known names isOwn =>
    obtain ⟨rest, split, names⟩ := names_parts fits held names
    rw [← drop_succ_of_drop split] at names
    cases own with
    | false =>
      cases found
      exact .names known names nofun
    | true =>
      cases ahead with
      | succ _ => cases found
      | zero =>
        cases found
        obtain ⟨rfl, rfl⟩ := isOwn rfl
        exact .names known names fun _ => ⟨rfl, rfl⟩
  | @bindings own _ _ _ _ _ known bindings _ =>
    cases own <;> cases found
    obtain ⟨cell, rest, split, _, bindings⟩ := bindings_parts fits held bindings
    rw [← drop_succ_of_drop split] at bindings
    exact .bindings known bindings nofun
  | binding _ _ _ =>
    cases found
    exact .any _
  | _ => cases found

end

/-- What is found by an operation that leaves its operand as it is. -/
theorem found_sound {operation : HeapOperation} (found : State.found operation kind = some result)
    (fits : census.Fits layout law cells) (known : census.Known σ.frame)
    (holds : Holds layout law census σ kind (.pointer p) tokens) :
    Finds layout operation p cells fun q => Holds layout law census σ result (.pointer q) tokens' := by
  cases operation with
  | select part => exact select_sound found known holds
  | head => exact .read nofun rfl fun memory q bears read => head_sound fits bears found holds read
  | tail => exact .read nofun rfl fun memory q bears read => tail_sound fits bears found holds read
  | shortCircuitValue =>
    cases found
    exact .read nofun rfl fun _ _ _ _ => .any _
  | expressionKind =>
    cases found
    exact .read nofun rfl fun _ _ _ _ => .any _
  | declarationSymbol =>
    cases holds with
    | @form form _ _ _ _ placed isKind good =>
      cases form <;> cases found
      exact .read nofun rfl fun _ _ _ _ => .any _
    | _ => cases found
  | booleanFirst =>
    cases holds with
    | @core form _ _ _ _ _ placed isKind good =>
      cases form <;> cases found
      refine .read nofun rfl fun memory q bears read => ?_
      obtain ⟨list, part, isList, isPart, partPlaced⟩ := operand_node placed bears read
      exact .inner known partPlaced (((law.parts good).operands list (.inr isKind) isList).item isPart)
    | _ => cases found
  | booleanSecond =>
    cases holds with
    | @form form _ _ _ _ placed isKind good =>
      cases form <;> cases found
      refine .read nofun rfl fun memory q bears read => ?_
      obtain ⟨list, part, isList, isPart, partPlaced⟩ := operand_node placed bears read
      exact .inner known partPlaced (((law.parts good).operands list (.inr isKind) isList).item isPart)
    | _ => cases found
  | programHead =>
    cases holds with
    | operands placed each =>
      cases found
      refine .read nofun rfl fun memory q bears read => ?_
      obtain ⟨place, first, rest, rfl, firstPlaced⟩ := programHead_node placed bears read
      exact .inner known firstPlaced each.1
    | _ => cases found
  | programTail =>
    cases holds with
    | operands placed each =>
      cases found
      refine .read nofun rfl fun memory q bears read => ?_
      obtain ⟨place, first, rest, rfl, restPlaced⟩ := programTail_node placed bears read
      exact .operands restPlaced each.2
    | pending placed each covers =>
      cases found
      exact .read nofun rfl fun _ _ _ _ => .any _
    | _ => cases found
  | returnContent =>
    cases holds with
    | returned role =>
      cases found
      refine .read nofun rfl fun memory q bears read => ?_
      obtain ⟨a, head, same, held⟩ := bears.of_tail read
      cases same
      cases fits.allowed held role with
      | returned value => exact .value value
    | _ => cases found
  | _ => cases found

/-- What is found by an operation that takes tokens from its operand, which
then go with what is found and no longer with the operand. -/
theorem parted_sound {inPlace : Bool} {operation : HeapOperation}
    (parted : State.parted inPlace operation kind = some (left, result)) (fits : census.Fits layout law cells)
    (holds : Holds layout law census σ kind (.pointer p) tokens) :
    Finds layout operation p cells fun q => ∃ first rest, first + rest ≤ tokens ∧
      Holds layout law census σ result (.pointer q) first ∧ Holds layout law census σ left (.pointer p) rest := by
  cases operation with
  | select part =>
    cases holds with
    | @sequence site node _ _ placed isKind good covers =>
      cases part <;> cases parted
      refine .read nofun rfl fun memory q bears read => ⟨tokens, 0, by simp, ?_, .any _⟩
      obtain ⟨list, isList, listPlaced⟩ := programItem_node placed bears read
      refine .statements listPlaced ((law.parts good).elements list isKind isList) fun scanned => ?_
      obtain ⟨record, owed, known, duty, le⟩ := covers scanned
      exact ⟨record, owed, known, duty.elements isKind isList, le⟩
    | _ => cases part <;> cases parted
  | declarationSymbol =>
    cases holds with
    | @declaring site node _ _ placed declares good covers =>
      cases parted
      refine .read nofun rfl fun memory q bears read => ⟨tokens, 0, by simp, ?_, .any _⟩
      obtain ⟨name, isName, rfl, _⟩ := declarationSymbol_node placed bears read
      refine .wanted fun scanned => ?_
      obtain ⟨record, owed, known, duty, le⟩ := covers scanned
      obtain ⟨symbol, place, isSymbol, named, rfl⟩ :=
        duty.declaration declares ((law.parts good).declaration declares scanned).1
      cases isName.symm.trans isSymbol
      refine ⟨record, symbol, place, known, named, rfl, ?_, by simp⟩
      exact Multiset.mem_of_le le (Multiset.mem_map_of_mem _ (Multiset.mem_singleton_self place))
    | _ => cases parted
  | programHead =>
    cases holds with
    | @statements site list _ _ placed each covers =>
      cases parted
      refine .read nofun rfl fun memory q bears read => ?_
      obtain ⟨place, first, rest, rfl, firstPlaced⟩ := programHead_node placed bears read
      cases scanned : law.scanned with
      | false =>
        refine ⟨0, 0, Multiset.zero_le _, .node firstPlaced each.1 ?_, .pending placed each.2 ?_⟩
        · exact fun isScanned => by rw [scanned] at isScanned; cases isScanned
        · exact fun isScanned => by rw [scanned] at isScanned; cases isScanned
      | true =>
        obtain ⟨record, owed, known, duty, le⟩ := covers scanned
        obtain ⟨here, others, dutyHere, dutyOthers, rfl⟩ := duty.parts
        refine ⟨here.map (Prod.mk σ.frame), others.map (Prod.mk σ.frame), ?_, .node firstPlaced each.1 ?_,
          .pending placed each.2 ?_⟩
        · rwa [Multiset.map_add] at le
        · exact fun _ => ⟨record, here, known, dutyHere, le_refl _⟩
        · exact fun _ => ⟨record, others, known, dutyOthers, le_refl _⟩
    | _ => cases parted
  | programTail =>
    cases holds with
    | pending placed each covers =>
      cases inPlace <;> cases parted
      refine .read nofun rfl fun memory q bears read => ⟨tokens, 0, by simp, ?_, .any _⟩
      obtain ⟨_, _, _, same, restPlaced⟩ := programTail_node placed bears read
      cases same
      exact .statements restPlaced each covers
    | _ => cases parted
  | compoundBody =>
    cases holds with
    | called role placed good covers =>
      cases parted
      refine .read nofun rfl fun memory q bears read => ⟨tokens, 0, by simp, ?_, .closure role⟩
      obtain ⟨_, _, _, _, closure⟩ := fits.closure role
      rw [closure.item_two bears] at read
      cases read
      exact .node placed good covers
    | _ => cases parted
  | _ => cases parted

end ExplicitControl.Evaluator
