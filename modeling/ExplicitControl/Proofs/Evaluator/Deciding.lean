import ExplicitControl.Proofs.Evaluator.Preservation

namespace ExplicitControl.Evaluator

open Interpreter (Node Law)
open Listing

variable {layout : Layout} {law : Law} {census later : Census} {st other : State} {s s' : Scene}

/-- The pairs are written, and no more is known of the flag. -/
def Fitting.rewritten (fit : Fitting layout law census st s) {cells : Cells} (heap : census.Fits layout law cells)
    (flag : Bool) (position : Nat) :
    Fitting layout law census { st with fact := .none } ⟨s.registers, s.stack, cells, flag, position⟩ :=
  { fit with heap, fact := trivial }

/-- More is known of a register. -/
def Fitting.refined (fit : Fitting layout law census st s) {index : Nat} {kind : Kind}
    (holds : index < Evaluator.registers.length →
      Holds layout law census fit.σ kind (s.registers index) (fit.debts index)) :
    Fitting layout law census (st.set index kind) s :=
  { fit with
    registers := by
      intro i inside
      by_cases same : i = index
      · subst same
        simp only [State.set, Function.update_self]
        exact holds inside
      · simp only [State.set, Function.update_of_ne same]
        exact fit.registers i inside
    fact := trivial }

def Fitting.forgotten (fit : Fitting layout law census st s) : Fitting layout law census { st with fact := .none } s :=
  { fit with fact := trivial }

/-- Where the control is does not matter. -/
def Fitting.moved (fit : Fitting layout law census st s) (position : Nat) :
    Fitting layout law census st { s with position } :=
  { fit with fact := by have fact := fit.fact; cases isFact : st.fact <;> rw [isFact] at fact <;> exact fact }

/-- A place of a frame is not owed any more once it has been declared. -/
theorem Ledger.declared {tokens : Tokens} {token : Nat × Nat} (ledger : Ledger census (token ::ₘ tokens)) :
    Ledger (census.declare token) tokens := by
  have rest : Ledger census tokens := ledger.mono (Multiset.le_cons_self _ _)
  refine ⟨rest.nodup, fun other member declared => ?_, rest.inner⟩
  rcases List.mem_cons.mp declared with rfl | declared
  · exact (Multiset.nodup_cons.mp ledger.nodup).1 member
  · exact rest.undeclared other member declared

/-- The place of a binding counts as declared. -/
def Settled (law : Law) (census : Census) (contents : Contents) : Prop :=
  law.scanned = true → ∀ address frame place, contents = .pointer (.pair address) →
    census.Has address (.binding frame place) → (frame, place) ∈ census.declared

section

variable {binding value : Nat} (insideBinding : binding < Evaluator.registers.length)
  (insideValue : value < Evaluator.registers.length) (fit : Fitting layout law census st s)
include insideBinding insideValue fit

/-- A binding gets a value, which must be one that a binding may have. -/
theorem Fitting.setHead {own : Bool} (moves : Moves layout.program (Evaluator.act .setHead [binding, value]) s s')
    (isBinding : st.registers binding = .binding own) (isValue : (st.registers value).le (.value .plain) = true) :
    Nonempty (Fitting layout law census { st with fact := .none } s') := by
  have bindingHeld := fit.registers binding insideBinding
  have valueHeld := (fit.registers value insideValue).le isValue
  rw [isBinding] at bindingHeld
  generalize isCell : s.registers binding = cell at bindingHeld
  generalize isPlain : s.registers value = plain at valueHeld
  cases bindingHeld with
  | @binding _ f k a record _ known listed _ =>
    cases valueHeld with
    | @value _ p _ value =>
      have role := (fit.heap.frames _ _ known).cells _ _ listed
      have written : Action.Brings layout.program table (Action.setHead (.pair a) p) s.heap
          fun _ cells => census.Fits layout law cells := by
        refine .setHead fun a head tail same found => ?_
        cases same
        cases fit.heap.allowed found role with
        | binding _ flag undeclared => exact fit.heap.set role (.binding value flag undeclared)
      obtain ⟨_, _, cells, _, fits, rfl⟩ := moves.act (fun _ _ cells => census.Fits layout law cells)
        (fun ps supplies => by
          rw [supplies_two isCell isPlain supplies]
          exact brings_of_run nofun (written.bind (fun _ _ fits => .pure fits) fun _ => .pure _))
      exact ⟨fit.rewritten fits _ _⟩

/-- The flag of a binding is set, and nothing else of it. -/
theorem Fitting.setTail_cells {own : Bool}
    (moves : Moves layout.program (Evaluator.act .setTail [binding, value]) s s')
    (isBinding : st.registers binding = .binding own) (isTruth : st.registers value = .truth) :
    ∃ address frame place cells, s.registers binding = .pointer (.pair address) ∧
      census.Has address (.binding frame place) ∧ (own = true → frame = fit.σ.frame ∧ place = fit.σ.cursor) ∧
      (∀ later, census.Extends later → later.Fits layout law s.heap →
        (law.scanned = true → (frame, place) ∈ later.declared) → later.Fits layout law cells) ∧
      s' = ⟨s.registers, s.stack, cells, s.flag, s.position + 1⟩ := by
  have bindingHeld := fit.registers binding insideBinding
  have truthHeld := fit.registers value insideValue
  rw [isBinding] at bindingHeld
  rw [isTruth] at truthHeld
  generalize isCell : s.registers binding = cell at bindingHeld
  generalize isFlag : s.registers value = flag at truthHeld
  cases bindingHeld with
  | @binding _ f k a record _ known listed isOwn =>
    cases truthHeld with
    | truth b =>
      have role := (fit.heap.frames _ _ known).cells _ _ listed
      let after (cells : Cells) : Prop := ∀ later, census.Extends later → later.Fits layout law s.heap →
        (law.scanned = true → (f, k) ∈ later.declared) → later.Fits layout law cells
      have written : Action.Brings layout.program table (Action.setTail (.pair a) (.bool b)) s.heap
          fun _ cells => after cells := by
        refine .setTail fun a head tail same found later ext fits declared => ?_
        cases same
        cases fits.allowed found (ext.has role) with
        | binding value _ _ =>
          refine fits.set (ext.has role) (.binding value ?_ fun scanned _ undeclared => ?_)
          · cases b
            · exact .inr (.inl rfl)
            · exact .inl rfl
          · exact absurd (declared scanned) undeclared
      obtain ⟨_, _, cells, _, fits, rfl⟩ := moves.act (fun _ _ cells => after cells)
        (fun ps supplies => by
          rw [supplies_two isCell isFlag supplies]
          exact brings_of_run nofun (written.bind (fun _ _ fits => .pure fits) fun _ => .pure _))
      exact ⟨a, f, k, cells, rfl, role, isOwn, fits, rfl⟩

/-- A declaration is carried out, and its place is owed no more. So another
declaration that owes a place owes another one. -/
theorem Fitting.declare (moves : Moves layout.program (Evaluator.act .setTail [binding, value]) s s')
    (isBinding : st.registers binding = .binding true) (isTruth : st.registers value = .truth)
    (isHit : st.registers a = .hit) :
    ∃ later, census.Extends later ∧ Settled law later (s.registers binding) ∧
      Nonempty (Fitting layout law later (st.set a .any) s') := by
  obtain ⟨address, frame, place, cells, isCell, role, own, fits, rfl⟩ :=
    fit.setTail_cells insideBinding insideValue moves isBinding isTruth
  obtain ⟨rfl, rfl⟩ := own rfl
  have held := fit.registers a (by decide)
  rw [isHit] at held
  cases scanned : law.scanned with
  | false =>
    have unscanned : law.scanned = true → False := fun isScanned => by rw [scanned] at isScanned; cases isScanned
    have heap := fits census (.refl census) fit.heap fun isScanned => (unscanned isScanned).elim
    exact ⟨census, .refl census, fun isScanned => (unscanned isScanned).elim,
      ⟨(fit.refined fun _ => .any _).rewritten heap _ _⟩⟩
  | true =>
    have member : (fit.σ.frame, fit.σ.cursor) ∈ fit.debts a := by
      generalize s.registers a = contents at held
      cases held with
      | hit _ owed => exact owed scanned
    obtain ⟨rest, split⟩ := Multiset.exists_cons_of_mem member
    have ext := census.extends_declare (fit.σ.frame, fit.σ.cursor)
    have updated := total_update fit.debts rest (show a < Evaluator.registers.length by decide)
    rw [split, ← Multiset.singleton_add, ← add_assoc, add_left_inj] at updated
    have ledger := fit.ledger
    rw [← updated, add_right_comm _ _ fit.slotTokens, add_right_comm _ _ fit.baseTokens, add_comm _ {_},
      Multiset.singleton_add] at ledger
    have inside := (ledger.inner _ (Multiset.mem_cons_self _ _)).2
    refine ⟨census.declare (fit.σ.frame, fit.σ.cursor), ext, ?_, ?_⟩
    · intro _ address' frame' place' isCell' role'
      cases isCell.symm.trans isCell'
      cases role.symm.trans role'
      exact List.mem_cons_self
    · refine ⟨⟨fit.σ, Function.update fit.debts a rest, fit.slots, fit.slotTokens, fit.base, fit.baseTokens,
        fits _ ext (fit.heap.declare inside) fun _ => List.mem_cons_self, fun index insideIndex => ?_, fit.stack,
        fit.row.extend ext, fit.ground.extend ext rfl, trivial, ledger.declared⟩⟩
      by_cases same : index = a
      · subst same
        simp only [State.set, Function.update_self]
        exact .any _
      · simp only [State.set, Function.update_of_ne same]
        exact (fit.registers index insideIndex).extend ext

/-- Where declarations need not be scanned out, there is nothing to keep track
of. -/
theorem Fitting.overwrite (moves : Moves layout.program (Evaluator.act .setTail [binding, value]) s s')
    (isBinding : st.registers binding = .binding false) (isTruth : st.registers value = .truth)
    (isStray : st.registers a = .stray) :
    Settled law census (s.registers binding) ∧ Nonempty (Fitting layout law census { st with fact := .none } s') := by
  obtain ⟨address, frame, place, cells, _, _, _, fits, rfl⟩ :=
    fit.setTail_cells insideBinding insideValue moves isBinding isTruth
  have held := fit.registers a (by decide)
  rw [isStray] at held
  have unscanned : law.scanned = true → False := by
    intro isScanned
    generalize s.registers a = contents at held
    cases held with
    | stray _ unscanned => rw [unscanned] at isScanned; cases isScanned
  exact ⟨fun isScanned => (unscanned isScanned).elim,
    ⟨fit.rewritten (fits census (.refl census) fit.heap fun isScanned => (unscanned isScanned).elim) _ _⟩⟩

end

/-- An operation is carried out for its effect. -/
theorem Fitting.act {operation : HeapOperation} {inputs : List Nat} (fit : Fitting layout law census st s)
    (insideInputs : ∀ index ∈ inputs, index < Evaluator.registers.length)
    (acts : st.act operation inputs = some other)
    (moves : Moves layout.program (Evaluator.act operation inputs) s s') :
    ∃ later, census.Extends later ∧
      (∀ binding value, operation = .setTail → inputs = [binding, value] → Settled law later (s.registers binding)) ∧
      Nonempty (Fitting layout law later other s') := by
  unfold State.act at acts
  split at acts
  · split at acts
    · rename_i ready
      simp only [Bool.and_eq_true, decide_eq_true_eq] at ready
      cases acts
      cases moves.clearStack
      have row := fit.row
      have ground := fit.ground
      rw [ready.1] at row
      rw [ready.2] at ground
      have empty : s.stack = [] := by
        rw [fit.stack, ground.1]
        generalize fit.slots = slots, fit.slotTokens = tokens at row
        cases row
        rfl
      rw [← empty]
      exact ⟨census, .refl census, nofun, ⟨fit.rewritten fit.heap _ _⟩⟩
    · cases acts
  · simp only [List.forall_mem_cons, List.not_mem_nil, false_implies, implies_true, and_true] at insideInputs
    split at acts
    · split at acts
      · cases acts
        exact ⟨census, .refl census, nofun, fit.setHead insideInputs.1 insideInputs.2 moves ‹_› ‹_›⟩
      · cases acts
    · cases acts
  · simp only [List.forall_mem_cons, List.not_mem_nil, false_implies, implies_true, and_true] at insideInputs
    split at acts
    · rename_i isTruth
      split at acts
      · cases acts
        obtain ⟨later, ext, settled, fits⟩ := fit.declare insideInputs.1 insideInputs.2 moves ‹_› isTruth ‹_›
        exact ⟨later, ext, fun _ _ _ same => by cases same; exact settled, fits⟩
      · cases acts
        obtain ⟨settled, fits⟩ := fit.overwrite insideInputs.1 insideInputs.2 moves ‹_› isTruth ‹_›
        exact ⟨census, .refl census, fun _ _ _ same => by cases same; exact settled, fits⟩
      · cases acts
    · cases acts
  · cases acts

/-- A test that changes nothing sets the flag. -/
theorem Moves.tested {operation : HeapOperation} {inputs : List Input}
    (moves : Moves layout.program (.test (use operation inputs)) s s') (post : List Pointer → Bool → Prop)
    (direct : operation ≠ .applyPrimitive)
    (finds : ∀ ps, s.Supplies inputs ps → Action.Brings layout.program table (operation.run ps) s.heap
      fun applied cells => cells = s.heap ∧ ∃ flag, applied.value = .bool flag ∧ post ps flag) :
    ∃ ps flag, s.Supplies inputs ps ∧ post ps flag ∧
      s' = ⟨s.registers, s.stack, s.heap, flag, s.position + 1⟩ := by
  obtain ⟨ps, flag, cells, supplies, ⟨rfl, flag', same, holds⟩, rfl⟩ := moves.ask
    (fun ps value cells => cells = s.heap ∧ ∃ flag, value = .bool flag ∧ post ps flag)
    fun ps supplies => brings_of_run direct (finds ps supplies)
  cases same
  exact ⟨ps, flag, supplies, holds, rfl⟩

theorem Moves.isKind {kind : PointerKind} {index : Nat}
    (moves : Moves layout.program (.test (use (.isKind kind) [.register index])) s s') :
    ∃ p, s.registers index = .pointer p ∧ s' = ⟨s.registers, s.stack, s.heap, kind.test p, s.position + 1⟩ := by
  obtain ⟨_, _, supplies, ⟨p, rfl, rfl⟩, same⟩ :=
    moves.tested (fun ps flag => ∃ p, ps = [p] ∧ flag = kind.test p) nofun
    fun ps supplies => by
      obtain _ | ⟨_, rest⟩ := supplies
      cases rest
      exact .pure ⟨rfl, _, rfl, _, rfl, rfl⟩
  obtain _ | ⟨held, _⟩ := supplies
  exact ⟨p, held, same⟩

theorem Moves.identical {one other : Input}
    (moves : Moves layout.program (.test (use .identical [one, other])) s s') :
    ∃ p q, s.input one = .pointer p ∧ s.input other = .pointer q ∧
      s' = ⟨s.registers, s.stack, s.heap, p == q, s.position + 1⟩ := by
  obtain ⟨_, _, supplies, ⟨p, q, rfl, rfl⟩, same⟩ := moves.tested
    (fun ps flag => ∃ p q, ps = [p, q] ∧ flag = (p == q)) nofun fun ps supplies => by
      obtain _ | ⟨_, rest⟩ := supplies
      obtain _ | ⟨_, rest⟩ := rest
      cases rest
      exact .pure ⟨rfl, _, rfl, _, _, rfl, rfl⟩
  obtain _ | ⟨isOne, rest⟩ := supplies
  obtain _ | ⟨isOther, _⟩ := rest
  exact ⟨p, q, isOne, isOther, same⟩

/-- What a tag is found on: a pair with the text of the tag for its head. -/
theorem tag_test_iff {tag : Tag} {memory : Memory} {cells : Cells} {p : Pointer} {flag : Bool}
    (bears : memory.Bears layout.program table cells) (tested : tag.test memory p = .ok flag) :
    flag = true ↔ ∃ a tail, p = .pair a ∧ cells[a]? = some (.string tag.text, tail) := by
  cases p with
  | pair a =>
    obtain ⟨head, read, tested⟩ := Read.bind_eq_ok_iff.mp tested
    obtain ⟨_, tail, same, found⟩ := bears.of_head read
    cases same
    have only : (∃ a' tail', Pointer.pair a = .pair a' ∧ cells[a']? = some (.string tag.text, tail')) ↔
        head = .string tag.text := by
      constructor
      · rintro ⟨_, _, same, found'⟩
        cases same
        cases found.symm.trans found'
        rfl
      · rintro rfl
        exact ⟨a, tail, rfl, found⟩
    rw [only]
    split at tested
    · cases tested
      simp
    · rename_i other
      cases tested
      exact ⟨nofun, fun same => absurd same (other _)⟩
  | scalar value =>
    cases tested
    exact ⟨nofun, nofun⟩
  | program a =>
    cases tested
    exact ⟨nofun, nofun⟩

theorem Moves.isTagged {tag : Tag} {index : Nat}
    (moves : Moves layout.program (.test (use (.isTagged tag) [.register index])) s s') :
    ∃ p flag, s.registers index = .pointer p ∧
      (flag = true ↔ ∃ a tail, p = .pair a ∧ s.heap[a]? = some (.string tag.text, tail)) ∧
      s' = ⟨s.registers, s.stack, s.heap, flag, s.position + 1⟩ := by
  obtain ⟨_, flag, supplies, ⟨p, rfl, tagged⟩, same⟩ := moves.tested
    (fun ps flag => ∃ p, ps = [p] ∧
      (flag = true ↔ ∃ a tail, p = .pair a ∧ s.heap[a]? = some (.string tag.text, tail))) nofun fun ps supplies => by
      obtain _ | ⟨_, rest⟩ := supplies
      cases rest
      refine .inspect_bind fun memory value bears read => .pure ⟨rfl, ?_⟩
      obtain ⟨flag, tested, same⟩ := Read.bind_eq_ok_iff.mp read
      cases same
      exact ⟨flag, rfl, _, rfl, tag_test_iff bears tested⟩
  obtain _ | ⟨held, _⟩ := supplies
  exact ⟨p, flag, held, tagged, same⟩

/-- The flag tells something, and nothing else has changed. -/
def Fitting.asked (fit : Fitting layout law census st s) {flag : Bool} {position : Nat} (fact : Fact)
    (holds : fact.Holds layout.program ⟨s.registers, s.stack, s.heap, flag, position⟩) :
    Fitting layout law census { st with fact } ⟨s.registers, s.stack, s.heap, flag, position⟩ :=
  { fit with fact := holds }

theorem PointerKind.null_of_test {p : Pointer} (isNull : PointerKind.null.test p = true) : p = .null := by
  cases p with
  | scalar value =>
    cases value with
    | null => rfl
    | _ => cases isNull
  | pair a => cases isNull
  | program a => cases isNull

theorem classify_of_formText {program : ProgramHeap} {p : Pointer} {kind : ExpressionKind}
    (same : formText program p = kind.text) : ExpressionKind.classify program p = some kind := by
  unfold formText at same
  split at same
  · rename_i isKind
    rw [isKind, kind_text_inj same]
  · exfalso
    revert same
    cases kind <;> decide

/-- A test tells what is known to follow from it, in either case. -/
theorem Fitting.ask {operation : HeapOperation} {inputs : List Input} {fact : Fact}
    (fit : Fitting layout law census st s) (asks : st.ask operation inputs = some fact)
    (moves : Moves layout.program (.test (use operation inputs)) s s') :
    Nonempty (Fitting layout law census { st with fact } s') := by
  have fact := fit.fact
  unfold State.ask at asks
  split at asks
  -- whether there is nothing, or something of another kind
  · cases asks
    obtain ⟨p, held, rfl⟩ := moves.isKind
    split
    · rename_i isNames
      simp only [Bool.and_eq_true, decide_eq_true_eq] at isNames
      obtain ⟨rfl, _⟩ := isNames
      exact ⟨fit.asked .ended ⟨p, held, PointerKind.null_of_test⟩⟩
    · split
      · rename_i isFlagged
        rw [isFlagged] at fact
        exact ⟨fit.asked .flagged fact⟩
      · exact ⟨fit.asked .none trivial⟩
  · cases asks
    obtain ⟨p, _, rfl⟩ := moves.isKind
    exact ⟨fit.asked .none trivial⟩
  -- whether two names are the same
  · cases asks
    obtain ⟨p, q, isOne, isOther, rfl⟩ := moves.identical
    split
    · rename_i ready
      simp only [Bool.and_eq_true, decide_eq_true_eq] at ready
      obtain ⟨⟨⟨rfl, rfl⟩, _⟩, _⟩ := ready
      exact ⟨fit.asked .same ⟨p, q, isOne, isOther, rfl⟩⟩
    · exact ⟨fit.asked .none trivial⟩
  -- whether the expression is of a form
  · rename_i text
    cases asks
    obtain ⟨p, q, isOne, isOther, rfl⟩ := moves.identical
    cases isOther
    split
    · rename_i kind found
      split
      · rename_i ready
        simp only [Bool.and_eq_true, decide_eq_true_eq] at ready
        obtain ⟨rfl, classified⟩ := ready
        rw [classified] at fact
        obtain ⟨expression, isExpression, isForm⟩ := fact
        refine ⟨fit.asked (.asked kind) ⟨expression, isExpression, isForm, fun same => classify_of_formText ?_⟩⟩
        cases isForm.symm.trans isOne
        have isText := List.find?_some found
        rw [decide_eq_true_eq] at isText
        rw [isText]
        exact eq_of_beq (α := String) same
      · exact ⟨fit.asked .none trivial⟩
    · exact ⟨fit.asked .none trivial⟩
  -- whether a binding is that of a constant
  · rename_i b
    cases asks
    obtain ⟨p, q, isOne, isOther, rfl⟩ := moves.identical
    cases isOther
    split
    · rename_i ready
      simp only [Bool.and_eq_true, decide_eq_true_eq] at ready
      obtain ⟨⟨rfl, rfl⟩, flagged⟩ := ready
      rw [flagged] at fact
      obtain ⟨address, head, _, isBinding, found, isFlag⟩ := fact
      cases isFlag.symm.trans isOne
      exact ⟨fit.asked .locked ⟨address, head, p, isBinding, found, rfl⟩⟩
    · exact ⟨fit.asked .none trivial⟩
  · rename_i tag index
    cases asks
    obtain ⟨p, flag, held, tagged, rfl⟩ := moves.isTagged
    exact ⟨fit.asked (.tagged tag index) ⟨p, held, tagged⟩⟩
  · cases asks

/-- A value is told by its tag, since the roles of pairs say which tag each of
them has. -/
theorem Census.Value.tagged {strict returns : Bool} {address : Nat} {tail : Pointer} {tag : Tag}
    (value : census.Value strict returns (.pair address)) (fits : census.Fits layout law s.heap) :
    s.heap[address]? = some (.string tag.text, tail) →
      match tag with
      | .primitive => census.Has address .primitive
      | .compound => ∃ body, census.Has address (.closure 0 body)
      | .returnValue => census.Has address .returned := by
  generalize isText : tag.text = text
  intro found
  cases value with
  | primitive role =>
    cases fits.allowed found role
    cases tag with
    | primitive => exact role
    | _ => exact absurd isText (by decide)
  | @closure _ body role =>
    cases fits.allowed found role
    cases tag with
    | compound => exact ⟨body, role⟩
    | _ => exact absurd isText (by decide)
  | returned role _ =>
    cases fits.allowed found role
    cases tag with
    | returnValue => exact role
    | _ => exact absurd isText (by decide)

section

variable {σ : Context} {contents : Contents} {tokens : Tokens} {p q : Pointer}

/-- An expression whose form is known has the parts of that form. -/
theorem Holds.formed {kind : ExpressionKind}
    (holds : Holds layout law census σ (.node .bound) (.pointer p) tokens)
    (isKind : ExpressionKind.classify layout.program p = some kind) :
    Holds layout law census σ (State.formed kind) (.pointer p) tokens ∧
      (kind = .returnStatement → law.strict = true → σ.returns = true) := by
  cases holds with
  | @node _ site node _ _ placed good covers =>
    have isKind : node.kind = some kind := by
      rw [placed.1, Interpreter.classify_eq_kind placed.2] at isKind
      exact isKind
    refine ⟨?_, fun isReturn => (law.parts good).returnStatement (isReturn ▸ isKind)⟩
    have declares (isDeclaration : kind.isDeclaration = true) : node.declares = true := by
      simp only [Node.declares, isKind, isDeclaration]
    cases kind with
    | constantDeclaration => exact .declaring placed (declares rfl) good covers
    | variableDeclaration => exact .declaring placed (declares rfl) good covers
    | sequence => exact .sequence placed isKind good covers
    | _ => exact .form placed isKind good

/-- The end of a frame is behind all of its names. -/
theorem Holds.stray_of_ended (names : Holds layout law census σ (.names true 0) (.pointer .null) tokens)
    {tokens' : Tokens} (wanted : Holds layout law census σ (.wanted (some 0)) contents tokens') :
    Holds layout law census σ .stray contents tokens' := by
  cases names with
  | @names _ _ _ k record _ _ known names own =>
    cases wanted with
    | wanted wants =>
      refine .stray _ ?_
      by_contra scanned
      obtain ⟨record', symbol, place, known', named, _, _, near⟩ := wants (by simpa using scanned)
      obtain ⟨rfl, rfl⟩ := own rfl
      cases known.symm.trans known'
      have before : σ.cursor ≤ place := near 0 rfl
      have inside := (List.getElem?_eq_some_iff.mp named).1
      have some : record.names.drop (σ.cursor + 0) ≠ [] := by
        rw [Ne, List.drop_eq_nil_iff]
        omega
      cases left : record.names.drop (σ.cursor + 0) with
      | nil => exact some left
      | cons name rest =>
        rw [left] at names
        obtain ⟨_, same, _⟩ := names
        cases same

section

variable (fits : census.Fits layout law s.heap) {tokens' : Tokens}
  (name : Holds layout law census σ .name (.pointer p) tokens')
  (wanted : Holds layout law census σ (.wanted (some 0)) (.pointer q) tokens)
include fits name wanted

/-- A name that is the one that is wanted is at its place, since no frame has
a name twice. -/
theorem Holds.place_of_name (scanned : law.scanned = true) :
    ∃ record symbol place, census.frames[σ.frame]? = some record ∧ record.names[place]? = some (.string symbol) ∧
      q = .string symbol ∧ (σ.frame, place) ∈ tokens ∧ σ.cursor ≤ place ∧ ((p == q) = true ↔ place = σ.cursor) := by
  cases name with
  | @name record _ _ known named =>
    cases wanted with
    | wanted wants =>
      obtain ⟨record', symbol, place, known', named', same, owed, near⟩ := wants scanned
      cases same
      cases known.symm.trans known'
      have before : σ.cursor ≤ place := near 0 rfl
      refine ⟨record, symbol, place, known, named', rfl, owed, before, fun isSame => ?_, fun isSame => ?_⟩
      · -- two places of one name would be two names that are the same
        obtain ⟨insideHere, here⟩ := List.getElem?_eq_some_iff.mp named
        obtain ⟨insideThere, there⟩ := List.getElem?_eq_some_iff.mp named'
        by_contra different
        have distinct := List.pairwise_iff_getElem.mp (fits.frames _ _ known).distinct σ.cursor place insideHere
          insideThere (by omega)
        rw [here, there, isSame] at distinct
        cases distinct
      · subst isSame
        cases named.symm.trans named'
        exact Interpreter.pointer_same.mpr rfl

theorem Holds.hit_of_same (same : (p == q) = true) : Holds layout law census σ .hit (.pointer q) tokens := by
  refine .hit _ fun scanned => ?_
  obtain ⟨_, _, place, _, _, _, owed, _, isSame⟩ := name.place_of_name fits wanted scanned
  rwa [isSame.mp same] at owed

theorem Holds.wanted_of_different (different : (p == q) = false) :
    Holds layout law census σ (.wanted (some 1)) (.pointer q) tokens := by
  refine .wanted fun scanned => ?_
  obtain ⟨record, symbol, place, known, named, rfl, owed, before, isSame⟩ := name.place_of_name fits wanted scanned
  refine ⟨record, symbol, place, known, named, rfl, owed, fun n isAhead => ?_⟩
  cases isAhead
  have away : place ≠ σ.cursor := fun here => by rw [isSame.mpr here] at different; cases different
  omega

end

section

variable (fits : census.Fits layout law s.heap) {tag : Tag} {kind : Kind}
  (holds : Holds layout law census σ kind (.pointer p) tokens)
include fits holds

/-- A value with a tag is what the tag says. -/
theorem Holds.withTag (tagged : ∃ a tail, p = .pair a ∧ s.heap[a]? = some (.string tag.text, tail)) :
    Holds layout law census σ (State.withTag tag kind) (.pointer p) tokens := by
  obtain ⟨address, tail, rfl, found⟩ := tagged
  unfold State.withTag
  split
  · cases holds with
    | value value =>
      have role := value.tagged fits found
      exact .primitive role
  · cases holds with
    | value value =>
      obtain ⟨_, role⟩ := value.tagged fits found
      exact .closure role
  · cases holds with
    | value value =>
      have role := value.tagged fits found
      exact .returned role
  · exact holds

/-- A value without a tag is not what the tag says. -/
theorem Holds.withoutTag (untagged : ¬ ∃ a tail, p = .pair a ∧ s.heap[a]? = some (.string tag.text, tail)) :
    Holds layout law census σ (State.withoutTag tag kind) (.pointer p) tokens := by
  unfold State.withoutTag
  split
  · cases holds with
    | value value =>
      cases value with
      | scalar value => exact .value (.scalar value)
      | primitive role => exact .value (.primitive role)
      | closure role => exact .value (.closure role)
      | @returned a role _ =>
        obtain ⟨head, tail, found, allowed⟩ := fits.exists_pair role
        cases allowed
        exact absurd ⟨a, tail, rfl, found⟩ untagged
  · exact holds

end

end

/-- What is known where the flag is set. -/
theorem Fitting.taken (fit : Fitting layout law census st s) (flag : s.flag = true) :
    Nonempty (Fitting layout law census st.taken s) := by
  have fact := fit.fact
  unfold State.taken
  split
  · rename_i kind isFact
    rw [isFact] at fact
    obtain ⟨p, isExp, _, isKind⟩ := fact
    split
    · rename_i isNode
      have held := fit.registers exp (by decide)
      rw [isNode, isExp] at held
      obtain ⟨formed, returns⟩ := held.formed (isKind flag)
      let refined : Fitting layout law census (st.set exp (State.formed kind)) s :=
        fit.refined fun _ => isExp ▸ formed
      split
      · rename_i isReturn
        simp only [Bool.and_eq_true, decide_eq_true_eq] at isReturn
        have back := fit.registers cont (by decide)
        rw [isReturn.2] at back
        refine ⟨refined.refined fun _ => ?_⟩
        generalize s.registers cont = contents at back
        cases back
        exact .exit (returns isReturn.1)
      · exact ⟨refined⟩
    · exact ⟨fit.forgotten⟩
  · rename_i isFact
    rw [isFact] at fact
    obtain ⟨p, isNull, ended⟩ := fact
    split
    · rename_i ready
      simp only [Bool.and_eq_true, decide_eq_true_eq] at ready
      have names := fit.registers c (by decide)
      have wanted := fit.registers a (by decide)
      rw [isNull, ended flag, ready.1] at names
      rw [ready.2] at wanted
      exact ⟨fit.refined fun _ => names.stray_of_ended wanted⟩
    · exact ⟨fit.forgotten⟩
  · rename_i isFact
    rw [isFact] at fact
    obtain ⟨p, q, isName, isWanted, same⟩ := fact
    split
    · rename_i ready
      simp only [Bool.and_eq_true, decide_eq_true_eq] at ready
      have name := fit.registers e (by decide)
      have wanted := fit.registers a (by decide)
      rw [isName, ready.1] at name
      rw [isWanted, ready.2] at wanted
      refine ⟨fit.refined fun _ => ?_⟩
      rw [isWanted]
      exact name.hit_of_same fit.heap wanted (same.symm.trans flag)
    · exact ⟨fit.forgotten⟩
  · rename_i isFact
    rw [isFact] at fact
    obtain ⟨p, isHeld, tagged⟩ := fact
    refine ⟨fit.refined fun inside => ?_⟩
    have held := fit.registers _ inside
    rw [isHeld] at held ⊢
    exact held.withTag fit.heap (tagged.mp flag)
  · exact ⟨fit.forgotten⟩

/-- What is known where the flag is not set. -/
theorem Fitting.missed (fit : Fitting layout law census st s) (flag : s.flag = false) :
    Nonempty (Fitting layout law census st.missed s) := by
  have fact := fit.fact
  unfold State.missed
  split
  · rename_i isFact
    rw [isFact] at fact
    obtain ⟨p, isExp, isForm, _⟩ := fact
    exact ⟨fit.asked .classified ⟨p, isExp, isForm⟩⟩
  · rename_i isFact
    rw [isFact] at fact
    obtain ⟨p, q, isName, isWanted, same⟩ := fact
    split
    · rename_i ready
      simp only [Bool.and_eq_true, decide_eq_true_eq] at ready
      have name := fit.registers e (by decide)
      have wanted := fit.registers a (by decide)
      rw [isName, ready.1] at name
      rw [isWanted, ready.2] at wanted
      refine ⟨fit.refined fun _ => ?_⟩
      rw [isWanted]
      exact name.wanted_of_different fit.heap wanted (same.symm.trans flag)
    · exact ⟨fit.forgotten⟩
  · rename_i isFact
    rw [isFact] at fact
    obtain ⟨p, isHeld, tagged⟩ := fact
    refine ⟨fit.refined fun inside => ?_⟩
    have held := fit.registers _ inside
    rw [isHeld] at held ⊢
    refine held.withoutTag fit.heap fun isTagged => ?_
    rw [tagged.mpr isTagged] at flag
    cases flag
  · exact ⟨fit⟩
  · rename_i isFact
    rw [isFact] at fact
    obtain ⟨address, head, p, isBinding, found, locked⟩ := fact
    refine ⟨fit.asked .unlocked ⟨address, head, p, isBinding, found, ?_⟩⟩
    rintro rfl
    rw [flag] at locked
    cases locked
  · exact ⟨fit.forgotten⟩

end ExplicitControl.Evaluator
