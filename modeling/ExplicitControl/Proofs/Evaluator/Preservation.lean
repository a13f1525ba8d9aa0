import ExplicitControl.Proofs.Evaluator.Finding
import ExplicitControl.Proofs.Evaluator.Fitting

namespace ExplicitControl.Evaluator

open Interpreter (Node Law)
open Listing

variable {layout : Layout} {law : Law} {census later : Census} {st other : State} {s s' : Scene} {target : Nat}
  {operation : HeapOperation}

/-- A scene fits what is known, once some pairs and frames have been added. -/
def Succeeds (layout : Layout) (law : Law) (census : Census) (st : State) (s : Scene) : Prop :=
  ∃ later, census.Extends later ∧ Nonempty (Fitting layout law later st s)

theorem Fitting.succeeds (fit : Fitting layout law census st s) : Succeeds layout law census st s :=
  ⟨census, .refl census, ⟨fit⟩⟩

/-- A frame that is there whenever a node is evaluated. -/
theorem Fitting.known (fit : Fitting layout law census st s) (begun : st.phase ≠ .blank) :
    census.Known fit.σ.frame := by
  have ground := fit.ground
  cases phase : st.phase with
  | blank => exact absurd phase begun
  | founded =>
    rw [phase] at ground
    exact ground.2.1
  | ground =>
    rw [phase] at ground
    exact ground.2
  | framed =>
    rw [phase] at ground
    exact ground.2

/-- The result of an operation on one register that changes nothing. -/
theorem Moves.find {index : Nat} (post : Pointer → Pointer → Prop) (inside : target < Evaluator.registers.length)
    (finds : ∀ p, s.registers index = .pointer p → Finds layout operation p s.heap (post p))
    (moves : Moves layout.program (Evaluator.put target operation [index]) s s') :
    ∃ p q, s.registers index = .pointer p ∧ post p q ∧
      s' = ⟨write s.registers target (.pointer q), s.stack, s.heap, s.flag, s.position + 1⟩ := by
  obtain ⟨ps, q, cells, supplies, ⟨rfl, p, rfl, holds⟩, same⟩ :=
    moves.put (fun ps q cells => cells = s.heap ∧ ∃ p, ps = [p] ∧ post p q) (fun ps supplies => by
      obtain _ | ⟨held, rest⟩ := supplies
      cases rest
      exact (finds _ held).mono fun applied cells holds => ⟨holds.1, _, rfl, holds.2⟩) inside
  obtain _ | ⟨held, rest⟩ := supplies
  exact ⟨p, q, held, holds, same⟩

section

variable {index : Nat} {kind result left : Kind} (insideTarget : target < Evaluator.registers.length)
  (insideIndex : index < Evaluator.registers.length)
  (moves : Moves layout.program (Evaluator.put target operation [index]) s s')
  (fit : Fitting layout law census st s)
include insideTarget insideIndex moves fit

theorem Fitting.found (begun : st.phase ≠ .blank) (found : State.found operation (st.registers index) = some result) :
    Succeeds layout law census (st.set target result) s' := by
  have held := fit.registers index insideIndex
  obtain ⟨p, q, isHeld, holds, rfl⟩ := moves.find
    (fun _ q => Holds layout law census fit.σ result (.pointer q) (fit.debts target)) insideTarget
    fun p isHeld => found_sound found fit.heap (fit.known begun) (isHeld ▸ held)
  exact (fit.assign fit.heap.grows_refl holds).succeeds

theorem Fitting.parted {inPlace : Bool}
    (parted : State.parted inPlace operation (st.registers index) = some (left, result)) :
    Succeeds layout law census ((st.set index left).set target result) s' := by
  have held := fit.registers index insideIndex
  obtain ⟨p, q, isHeld, ⟨first, rest, le, holds, remains⟩, rfl⟩ := moves.find
    (fun p q => ∃ first rest, first + rest ≤ fit.debts index ∧
      Holds layout law census fit.σ result (.pointer q) first ∧ Holds layout law census fit.σ left (.pointer p) rest)
    insideTarget fun p isHeld => parted_sound parted fit.heap (isHeld ▸ held)
  exact (fit.transfer insideIndex insideTarget le holds (isHeld ▸ remains)).succeeds

end

/-- The lookup of a name begins at the first name of the frame. -/
theorem Fitting.rewind {index : Nat} (fit : Fitting layout law census st s)
    (insideTarget : target < Evaluator.registers.length) (insideIndex : index < Evaluator.registers.length)
    (moves : Moves layout.program (Evaluator.put target .head [index]) s s')
    (isKind : st.registers index = .environment true) (steady : st.stack.all Kind.steady = true) :
    Succeeds layout law census
      ({ st with registers := fun i => (st.registers i).rewound }.set target (.frame true)) s' := by
  have held := fit.registers index insideIndex
  rw [isKind] at held
  have finds (p : Pointer) (isHeld : s.registers index = .pointer p) : Finds layout .head p s.heap fun q =>
      ∀ tokens, Holds layout law census { fit.σ with cursor := 0 } (.frame true) (.pointer q) tokens := by
    rw [isHeld] at held
    refine .read nofun rfl fun memory q bears read tokens => ?_
    obtain ⟨a, tail, rfl, found⟩ := bears.of_head read
    cases held with
    | environment environment own =>
      obtain ⟨record, known, rfl, _⟩ := environment_parts fit.heap found environment
      exact .frame known fun isOwn => ⟨own isOwn, rfl⟩
  obtain ⟨p, q, _, holds, rfl⟩ := moves.find (fun _ q => ∀ tokens,
    Holds layout law census { fit.σ with cursor := 0 } (.frame true) (.pointer q) tokens) insideTarget finds
  let rewound : Fitting layout law census
      { st with registers := fun i => (st.registers i).rewound, fact := .none } s :=
    { fit with
      σ := { fit.σ with cursor := 0 }
      registers := fun i inside => (fit.registers i inside).rewound
      row := fit.row.cursor steady 0
      ground := fit.ground
      fact := trivial }
  exact (rewound.assign fit.heap.grows_refl (holds _)).succeeds

/-- The lookup of a name goes on to the next one. -/
theorem Fitting.shift (fit : Fitting layout law census st s) (inside : target < Evaluator.registers.length)
    (moves : Moves layout.program (Evaluator.put target .tail [target]) s s')
    (isKind : st.registers target = .bindings true) (steady : st.stack.all Kind.steady = true) :
    Succeeds layout law census
      ({ st with registers := fun i => (st.registers i).shifted }.set target (.bindings true)) s' := by
  have held := fit.registers target inside
  rw [isKind] at held
  have finds (p : Pointer) (isHeld : s.registers target = .pointer p) : Finds layout .tail p s.heap fun q =>
      ∀ tokens, Holds layout law census { fit.σ with cursor := fit.σ.cursor + 1 } (.bindings true) (.pointer q)
        tokens := by
    rw [isHeld] at held
    refine .read nofun rfl fun memory q bears read tokens => ?_
    obtain ⟨a, head, rfl, found⟩ := bears.of_tail read
    cases held with
    | bindings known bindings own =>
      obtain ⟨rfl, rfl⟩ := own rfl
      obtain ⟨cell, rest, split, _, bindings⟩ := bindings_parts fit.heap found bindings
      rw [← drop_succ_of_drop split] at bindings
      exact .bindings known bindings fun _ => ⟨rfl, rfl⟩
  obtain ⟨p, q, _, holds, rfl⟩ := moves.find (fun _ q => ∀ tokens,
    Holds layout law census { fit.σ with cursor := fit.σ.cursor + 1 } (.bindings true) (.pointer q) tokens)
    inside finds
  let shifted : Fitting layout law census
      { st with registers := fun i => (st.registers i).shifted, fact := .none } s :=
    { fit with
      σ := { fit.σ with cursor := fit.σ.cursor + 1 }
      registers := fun i inside => (fit.registers i inside).shifted
      row := fit.row.cursor steady _
      ground := fit.ground
      fact := trivial }
  exact (shifted.assign fit.heap.grows_refl (holds _)).succeeds

theorem register_inside (index : Nat) (small : index ≤ 12) : index < Evaluator.registers.length :=
  Nat.lt_succ_of_le small

/-- The form of the expression is found out. -/
theorem Fitting.classify (fit : Fitting layout law census st s)
    (moves : Moves layout.program (Evaluator.put e .expressionKind [exp]) s s') :
    Succeeds layout law census { st.set e .any with fact := .classified } s' := by
  have finds (p : Pointer) (_ : s.registers exp = .pointer p) :
      Finds layout .expressionKind p s.heap fun q => q = .string (formText layout.program p) := by
    refine .read nofun rfl fun memory q bears read => ?_
    rw [formText, ← bears.program]
    cases isKind : ExpressionKind.classify memory.program p with
    | some kind =>
      rw [isKind] at read
      cases read
      rfl
    | none =>
      rw [isKind] at read
      cases read
      rfl
  obtain ⟨p, q, isHeld, rfl, rfl⟩ := moves.find _ (register_inside e (by decide)) finds
  let assigned : Fitting layout law census (st.set e .any)
      ⟨write s.registers e (.pointer (.string (formText layout.program p))), s.stack, s.heap, s.flag,
        s.position + 1⟩ :=
    fit.assign fit.heap.grows_refl (.any _)
  exact Fitting.succeeds { assigned with fact := ⟨p, isHeld, rfl⟩ }

/-- The flag of a binding is looked at. -/
theorem Fitting.flag (fit : Fitting layout law census st s)
    (moves : Moves layout.program (Evaluator.put e .tail [res]) s s') :
    Succeeds layout law census { st.set e .any with fact := .flagged } s' := by
  have finds (p : Pointer) (_ : s.registers res = .pointer p) :
      Finds layout .tail p s.heap fun q => ∃ a head, p = .pair a ∧ s.heap[a]? = some (head, q) :=
    .read nofun rfl fun memory q bears read => bears.of_tail read
  obtain ⟨p, q, isHeld, ⟨a, head, rfl, found⟩, rfl⟩ := moves.find _ (register_inside e (by decide)) finds
  let assigned : Fitting layout law census (st.set e .any)
      ⟨write s.registers e (.pointer q), s.stack, s.heap, s.flag, s.position + 1⟩ :=
    fit.assign fit.heap.grows_refl (.any _)
  exact Fitting.succeeds { assigned with fact := ⟨a, head, q, isHeld, found, rfl⟩ }

/-- An operation adds pairs, and its result is of a kind. -/
def Adds (layout : Layout) (law : Law) (census : Census) (operation : HeapOperation) (ps : List Pointer)
    (cells : Cells)
    (post : Census → Pointer → Prop) : Prop :=
  Action.Brings layout.program table (Operation.call operation.name (.addressAware operation) ps) cells
    fun applied cells' => ∃ later, census.Grows layout law later cells' ∧ post later applied.value

/-- Operations apart from the one that calls others do what they run. -/
theorem brings_of_run {program : ProgramHeap} {ps : List Pointer} {cells : Cells} {post : Applied → Cells → Prop}
    (direct : operation ≠ .applyPrimitive)
    (brings : Action.Brings program table (operation.run ps) cells post) :
    Action.Brings program table (Operation.call operation.name (.addressAware operation) ps) cells post := by
  rwa [call_eq_run fun same => absurd same direct]

theorem Fitting.added {inputs : List Nat} {kind : Kind} (fit : Fitting layout law census st s)
    (inside : target < Evaluator.registers.length)
    (moves : Moves layout.program (Evaluator.put target operation inputs) s s')
    (adds : ∀ ps, s.Supplies (inputs.map .register) ps → Adds layout law census operation ps s.heap fun later q =>
      ∀ tokens, Holds layout law later fit.σ kind (.pointer q) tokens) :
    Succeeds layout law census (st.set target kind) s' := by
  obtain ⟨ps, q, cells, _, ⟨later, grows, holds⟩, rfl⟩ := moves.put
    (fun _ q cells => ∃ later, census.Grows layout law later cells ∧
      ∀ tokens, Holds layout law later fit.σ kind (.pointer q) tokens) adds inside
  exact ⟨later, grows.extends, ⟨fit.assign grows (holds _)⟩⟩

section

variable {cells : Cells} {p q r : Pointer} (fits : census.Fits layout law cells)
include fits

theorem makeReturn_adds (value : census.Value law.strict false p) :
    Adds layout law census .makeReturn [p] cells fun later q => ∃ a, q = .pair a ∧ later.Has a .returned := by
  refine brings_of_run nofun (.reserve_bind ?_ fun _ => (Action.Quiet.allocReserved _ _).bind fun _ => .pure _)
  refine (fits.allocReserved (.returned value)).bind ?_ fun _ => .pure _
  rintro q cells' ⟨later, grows, made⟩
  exact .pure ⟨later, grows, made⟩

theorem makeCompound_adds {node : Node} {f : Nat} (placed : node.At layout.program layout.locate q)
    (good : law.good .body true node) (environment : census.Environment f r) :
    Adds layout law census .makeCompound [p, q, r] cells fun later value =>
      ∃ a, value = .pair a ∧ later.Has a (.closure 0 q) := by
  refine brings_of_run nofun (.reserve_bind ?_ fun _ => (Action.Quiet.buildList _).bind fun _ => .pure _)
  refine Action.Brings.bind (fits.buildClosure p placed good environment) ?_ fun _ => .pure _
  rintro value cells' ⟨later, grows, made⟩
  exact .pure ⟨later, grows, made⟩

theorem adjoinArgument_adds (value : census.Value law.strict false p) (arguments : census.Arguments q) :
    Adds layout law census .adjoinArgument [p, q] cells fun later r => later.Arguments r := by
  exact brings_of_run nofun (fits.appendArgument value arguments)

theorem applyPrimitive_adds {a : Nat} (role : census.Has a .primitive) (q : Pointer) :
    Adds layout law census .applyPrimitive [.pair a, q] cells fun later r => later.Value law.strict false r := by
  refine (fits.applyPrimitive role q).mono ?_
  rintro applied cells' ⟨rfl, value, same⟩
  exact ⟨census, fits.grows_refl, same ▸ .scalar value⟩

end

/-- The places of a new frame that are owed are not owed yet, since the frame
was not there before. -/
theorem Ledger.opened {tokens : Tokens} {owed : Multiset Nat} {cells cells' : Cells}
    {names : List Pointer} {p : Pointer}
    (ledger : Ledger census tokens) (fits : census.Fits layout law cells)
    (opens : census.Opens layout law later cells' names p) (nodup : owed.Nodup) (inner : census.frames ≠ []) :
    Ledger later (tokens + owed.map (Prod.mk census.frames.length)) := by
  have old := ledger.extend opens.extends' opens.declared
  obtain ⟨record, grown, _⟩ := opens.record
  have new : ∀ token ∈ owed.map (Prod.mk census.frames.length), token.1 = census.frames.length := by
    intro token member
    obtain ⟨place, _, rfl⟩ := Multiset.mem_map.mp member
    rfl
  refine ⟨Multiset.nodup_add.mpr ⟨ledger.nodup, nodup.map (Prod.mk_right_injective _), ?_⟩,
    fun token member => ?_, fun token member => ?_⟩
  · refine Multiset.disjoint_left.mpr fun member isNew => ?_
    exact absurd (new _ isNew) (ledger.inner _ member).2.ne
  · rcases Multiset.mem_add.mp member with member | member
    · exact old.undeclared token member
    · rw [opens.declared]
      intro declared
      exact absurd (new token member) (fits.declared token declared).ne
  · rcases Multiset.mem_add.mp member with member | member
    · exact old.inner token member
    · rw [new token member, grown, List.length_append, List.length_singleton]
      exact ⟨by simpa using inner, Nat.lt_succ_self _⟩

theorem Census.Opens.known {cells : Cells} {names : List Pointer} {p : Pointer}
    (opens : census.Opens layout law later cells names p) : ∃ record,
      later.frames[census.frames.length]? = some record ∧ record.names = names := by
  obtain ⟨record, grown, named⟩ := opens.record
  exact ⟨record, by rw [grown]; exact List.getElem?_concat_length, named⟩

/-- Tokens for what a body owes to the frame that was made for it. -/
theorem Census.Opens.exists_tokens {cells : Cells} {names : List Pointer} {p : Pointer} {node : Node}
    (opens : census.Opens layout law later cells names p) (admits : Census.Admits law names node) :
    ∃ owed : Multiset Nat, owed.Nodup ∧ Covers law later census.frames.length (Interpreter.Duty · .body node)
      (owed.map (Prod.mk census.frames.length)) := by
  obtain ⟨record, known, rfl⟩ := opens.known
  cases scanned : law.scanned with
  | false => exact ⟨0, Multiset.nodup_zero, fun isScanned => by rw [scanned] at isScanned; cases isScanned⟩
  | true =>
    obtain ⟨owed, duty, nodup⟩ := admits scanned
    exact ⟨owed, nodup, fun _ => ⟨record, owed, known, duty, le_refl _⟩⟩

theorem Row.moved {kinds : List Kind} {slots : List Contents} {tokens : Tokens} {σ : Context}
    (row : Row layout law census σ kinds slots tokens) (only : kinds.all (· = .continuation) = true) (frame : Nat) :
    Row layout law census { σ with frame } kinds slots tokens := by
  induction row with
  | nil => exact .nil
  | cons first _ ih =>
    simp only [List.all_cons, Bool.and_eq_true, decide_eq_true_eq] at only
    obtain ⟨rfl, only⟩ := only
    cases first
    exact .cons .continuation (ih only)

/-- A frame is made for what a register holds, and the register takes the
tokens for it. -/
theorem Fitting.opened {index : Nat} {kind : Kind} {cells : Cells} {names : List Pointer} {p : Pointer}
    {owed : Multiset Nat} (fit : Fitting layout law census st s) (opened : st.opened index kind = some other)
    (opens : census.Opens layout law later cells names p) (inside : index < Evaluator.registers.length)
    (different : index ≠ env ∧ index ≠ cont) (nodup : owed.Nodup)
    (holds : Holds layout law later { fit.σ with frame := census.frames.length } kind (s.registers index)
      (owed.map (Prod.mk census.frames.length))) (flag : Bool) (position : Nat) :
    Succeeds layout law census other ⟨write s.registers env (.pointer p), s.stack, cells, flag, position⟩ := by
  unfold State.opened at opened
  split at opened
  case isFalse => cases opened
  case isTrue ready =>
  simp only [Bool.and_eq_true, decide_eq_true_eq] at ready
  obtain ⟨⟨rests, only⟩, begun⟩ := ready
  cases opened
  have some : census.frames ≠ [] := by
    obtain ⟨record, known⟩ := fit.known begun
    intro none
    rw [none] at known
    cases known
  obtain ⟨record, known, _⟩ := opens.known
  let σ : Context := { fit.σ with frame := census.frames.length }
  let debts := Function.update fit.debts index (owed.map (Prod.mk census.frames.length))
  refine ⟨later, opens.extends',
    ⟨⟨σ, debts, fit.slots, fit.slotTokens, fit.base, fit.baseTokens, opens.fits, ?_, fit.stack,
      (fit.row.extend opens.extends').moved only _, ?_, trivial,
      (fit.ledger.opened fit.heap opens nodup some).mono ?_⟩⟩⟩
  · refine holds_given (fun i insideI => ?_) ?_
    · dsimp only
      by_cases isEnv : i = env
      · subst isEnv
        rw [write_self]
        exact .scope opens.environment
      · rw [write_of_ne isEnv]
        exact (fit.resting rests σ i insideI).extend opens.extends'
    · simp only [List.forall_mem_cons, List.not_mem_nil, false_implies, implies_true, and_true]
      refine ⟨?_, ?_, ?_⟩
      · rw [write_of_ne different.1]
        simp only [debts, Function.update_self]
        exact holds
      · exact .environment opens.environment fun _ => rfl
      · change Holds _ _ _ _ _ (s.registers cont) _
        have held := fit.registers cont (by decide)
        generalize s.registers cont = contents at held ⊢
        split
        · cases held.le ‹_›
          exact .continuation
        · exact .any _
  · cases phase : st.phase with
    | blank => exact absurd phase begun
    | founded =>
      have ground := fit.ground
      rw [phase] at ground
      exact ⟨ground.1, record, known⟩
    | ground =>
      have ground := fit.ground
      rw [phase] at ground
      exact ⟨ground.1, record, known⟩
    | framed =>
      have ground := fit.ground
      rw [phase] at ground
      exact ⟨ground.1.extend opens.extends', record, known⟩
  · have updated := total_update fit.debts (owed.map (Prod.mk census.frames.length)) inside
    have le : total debts ≤ total fit.debts + owed.map (Prod.mk census.frames.length) := by
      rw [← updated]
      exact Multiset.le_add_right _ _
    calc total debts + fit.slotTokens + fit.baseTokens
        ≤ total fit.debts + owed.map (Prod.mk census.frames.length) + fit.slotTokens + fit.baseTokens :=
          add_le_add_left (add_le_add_left le _) _
      _ = total fit.debts + fit.slotTokens + fit.baseTokens + owed.map (Prod.mk census.frames.length) := by abel

/-- The program is a good body. -/
def Rooted (layout : Layout) (law : Law) : Prop :=
  ∀ root, layout.program.root = some root →
    ∃ node : Node, node.At layout.program layout.locate root ∧ law.good .body true node

theorem programRoot_adds {cells : Cells} (rooted : Rooted layout law) (fits : census.Fits layout law cells) :
    Adds layout law census .programRoot [] cells fun _ p =>
      ∃ node : Node, node.At layout.program layout.locate p ∧ law.good .body true node := by
  refine brings_of_run nofun (.inspect_bind fun memory root bears read => ?_)
  refine .pure ⟨census, fits.grows_refl, rooted root ?_⟩
  rw [← bears.program]
  split at read
  · cases read
    assumption
  · cases read

/-- The first frame is made. -/
theorem Fitting.begin (fit : Fitting layout law census st s)
    (moves : Moves layout.program (Evaluator.put env .globalEnvironment []) s s')
    (isCode : st.registers exp = .code .free) (rests : st.rests = true) (noSlots : st.stack = [])
    (blank : st.phase = .blank) :
    Succeeds layout law census (.given [(exp, .code .free), (env, .environment true)] [] .founded) s' := by
  have resting (σ' : Context) (tokens : Tokens) := @Fitting.resting layout law census st s tokens fit rests σ'
  have isExp := fit.registers exp (by decide)
  obtain ⟨σ, debts, slots, slotTokens, base, baseTokens, heap, registers, stack, row, ground, fact, ledger⟩ := fit
  rw [noSlots] at row
  rw [blank] at ground
  cases row
  obtain ⟨rfl, none⟩ := ground
  obtain ⟨ps, p, cells, _, ⟨later, opens⟩, rfl⟩ := moves.put
    (fun _ p cells => ∃ later, census.Opens layout law later cells Census.globalNames p)
    (fun ps supplies => by
      cases supplies
      refine brings_of_run nofun ((heap.global none).bind (fun p cells opened => .pure opened) fun _ => .pure _))
    (by decide)
  obtain ⟨record, known, _⟩ := opens.known
  have environment := opens.environment
  rw [none] at environment known
  let σ' : Context := { σ with frame := 0 }
  refine ⟨later, opens.extends', ⟨⟨σ', debts, [], 0, [], baseTokens, opens.fits, ?_, stack, .nil,
    ⟨rfl, ⟨record, known⟩, rfl⟩, trivial, ledger.extend opens.extends' opens.declared⟩⟩⟩
  refine holds_given (fun index inside => ?_) ?_
  · dsimp only
    by_cases isEnv : index = env
    · subst isEnv
      rw [write_self]
      exact .scope environment
    · rw [write_of_ne isEnv]
      exact (resting σ' _ index inside).extend opens.extends'
  · simp only [List.forall_mem_cons, List.not_mem_nil, false_implies, implies_true, and_true]
    refine ⟨?_, .environment environment fun _ => rfl⟩
    change Holds _ _ _ _ _ (s.registers exp) _
    rw [isCode] at isExp
    generalize s.registers exp = contents at isExp ⊢
    cases isExp with
    | code placed good => exact .code placed good

/-- The inputs of an operation are what is in its registers. -/
theorem supplies_two {one two : Nat} {p q : Pointer} {ps : List Pointer} (isOne : s.registers one = .pointer p)
    (isTwo : s.registers two = .pointer q) (supplies : s.Supplies [.register one, .register two] ps) :
    ps = [p, q] := by
  obtain _ | ⟨first, rest⟩ := supplies
  obtain _ | ⟨second, rest⟩ := rest
  cases rest
  cases isOne.symm.trans first
  cases isTwo.symm.trans second
  rfl

/-- A frame is made for a block. -/
theorem Fitting.block {environment : Nat} {grade : Grade} {own : Bool} (fit : Fitting layout law census st s)
    (inside : environment < Evaluator.registers.length)
    (moves : Moves layout.program (Evaluator.put env .extendBlock [exp, environment]) s s')
    (isCode : st.registers exp = .code grade) (isEnvironment : st.registers environment = .environment own)
    (opened : st.opened exp (.node grade) = some other) : Succeeds layout law census other s' := by
  have bodyHeld := fit.registers exp (by decide)
  have scopeHeld := fit.registers environment inside
  rw [isCode] at bodyHeld
  rw [isEnvironment] at scopeHeld
  generalize isExp : s.registers exp = body at bodyHeld
  generalize isScope : s.registers environment = scope at scopeHeld
  cases bodyHeld with
  | @code _ node p _ placed good =>
    cases scopeHeld with
    | @environment _ f q _ environment _ =>
      obtain ⟨_, value, cells, _, ⟨later, names, opens, admits⟩, rfl⟩ := moves.put
        (fun _ value cells => ∃ later names, census.Opens layout law later cells names value ∧
          Census.Admits law names node)
        (fun ps supplies => by
          rw [supplies_two isExp isScope supplies]
          exact brings_of_run nofun ((fit.heap.extendBlock placed good environment).bind
            (fun extended cells opened => .pure opened) fun _ => .pure _))
        (by decide)
      obtain ⟨owed, nodup, covers⟩ := opens.exists_tokens admits
      refine fit.opened opened opens (by decide) ⟨by decide, by decide⟩ nodup ?_ _ _
      rw [isExp]
      cases grade <;> exact .node placed good covers

/-- A frame is made for a call. -/
theorem Fitting.call {arguments : Nat} (fit : Fitting layout law census st s)
    (inside : arguments < Evaluator.registers.length)
    (moves : Moves layout.program (Evaluator.put env .extendCall [fn, arguments]) s s')
    (isClosure : st.registers fn = .closure) (isArguments : st.registers arguments = .arguments)
    (opened : st.opened fn .called = some other) : Succeeds layout law census other s' := by
  have functionHeld := fit.registers fn (by decide)
  have argumentsHeld := fit.registers arguments inside
  rw [isClosure] at functionHeld
  rw [isArguments] at argumentsHeld
  generalize isFn : s.registers fn = function at functionHeld
  generalize isList : s.registers arguments = list at argumentsHeld
  cases functionHeld with
  | @closure a body _ role =>
    cases argumentsHeld with
    | @arguments q _ arguments =>
      obtain ⟨_, value, cells, _, ⟨later, names, node, opens, placed, good, admits⟩, rfl⟩ := moves.put
        (fun _ value cells => ∃ later names node, census.Opens layout law later cells names value ∧
          node.At layout.program layout.locate body ∧ law.good .body true node ∧ Census.Admits law names node)
        (fun ps supplies => by
          rw [supplies_two isFn isList supplies]
          exact brings_of_run nofun ((fit.heap.extendCall role arguments).bind
            (fun extended cells opened => .pure opened) fun _ => .pure _))
        (by decide)
      obtain ⟨owed, nodup, covers⟩ := opens.exists_tokens admits
      refine fit.opened opened opens (by decide) ⟨by decide, by decide⟩ nodup ?_ _ _
      rw [isFn]
      exact .called (opens.extends'.has role) placed good covers

section

variable {value body scope arguments function : Nat} (fit : Fitting layout law census st s)
  (insideTarget : target < Evaluator.registers.length)
include fit insideTarget

theorem Fitting.makeCompound {parameters : Nat} (insideBody : body < Evaluator.registers.length)
    (insideScope : scope < Evaluator.registers.length)
    (moves : Moves layout.program (Evaluator.put target .makeCompound [parameters, body, scope]) s s')
    (isCode : st.registers body = .code .free) (isEnvironment : (st.registers scope).le (.environment false) = true) :
    Succeeds layout law census (st.set target .closure) s' := by
  refine fit.added insideTarget moves fun ps supplies => ?_
  obtain _ | ⟨_, rest⟩ := supplies
  obtain _ | ⟨isBody, rest⟩ := rest
  obtain _ | ⟨isScope, rest⟩ := rest
  cases rest
  have bodyHeld := fit.registers body insideBody
  have scopeHeld := (fit.registers scope insideScope).le isEnvironment
  rw [show s.registers body = _ from isBody, isCode] at bodyHeld
  rw [show s.registers scope = _ from isScope] at scopeHeld
  cases bodyHeld with
  | code placed good =>
    cases scopeHeld with
    | environment environment _ =>
      refine (makeCompound_adds fit.heap placed good environment).mono ?_
      rintro applied cells ⟨later, grows, a, made, role⟩
      exact ⟨later, grows, fun _ => made ▸ .closure role⟩

theorem Fitting.makeReturn (insideValue : value < Evaluator.registers.length)
    (moves : Moves layout.program (Evaluator.put target .makeReturn [value]) s s')
    (isValue : (st.registers value).le (.value .plain) = true) :
    Succeeds layout law census (st.set target .returned) s' := by
  refine fit.added insideTarget moves fun ps supplies => ?_
  obtain _ | ⟨isHeld, rest⟩ := supplies
  cases rest
  have held := (fit.registers value insideValue).le isValue
  rw [show s.registers value = _ from isHeld] at held
  cases held with
  | value value =>
    refine (makeReturn_adds fit.heap value).mono ?_
    rintro applied cells ⟨later, grows, a, made, role⟩
    exact ⟨later, grows, fun _ => made ▸ .returned role⟩

theorem Fitting.adjoinArgument (insideValue : value < Evaluator.registers.length)
    (insideArguments : arguments < Evaluator.registers.length)
    (moves : Moves layout.program (Evaluator.put target .adjoinArgument [value, arguments]) s s')
    (isValue : (st.registers value).le (.value .plain) = true) (isArguments : st.registers arguments = .arguments) :
    Succeeds layout law census (st.set target .arguments) s' := by
  refine fit.added insideTarget moves fun ps supplies => ?_
  obtain _ | ⟨isHeld, rest⟩ := supplies
  obtain _ | ⟨isList, rest⟩ := rest
  cases rest
  have held := (fit.registers value insideValue).le isValue
  have listHeld := fit.registers arguments insideArguments
  rw [show s.registers value = _ from isHeld] at held
  rw [show s.registers arguments = _ from isList, isArguments] at listHeld
  cases held with
  | value value =>
    cases listHeld with
    | arguments arguments =>
      refine (adjoinArgument_adds fit.heap value arguments).mono ?_
      rintro applied cells ⟨later, grows, arguments⟩
      exact ⟨later, grows, fun _ => .arguments arguments⟩

theorem Fitting.applyPrimitive (insideFunction : function < Evaluator.registers.length)
    (moves : Moves layout.program (Evaluator.put target .applyPrimitive [function, arguments]) s s')
    (isPrimitive : st.registers function = .primitive) :
    Succeeds layout law census (st.set target (.value .plain)) s' := by
  refine fit.added insideTarget moves fun ps supplies => ?_
  obtain _ | ⟨isHeld, rest⟩ := supplies
  obtain _ | ⟨_, rest⟩ := rest
  cases rest
  have held := fit.registers function insideFunction
  rw [show s.registers function = _ from isHeld, isPrimitive] at held
  cases held with
  | primitive role =>
    refine (applyPrimitive_adds fit.heap role _).mono ?_
    rintro applied cells ⟨later, grows, value⟩
    exact ⟨later, grows, fun _ => .value value⟩

end

/-- What is looked up for a register is put into a register. -/
theorem Fitting.look {index : Nat} (fit : Fitting layout law census st s)
    (insideTarget : target < Evaluator.registers.length) (insideIndex : index < Evaluator.registers.length)
    (moves : Moves layout.program (Evaluator.put target operation [index]) s s') (begun : st.phase ≠ .blank)
    (look : st.look target operation index = some other) : Succeeds layout law census other s' := by
  unfold State.look at look
  split at look
  · rename_i isKind
    split at look
    · cases look
      exact fit.rewind insideTarget insideIndex moves isKind ‹_›
    · cases look
  · rename_i isKind
    split at look
    · rename_i ready
      simp only [Bool.and_eq_true, decide_eq_true_eq] at ready
      obtain ⟨rfl, steady⟩ := ready
      cases look
      exact fit.shift insideTarget moves isKind steady
    · cases look
  · split at look
    · rename_i ready
      simp only [Bool.and_eq_true, decide_eq_true_eq] at ready
      obtain ⟨rfl, rfl⟩ := ready
      cases look
      exact fit.flag moves
    · cases look
  · split at look
    · rename_i ready
      simp only [Bool.and_eq_true, decide_eq_true_eq] at ready
      obtain ⟨rfl, rfl⟩ := ready
      cases look
      exact fit.classify moves
    · cases look
  · split at look
    · cases look
      exact fit.parted insideTarget insideIndex moves ‹_›
    · obtain ⟨result, found, rfl⟩ := Option.map_eq_some_iff.mp look
      exact fit.found insideTarget insideIndex moves begun found

/-- The result of an operation is put into a register, with one case for each
operation of the listing. -/
theorem Fitting.put {inputs : List Nat} (fit : Fitting layout law census st s) (rooted : Rooted layout law)
    (insideTarget : target < Evaluator.registers.length)
    (insideInputs : ∀ index ∈ inputs, index < Evaluator.registers.length)
    (put : st.put target operation inputs = some other)
    (moves : Moves layout.program (Evaluator.put target operation inputs) s s') :
    Succeeds layout law census other s' := by
  unfold State.put at put
  split at put
  -- the root of the program
  · cases put
    refine fit.added insideTarget moves fun ps supplies => ?_
    cases supplies
    refine (programRoot_adds rooted fit.heap).mono ?_
    rintro applied cells ⟨later, grows, node, placed, good⟩
    exact ⟨later, grows, fun _ => .code placed good⟩
  -- the first frame
  · split at put
    · rename_i ready
      simp only [Bool.and_eq_true, decide_eq_true_eq] at ready
      obtain ⟨⟨⟨⟨rfl, isCode⟩, rests⟩, noSlots⟩, blank⟩ := ready
      cases put
      exact fit.begin moves isCode rests noSlots blank
    · cases put
  -- frames for blocks and calls
  · simp only [List.forall_mem_cons, List.not_mem_nil, false_implies, implies_true, and_true] at insideInputs
    split at put
    · rename_i isCode isEnvironment
      split at put
      · rename_i ready
        simp only [Bool.and_eq_true, decide_eq_true_eq] at ready
        obtain ⟨rfl, rfl⟩ := ready
        exact fit.block insideInputs.2 moves isCode isEnvironment put
      · cases put
    · cases put
  · simp only [List.forall_mem_cons, List.not_mem_nil, false_implies, implies_true, and_true] at insideInputs
    split at put
    · rename_i ready
      simp only [Bool.and_eq_true, decide_eq_true_eq] at ready
      obtain ⟨⟨⟨rfl, rfl⟩, isClosure⟩, isArguments⟩ := ready
      exact fit.call insideInputs.2 moves isClosure isArguments put
    · cases put
  -- functions, return values, arguments and calls of functions of every program
  · simp only [List.forall_mem_cons, List.not_mem_nil, false_implies, implies_true, and_true] at insideInputs
    split at put
    · rename_i ready
      simp only [Bool.and_eq_true, decide_eq_true_eq] at ready
      cases put
      exact fit.makeCompound insideTarget insideInputs.2.1 insideInputs.2.2 moves ready.1 ready.2
    · cases put
  · simp only [List.forall_mem_cons, List.not_mem_nil, false_implies, implies_true, and_true] at insideInputs
    split at put
    · cases put
      exact fit.makeReturn insideTarget insideInputs moves ‹_›
    · cases put
  · simp only [List.forall_mem_cons, List.not_mem_nil, false_implies, implies_true, and_true] at insideInputs
    split at put
    · rename_i ready
      simp only [Bool.and_eq_true, decide_eq_true_eq] at ready
      cases put
      exact fit.adjoinArgument insideTarget insideInputs.1 insideInputs.2 moves ready.1 ready.2
    · cases put
  · simp only [List.forall_mem_cons, List.not_mem_nil, false_implies, implies_true, and_true] at insideInputs
    split at put
    · cases put
      exact fit.applyPrimitive insideTarget insideInputs.1 moves ‹_›
    · cases put
  -- what is only looked up
  · simp only [List.forall_mem_cons, List.not_mem_nil, false_implies, implies_true, and_true] at insideInputs
    split at put
    · cases put
    · exact fit.look insideTarget insideInputs moves ‹_› put
  · cases put

end ExplicitControl.Evaluator
