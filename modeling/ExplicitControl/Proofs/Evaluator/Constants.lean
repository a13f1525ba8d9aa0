import ExplicitControl.Proofs.Evaluator.Returns
import ExplicitControl.Proofs.Operation.Sparing

namespace ExplicitControl.Evaluator

open Interpreter (Law)
open Machine (Lineage)
open Listing

/-- A binding of a constant, with its value. -/
structure Constant (visits : Nat → Machine → Prop) (i a : Nat) (value : Pointer) : Prop where
  cell : BindingCell visits i a
  holds : ∃ machine, visits i machine ∧ machine.memory.heap.Holds a value (.bool false)

/-- A constant is still one at a later time, with the same value, wherever both
have been moved. -/
def Remains (visits : Nat → Machine → Prop) (i : Nat) (value : Pointer) (j b : Nat) : Prop :=
  ∃ value', Constant visits j b value' ∧ value.Matches (fun p q => Lineage visits i p j q) value'

/-- No instruction changes the value of a constant, or makes it anything
else. -/
def ConstantsImmutable (settings : Settings) (tree : Tree) : Prop :=
  ∀ i j a b value, Constant (Visits settings tree) i a value → Lineage (Visits settings tree) i a j b →
    Remains (Visits settings tree) i value j b

/-- Between two times a declaration has written into a binding. -/
def Redeclared (visits : Nat → Machine → Prop) (i a j : Nat) : Prop :=
  ∃ k declaring b, i ≤ k ∧ k < j ∧ visits k declaring ∧ WritesDeclared declaring ∧
    declaring.memory.contents res = .pointer (.pair b) ∧ Lineage visits i a k b

/-- The positions of the two instructions by which a declaration writes. -/
def DeclarationWrite (position : Nat) : Prop :=
  position = Label.declarationFound.position ∨ position = Label.declarationFound.position + 1

/-- At a place of a path a declaration is about to write into a pair. -/
def WritesInto (place : Config × Nat) (a : Nat) : Prop :=
  DeclarationWrite place.2 ∧ place.1.registers res = .pointer (.pair a)

/-- Whether an instruction applies an operation that may write into a pair. -/
def writes : Code → Bool
  | .assign _ (.application ⟨_, .addressAware operation, _⟩) => operation.writes
  | .test ⟨_, .addressAware operation, _⟩ => operation.writes
  | .perform ⟨_, .addressAware operation, _⟩ => operation.writes
  | _ => false

/-- Where the instructions are that may write into a pair: where a program is
entered and the stack is cleared, where a function of every program is
applied, in an assignment and in a declaration. -/
theorem writes_verified : ∀ entry ∈ listing.zipIdx, writes entry.1 = true →
    entry.2 = Label.entrance.position ∨ entry.2 = Label.primitiveApply.position ∨
      entry.2 = Label.assignmentFound.position + 5 ∨ DeclarationWrite entry.2 := by
  unfold DeclarationWrite
  decide +kernel

/-- Only functions of every program are applied as such, so no function value
can name an operation that writes. -/
theorem primitiveApply_verified : ∀ st ∈ statesAt Label.primitiveApply.position, st.registers fn = .primitive := by
  decide +kernel

/-- An assignment has looked at the flag and found something else than false. -/
theorem assignmentFound_verified : ∀ st ∈ statesAt (Label.assignmentFound.position + 5), st.fact = .unlocked := by
  decide +kernel

/-- An operation that may not write spares as much where it is called. -/
theorem call_sparing {program : ProgramHeap} {operation : HeapOperation} (reads : operation.writes = false)
    (operands : List Pointer) (cells : Cells) :
    Action.Brings program table (Operation.call operation.name (.addressAware operation) operands) cells
      fun _ after => Cells.Spares cells after := by
  have direct : operation ≠ .applyPrimitive := by
    rintro rfl
    cases reads
  exact brings_of_run direct (HeapOperation.run_sparing reads operands program table cells)

namespace Moves

variable {program : ProgramHeap} {s s' : Scene} {code : Code} {inputs : List Nat}

/-- An instruction that may not write spares pairs with false for their tail. -/
theorem spares (moves : Moves program code s s') (isRegular : regular code = true) (reads : writes code = false) :
    Cells.Spares s.heap s'.heap := by
  let spared (_ : List Pointer) (_ : Pointer) (cells : Cells) : Prop := Cells.Spares s.heap cells
  cases code with
  | goto label =>
    rw [moves.goto]
    exact .refl _
  | branch label =>
    rw [moves.branch]
    exact .refl _
  | gotoRegister index =>
    obtain ⟨label, _, rfl⟩ := moves.gotoRegister
    exact .refl _
  | save index =>
    rw [moves.save]
    exact .refl _
  | restore index =>
    obtain ⟨_, _, _, rfl⟩ := moves.restore (of_decide_eq_true isRegular)
    exact .refl _
  | perform application =>
    obtain ⟨name, operation, inputs⟩ := application
    cases operation with
    | primitive _ => simp [regular, regularUse] at isRegular
    | addressAware operation =>
      simp only [regular, regularUse, Bool.and_eq_true, decide_eq_true_eq] at isRegular
      obtain ⟨_, rfl⟩ := isRegular
      obtain ⟨_, _, _, _, spares, rfl⟩ := moves.act spared fun ps _ => call_sparing reads ps s.heap
      exact spares
  | test application =>
    obtain ⟨name, operation, inputs⟩ := application
    cases operation with
    | primitive _ => simp [regular, regularUse] at isRegular
    | addressAware operation =>
      simp only [regular, regularUse, Bool.and_eq_true, decide_eq_true_eq] at isRegular
      obtain ⟨_, rfl⟩ := isRegular
      obtain ⟨_, _, _, _, spares, rfl⟩ := moves.ask spared fun ps _ => call_sparing reads ps s.heap
      exact spares
  | assign target source =>
    cases source with
    | register index =>
      simp only [regular, Bool.and_eq_true, decide_eq_true_eq] at isRegular
      rw [moves.assignRegister isRegular.1]
      exact .refl _
    | constant value =>
      rw [moves.assignConstant (of_decide_eq_true isRegular)]
      exact .refl _
    | label position =>
      rw [moves.assignLabel (of_decide_eq_true isRegular)]
      exact .refl _
    | application application =>
      obtain ⟨name, operation, inputs⟩ := application
      cases operation with
      | primitive _ => simp [regular, regularUse] at isRegular
      | addressAware operation =>
        simp only [regular, regularUse, Bool.and_eq_true, decide_eq_true_eq] at isRegular
        obtain ⟨inside, _, rfl⟩ := isRegular
        obtain ⟨_, _, _, _, spares, rfl⟩ := moves.put spared (fun ps _ => call_sparing reads ps s.heap) inside
        exact spares

/-- Writing the head or the tail of a pair leaves the others as they are. -/
theorem write {operation : HeapOperation} {target value : Nat}
    (isWrite : operation = .setHead ∨ operation = .setTail)
    (moves : Moves program (Evaluator.act operation [target, value]) s s') :
    ∃ a old new, s.registers target = .pointer (.pair a) ∧ s.heap[a]? = some old ∧ s'.heap = s.heap.set a new := by
  let written (ps : List Pointer) (_ : Pointer) (cells : Cells) : Prop :=
    ∃ a old new, ps[0]? = some (.pair a) ∧ s.heap[a]? = some old ∧ cells = s.heap.set a new
  have brings : ∀ ps, s.Supplies ([target, value].map .register) ps →
      Action.Brings program table (Operation.call operation.name (.addressAware operation) ps) s.heap
        fun applied cells => written ps applied.value cells := by
    intro ps supplies
    obtain _ | ⟨_, rest⟩ := supplies
    obtain _ | ⟨_, rest⟩ := rest
    cases rest
    rename_i p _ q _
    rcases isWrite with rfl | rfl
    · have set : Action.Brings program table (Action.setHead p q) s.heap fun _ cells => written [p, q] .null cells :=
        .setHead fun a old tail same found => ⟨a, _, _, congrArg some same, found, rfl⟩
      exact brings_of_run nofun (set.bind (fun _ _ holds => .pure holds) fun _ => .pure _)
    · have set : Action.Brings program table (Action.setTail p q) s.heap fun _ cells => written [p, q] .null cells :=
        .setTail fun a head old same found => ⟨a, _, _, congrArg some same, found, rfl⟩
      exact brings_of_run nofun (set.bind (fun _ _ holds => .pure holds) fun _ => .pure _)
  obtain ⟨ps, _, cells, supplies, ⟨a, old, new, isFirst, found, rfl⟩, rfl⟩ := moves.act written brings
  obtain _ | ⟨isHeld, rest⟩ := supplies
  cases isFirst
  exact ⟨a, old, new, isHeld, found, rfl⟩

end Moves

namespace Recounts

variable {visits : Nat → Machine → Prop} {law : Law} {count : Nat} {layout : Layout} {path : Nat → Config × Nat}
  {link : Nat → Nat → Nat → Prop} {censuses : Nat → Census} {i j w : Nat} {head : Pointer} {machine : Machine}
  (recounts : Recounts visits law count layout path link censuses)
include recounts

/-- Where a primitive is applied nothing is written. -/
theorem primitiveApply_heap (before : i < count) (position : (path i).2 = Label.primitiveApply.position) :
    (path (i + 1)).1.heap = (path i).1.heap := by
  have here : listing[(path i).2]? = some (put val .applyPrimitive [fn, argl]) := by
    rw [position]
    rfl
  have moves := recounts.moves_of_code before here
  obtain ⟨st, member, ⟨fit⟩⟩ := recounts.chronicle.fits i before.le
  have isPrimitive : st.registers fn = .primitive := primitiveApply_verified st (position ▸ member)
  have held := fit.registers fn (by decide)
  rw [isPrimitive] at held
  obtain ⟨_, _, _, _, same, after⟩ := moves.put (fun _ _ cells => cells = (path i).1.heap) (fun ps supplies => by
    obtain _ | ⟨isHeld, rest⟩ := supplies
    obtain _ | ⟨_, rest⟩ := rest
    cases rest
    rw [show (scenesOf path i).registers fn = _ from isHeld] at held
    cases held with
    | primitive role => exact (fit.heap.applyPrimitive role _).mono fun _ _ kept => kept.1) (by decide)
  exact (congrArg Scene.heap after).trans same

/-- An assignment writes only into a pair with another tail, at whose flag it
has looked. -/
theorem assignmentFound_spares (before : i < count) (position : (path i).2 = Label.assignmentFound.position + 5) :
    Cells.Spares (path i).1.heap (path (i + 1)).1.heap := by
  have here : listing[(path i).2]? = some (act .setHead [res, val]) := by
    rw [position]
    rfl
  obtain ⟨a, old, new, isRes, _, after⟩ := (recounts.moves_of_code before here).write (.inl rfl)
  obtain ⟨st, member, ⟨fit⟩⟩ := recounts.chronicle.fits i before.le
  have isUnlocked : st.fact = .unlocked := assignmentFound_verified st (position ▸ member)
  have fact := fit.fact
  rw [isUnlocked] at fact
  obtain ⟨a', head, flag, isRes', found, unlocked⟩ := fact
  obtain rfl : a = a' := by
    have same := isRes.symm.trans isRes'
    simpa using same
  change (path (i + 1)).1.heap = _ at after
  rw [after]
  exact .set found unlocked new

/-- An instruction other than the two writes of a declaration spares pairs with
false for their tail. -/
theorem spares (before : i < count) (other : ¬ DeclarationWrite (path i).2) :
    Cells.Spares (path i).1.heap (path (i + 1)).1.heap := by
  obtain ⟨code, here, moves⟩ := recounts.unfolds.moves i before
  change listing[(path i).2]? = some code at here
  by_cases reads : writes code = false
  · have isRegular : regular code = true := listing_regular code (List.mem_of_getElem? here)
    exact moves.spares isRegular reads
  · have listed : (code, (path i).2) ∈ listing.zipIdx := List.mem_zipIdx_iff_getElem?.mpr here
    rcases writes_verified _ listed (by simpa using reads) with position | position | position | declares
    · have isClear : listing[(path i).2]? = some (act .clearStack []) := by
        rw [position]
        rfl
      have same : (path (i + 1)).1.heap = (path i).1.heap :=
        congrArg Scene.heap (recounts.moves_of_code before isClear).clearStack
      rw [same]
      exact .refl _
    · rw [recounts.primitiveApply_heap before position]
      exact .refl _
    · exact recounts.assignmentFound_spares before position
    · exact absurd declares other

/-- A declaration writes into the pair that it has found, whatever its flag
says: it does not look at the flag. -/
theorem declaration_write (before : i < count) (declares : DeclarationWrite (path i).2) :
    ∃ a new, (path i).1.registers res = .pointer (.pair a) ∧ (path (i + 1)).1.heap = (path i).1.heap.set a new := by
  rcases declares with position | position
  · have here : listing[(path i).2]? = some (act .setHead [res, val]) := by
      rw [position]
      rfl
    obtain ⟨a, _, new, isRes, _, after⟩ := (recounts.moves_of_code before here).write (.inl rfl)
    exact ⟨a, new, isRes, after⟩
  · have here : listing[(path i).2]? = some (act .setTail [res, unev]) := by
      rw [position]
      rfl
    obtain ⟨a, _, new, isRes, _, after⟩ := (recounts.moves_of_code before here).write (.inr rfl)
    exact ⟨a, new, isRes, after⟩

/-- A constant stays as it is, but for a declaration that writes into it. -/
theorem constant_next (before : i < count) (held : (path i).1.heap[w]? = some (head, .bool false))
    (spared : ¬ WritesInto (path i) w) : (path (i + 1)).1.heap[w]? = some (head, .bool false) := by
  by_cases declares : DeclarationWrite (path i).2
  · obtain ⟨a, new, isRes, after⟩ := recounts.declaration_write before declares
    have apart : a ≠ w := by
      rintro rfl
      exact spared ⟨declares, isRes⟩
    rw [after, List.getElem?_set_ne apart]
    exact held
  · exact recounts.spares before declares w head held

/-- And so it does for as long as no declaration writes into it, by induction
on the instructions in between. -/
theorem constant_kept (le : i ≤ j) (inside : j ≤ count) (held : (path i).1.heap[w]? = some (head, .bool false))
    (spared : ∀ k, i ≤ k → k < j → ¬ WritesInto (path k) w) : (path j).1.heap[w]? = some (head, .bool false) := by
  induction j, le using Nat.le_induction with
  | base => exact held
  | succ j le ih =>
    have earlier := ih (Nat.le_of_succ_le inside) fun k after before =>
      spared k after (before.trans (Nat.lt_succ_self j))
    exact recounts.constant_next inside earlier (spared j le (Nat.lt_succ_self j))

/-- A pair of the machine with false for its tail keeps its value and its tail
for as long as no declaration writes into it, through collections that move
it. -/
theorem holds_kept {a b : Nat} {value : Pointer} {later : Machine} (inside : j ≤ count) (here : visits i machine)
    (holds : machine.memory.heap.Holds a value (.bool false)) (there : visits j later)
    (lineage : Lineage visits i a j b) (spared : ¬ Redeclared visits i a j) :
    ∃ value', later.memory.heap.Holds b value' (.bool false) ∧
      value.Matches (fun p q => Lineage visits i p j q) value' := by
  obtain ⟨_, account⟩ := recounts.account
  have le : i ≤ j := lineage.le
  have mirrors := recounts.mirrors (le.trans inside) here
  have mirrors' := recounts.mirrors inside there
  obtain ⟨w, related⟩ := account.total i a machine (le.trans inside) here holds.lt
  have related' : link j b w := account.onward _ _ _ _ _ inside lineage related
  obtain ⟨_, _, head, tail, holds₁, found, headMatched, tailMatched⟩ := mirrors.pairs a w related
  obtain ⟨rfl, rfl⟩ := holds.unique holds₁
  obtain rfl : tail = .bool false := by
    cases tailMatched
    rfl
  have kept : (path j).1.heap[w]? = some (head, .bool false) := by
    refine recounts.constant_kept le inside found fun k after before ⟨position, isRes⟩ => spared ?_
    -- the declaration would write into the pair in the machine as well
    have inside' : k ≤ count := before.le.trans inside
    obtain ⟨declaring, visited⟩ := account.visited k inside'
    have mirrors'' := recounts.mirrors inside' visited
    have isDeclaring : WritesDeclared declaring := writesDeclared_iff.mpr (mirrors''.position ▸ position)
    have matched := mirrors''.registers res
    rw [isRes] at matched
    generalize isRes' : declaring.memory.contents res = contents at matched
    cases matched with | pointer matched => ?_
    obtain ⟨c, rfl, related''⟩ := matched.exists_pair
    obtain ⟨a', first, lineage'⟩ :=
      account.back i k c w after inside' (List.getElem?_eq_some_iff.mp found).1 related''
    obtain rfl := mirrors.unique.1 related first
    exact ⟨k, declaring, c, after, before, visited, isDeclaring, isRes', lineage'⟩
  obtain ⟨value', _, _, _, holds', found', headMatched', tailMatched'⟩ := mirrors'.pairs b w related'
  cases kept.symm.trans found'
  rw [tailMatched'.eq_scalar] at holds'
  have relocates := account.relocates le inside here (.pointer headMatched) (.pointer headMatched')
  cases relocates with
  | pointer relocates => exact ⟨value', holds', relocates⟩

end Recounts

theorem BindingCell.onward {visits : Nat → Machine → Prop} {i j a b : Nat} (cell : BindingCell visits i a)
    (lineage : Lineage visits i a j b) : BindingCell visits j b := by
  obtain ⟨k, machine, p, frames, frame, names, bindings, first, here, isEnv, environmentAt, isOn, frameAt, listed,
    before⟩ := cell
  exact ⟨k, machine, p, frames, frame, names, bindings, first, here, isEnv, environmentAt, isOn, frameAt, listed,
    before.trans lineage⟩

/-- What keeps the constants of a program as they are. -/
structure ConstantDiscipline (settings : Settings) (tree : Tree) : Prop where
  /-- Only a declaration that finds the binding of a constant changes it. -/
  kept : ∀ i j a b value, Constant (Visits settings tree) i a value → Lineage (Visits settings tree) i a j b →
    ¬ Redeclared (Visits settings tree) i a j → Remains (Visits settings tree) i value j b
  /-- Where names are declared only where they are scanned out, none does. -/
  immutable : tree.ScannedOut → ConstantsImmutable settings tree

/-- A binding has false for its flag once it is the binding of a constant, and
from then on no instruction changes it but the two by which a declaration
writes the binding that it has found. Where names are declared only where they
are scanned out, no declaration finds one that has been initialized, and
constants never change. -/
theorem constant_discipline (settings : Settings) (tree : Tree) : ConstantDiscipline settings tree := by
  have kept : ∀ i j a b value, Constant (Visits settings tree) i a value → Lineage (Visits settings tree) i a j b →
      ¬ Redeclared (Visits settings tree) i a j → Remains (Visits settings tree) i value j b := by
    rintro i j a b value ⟨cell, machine, here, holds⟩ lineage spared
    obtain ⟨later, there⟩ := lineage.visited
    obtain ⟨layout, path, link, censuses, recounts⟩ := exists_recounting .none there trivial
    obtain ⟨value', holds', relocated⟩ := recounts.holds_kept le_rfl here holds there lineage spared
    exact ⟨value', ⟨cell.onward lineage, later, there, holds'⟩, relocated⟩
  refine ⟨kept, fun scannedOut i j a b value constant lineage => kept i j a b value constant lineage ?_⟩
  rintro ⟨k, declaring, c, after, before, visited, writes, isRes, lineage'⟩
  -- the first declaration to write into it would find a flag that is not false
  induction k using Nat.strong_induction_on generalizing declaring c with
  | h k ih =>
    have unspoiled : ¬ Redeclared (Visits settings tree) i a k := by
      rintro ⟨k', declaring', c', after', before', rest⟩
      obtain ⟨visited', writes', isRes', lineage''⟩ := rest
      exact ih k' before' declaring' c' after' (before'.trans before) visited' writes' isRes' lineage''
    obtain ⟨value', ⟨_, declaring', visited', holds⟩, _⟩ := kept i k a c value constant lineage' unspoiled
    obtain rfl := visited.unique visited'
    obtain ⟨layout, path, link, censuses, recounts⟩ :=
      exists_recounting .scannedOut visited ⟨[], tree, scannedOut, rfl⟩
    obtain ⟨c', declared⟩ := recounts.declaredBinding rfl le_rfl visited writes
    obtain rfl : c = c' := by
      have same := isRes.symm.trans declared.register
      simpa using same
    obtain ⟨_, flag, holds', isOpen⟩ := declared.flag
    obtain rfl := (holds.unique holds').2
    rcases isOpen with closed | closed
    · cases closed
    · cases closed

/-- A program that declares a constant, and declares it again in the branch of
a conditional, where the name is not scanned out. The second declaration finds
the binding of the first. -/
def overwriting : Tree :=
  .sequence [.constantDeclaration "x" (.atom .null),
    .conditionalStatement (.atom (.bool true)) (.constantDeclaration "x" (.atom (.bool true))) (.atom .undefined),
    .name "x"]

/-- Whether the first binding of the environment, at address 59, is null and
constant in one machine and true in the next. -/
def overwrites : Outcome Pointer × Machine → Outcome Pointer × Machine → Bool
  | (.unfinished, machine), (.unfinished, next) =>
    let heap := machine.memory.heap
    match machine.memory.contents env, heap.head 63, heap.tail 62, heap.head 61, heap.head 59, heap.tail 59,
      next.memory.heap.head 59 with
    | .pointer (.pair 63), .ok (.pair 62), .ok (.pair 61), .ok (.pair 59), .ok .null, .ok (.bool false),
      .ok (.bool true) => next.memory.heap.statistics.collections == heap.statistics.collections
    | _, _, _, _, _, _, _ => false
  | _, _ => false

theorem exists_overwriting : ∃ made, machine ⟨100, false⟩ = .ok made ∧
    overwrites (run 167 made overwriting) (run 168 made overwriting) = true :=
  ⟨_, machine_pristine _, by decide +kernel⟩

/-- The first binding that is read off the environment of expressions is one. -/
theorem bindingCell_first {settings : Settings} {tree : Tree} {i first frame list a : Nat} {machine : Machine}
    (here : Visits settings tree i machine) (isEnv : machine.memory.contents env = .pointer (.pair first))
    (isFrame : machine.memory.heap.head first = .ok (.pair frame))
    (isList : machine.memory.heap.tail frame = .ok (.pair list))
    (isBinding : machine.memory.heap.head list = .ok (.pair a)) (inUse : a < machine.memory.heap.free) :
    BindingCell (Visits settings tree) i a := by
  obtain ⟨layout, path, link, censuses, recounts⟩ := exists_recounting .none here trivial
  have matched := (recounts.mirrors le_rfl here).registers env
  rw [isEnv] at matched
  rcases recounts.register_env le_rfl with isUnassigned | ⟨f, p', isPointer, environment⟩
  · rw [isUnassigned] at matched
    cases matched
  rw [isPointer] at matched
  cases matched with | pointer matched => ?_
  obtain ⟨frames, _, isEnvironment, _⟩ := recounts.environmentAt le_rfl here environment matched
  cases isEnvironment.lists with
  | @cons _ p _ outer holds _ =>
    obtain rfl : p = .pair frame := Except.ok.inj (holds.head_eq.symm.trans isFrame)
    obtain ⟨names, bindings, isFrameAt⟩ := isEnvironment.frames _ (.head _)
    obtain ⟨_, _, tail, same, holds', _, lists⟩ := isFrameAt.pair
    cases same
    obtain rfl : tail = .pair list := Except.ok.inj (holds'.tail_eq.symm.trans isList)
    cases lists with
    | @cons _ q _ rest holds'' _ =>
      obtain rfl : q = .pair a := Except.ok.inj (holds''.head_eq.symm.trans isBinding)
      exact ⟨i, machine, _, _, _, names, _, a, here, isEnv, isEnvironment, .head _, isFrameAt, .head _,
        .here here inUse⟩

/-- The second declaration overwrites the constant of the first, so not every
program keeps its constants. -/
theorem not_constantsImmutable_overwriting : ¬ ConstantsImmutable ⟨100, false⟩ overwriting := by
  intro immutable
  obtain ⟨made, isMade, shown⟩ := exists_overwriting
  rcases ran : run 167 made overwriting with ⟨outcome, machine⟩
  rcases ran' : run 168 made overwriting with ⟨outcome', next⟩
  rw [ran, ran'] at shown
  unfold overwrites at shown
  split at shown
  case h_2 => cases shown
  rename_i same same'
  cases same
  cases same'
  dsimp only at shown
  split at shown
  case h_2 => cases shown
  rename_i isEnv isFrame isBindings isBinding isNull isConstant isTrue
  have here : Visits ⟨100, false⟩ overwriting 167 machine := ⟨made, isMade, ran⟩
  have there : Visits ⟨100, false⟩ overwriting 168 next := ⟨made, isMade, ran'⟩
  obtain ⟨flag, holds⟩ := PairHeap.head_eq_ok_iff.mp isNull
  obtain rfl : flag = .bool false := Except.ok.inj (holds.tail_eq.symm.trans isConstant)
  have constant : Constant (Visits ⟨100, false⟩ overwriting) 167 59 .null :=
    ⟨bindingCell_first here isEnv isFrame isBindings isBinding holds.lt, machine, here, holds⟩
  have stays : machine.memory.heap.Carries next.memory.heap 59 59 :=
    (PairHeap.carries_iff_of_eq (beq_iff_eq.mp shown)).mpr ⟨holds.lt, rfl⟩
  have lineage : Lineage (Visits ⟨100, false⟩ overwriting) 167 59 168 59 :=
    .step (.here here holds.lt) here there stays
  obtain ⟨value, ⟨_, next', there', holds'⟩, matched⟩ := immutable 167 168 59 59 .null constant lineage
  obtain rfl := there.unique there'
  cases matched
  cases holds'.head_eq.symm.trans isTrue

end ExplicitControl.Evaluator
