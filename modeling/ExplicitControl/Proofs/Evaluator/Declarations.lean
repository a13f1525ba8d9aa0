import ExplicitControl.Proofs.Evaluator.Environments
import ExplicitControl.Proofs.Program.Disciplines

namespace ExplicitControl

namespace PairHeap

variable {heap : PairHeap} {p : Pointer}

theorem FrameAt.unique {names names' bindings bindings' : List Pointer} (one : heap.FrameAt p names bindings)
    (other : heap.FrameAt p names' bindings') : bindings = bindings' := by
  obtain ⟨a, head, tail, rfl, holds, _, lists⟩ := one.pair
  obtain ⟨_, _, _, same, holds', _, lists'⟩ := other.pair
  cases same
  obtain ⟨rfl, rfl⟩ := holds.unique holds'
  exact lists.unique lists'

end PairHeap

namespace Evaluator

open Interpreter (Law)
open Machine (Lineage)
open Listing

theorem labelPosition_declarationFound :
    labelPosition? "ev_declaration_found" = some Label.declarationFound.position := by
  decide +kernel

/-- A machine has found the binding of a declaration and is about to write its
value. -/
def Declaring (machine : Machine) : Prop :=
  labelPosition? "ev_declaration_found" = some machine.position

/-- A machine is about to write the value or the flag of the binding of a
declaration. -/
def WritesDeclared (machine : Machine) : Prop :=
  ∃ start, labelPosition? "ev_declaration_found" = some start ∧
    (machine.position = start ∨ machine.position = start + 1)

theorem declaring_iff {machine : Machine} :
    Declaring machine ↔ machine.position = Label.declarationFound.position := by
  rw [Declaring, labelPosition_declarationFound, Option.some.injEq, eq_comm]

theorem writesDeclared_iff {machine : Machine} : WritesDeclared machine ↔
    machine.position = Label.declarationFound.position ∨ machine.position = Label.declarationFound.position + 1 := by
  simp [WritesDeclared, labelPosition_declarationFound]

/-- The binding that a declaration writes: in the innermost frame, in no other,
and not yet declared. -/
structure DeclaredBinding (machine : Machine) (a : Nat) : Prop where
  register : machine.memory.contents res = .pointer (.pair a)
  innermost : ∃ environment frame outer names bindings, machine.memory.contents env = .pointer environment ∧
    machine.memory.heap.EnvironmentAt environment (frame :: outer) ∧
    machine.memory.heap.FrameAt frame names bindings ∧ .pair a ∈ bindings ∧
    ∀ other ∈ outer, ∀ names bindings, machine.memory.heap.FrameAt other names bindings → .pair a ∉ bindings
  flag : ∃ value flag, machine.memory.heap.Holds a value flag ∧ (flag = .null ∨ flag = .bool true)

/-- How the declarations of a program are carried out. -/
structure ScanOutDiscipline (settings : Settings) (tree : Tree) : Prop where
  /-- A declaration writes a binding of the innermost frame that has not been
  declared. -/
  written : ∀ i machine, Visits settings tree i machine → WritesDeclared machine → ∃ a, DeclaredBinding machine a
  /-- No binding is written by two declarations, or twice by the same one. -/
  once : ∀ i j one other a b, Visits settings tree i one → Declaring one → i < j → Visits settings tree j other →
    Declaring other → one.memory.contents res = .pointer (.pair a) → other.memory.contents res = .pointer (.pair b) →
    ¬ Lineage (Visits settings tree) i a j b

/-- What is known where declarations write. -/
theorem declaring_verified : ∀ position ∈ [Label.declarationFound.position, Label.declarationFound.position + 1],
    ∀ st ∈ statesAt position, st.registers a = .stray ∨
      st.registers a = .hit ∧ st.registers res = .binding true ∧ st.registers env = .environment true := by
  decide +kernel

/-- A place of a frame, in the path. -/
structure Recounts.Place (census : Census) (w f k : Nat) (record : FrameRecord) : Prop where
  known : census.frames[f]? = some record
  listed : record.cells[k]? = some w
  inner : f ≠ 0
  undeclared : (f, k) ∉ census.declared

namespace Recounts

variable {visits : Nat → Machine → Prop} {law : Law} {count : Nat} {layout : Layout} {path : Nat → Config × Nat}
  {link : Nat → Nat → Nat → Prop} {censuses : Nat → Census} {i j : Nat} {machine : Machine}
  (recounts : Recounts visits law count layout path link censuses)
include recounts

/-- A declaration that has written the value of a binding goes on to write its
flag. -/
theorem declared_next {w : Nat} (before : i < count) (position : (path i).2 = Label.declarationFound.position)
    (isRes : (path i).1.registers res = .pointer (.pair w)) :
    (path (i + 1)).2 = Label.declarationFound.position + 1 ∧
      (path (i + 1)).1.registers res = .pointer (.pair w) := by
  have here : listing[(path i).2]? = some (act .setHead [res, val]) := by rw [position]; rfl
  have next := recounts.next_position before here fun _ => ⟨nofun, nofun, nofun⟩
  obtain ⟨_, _, _, _, _, same⟩ := (recounts.moves_of_code before here).act (fun _ _ _ => True) fun ps supplies => by
    obtain _ | ⟨_, rest⟩ := supplies
    obtain _ | ⟨_, rest⟩ := rest
    cases rest
    have written (p q : Pointer) : Action.Brings layout.program table (Action.setHead p q) (scenesOf path i).heap
        fun _ _ => True := .setHead fun _ _ _ _ _ => trivial
    exact brings_of_run nofun ((written _ _).bind (fun _ _ _ => .pure trivial) fun _ => .pure _)
  refine ⟨by rw [next, position], ?_⟩
  change (scenesOf path (i + 1)).registers res = _
  rw [same]
  exact isRes

variable (scanned : law.scanned = true)
include scanned

/-- What a declaration writes, in the path: a binding of the innermost frame,
not declared before. -/
theorem declaring (inside : i ≤ count)
    (position : (path i).2 = Label.declarationFound.position ∨ (path i).2 = Label.declarationFound.position + 1) :
    ∃ w f k record p, (path i).1.registers res = .pointer (.pair w) ∧ Place (censuses i) w f k record ∧
      (path i).1.registers env = .pointer p ∧ (censuses i).Environment f p := by
  obtain ⟨st, member, ⟨fit⟩⟩ := recounts.chronicle.fits i inside
  have known := declaring_verified (path i).2 (by simpa using position) st member
  have aHeld := fit.registers a (by decide)
  have resHeld := fit.registers res (by decide)
  have envHeld := fit.registers env (by decide)
  change Holds _ _ _ _ _ ((path i).1.registers res) _ at resHeld
  change Holds _ _ _ _ _ ((path i).1.registers env) _ at envHeld
  rcases known with isStray | ⟨isHit, isBinding, isEnvironment⟩
  · rw [isStray] at aHeld
    generalize (scenesOf path i).registers a = contents at aHeld
    cases aHeld with
    | stray _ unscanned =>
      rw [unscanned] at scanned
      cases scanned
  · rw [isHit] at aHeld
    rw [isBinding] at resHeld
    rw [isEnvironment] at envHeld
    have owed : (fit.σ.frame, fit.σ.cursor) ∈ fit.debts a := by
      generalize (scenesOf path i).registers a = contents at aHeld
      cases aHeld with
      | hit _ owed => exact owed scanned
    generalize (path i).1.registers res = contents at resHeld ⊢
    generalize (path i).1.registers env = contents' at envHeld ⊢
    cases resHeld with
    | @binding _ f k w record _ known listed isOwn =>
      cases envHeld with
      | @environment _ f' p _ environment own =>
        obtain ⟨rfl, rfl⟩ := isOwn rfl
        obtain rfl := own rfl
        have all : (fit.σ.frame, fit.σ.cursor) ∈ total fit.debts + fit.slotTokens + fit.baseTokens := by
          refine Multiset.mem_add.mpr (.inl (Multiset.mem_add.mpr (.inl ?_)))
          exact Multiset.mem_sum.mpr ⟨a, by decide, owed⟩
        exact ⟨w, _, _, record, p, rfl, ⟨known, listed, (fit.ledger.inner _ all).1, fit.ledger.undeclared _ all⟩, rfl,
          environment⟩

/-- What a declaration writes, in the machine, wherever the pairs of the frame
have been moved. -/
theorem declaredBinding (inside : i ≤ count) (here : visits i machine) (writes : WritesDeclared machine) :
    ∃ a, DeclaredBinding machine a := by
  have mirrors := recounts.mirrors inside here
  have fits := recounts.fits inside
  rw [writesDeclared_iff, mirrors.position] at writes
  obtain ⟨w, f, k, record, p', isRes, place, isEnv, environment⟩ := recounts.declaring scanned inside writes
  have role := (fits.frames f record place.known).cells k w place.listed
  have resMatched := mirrors.registers res
  have envMatched := mirrors.registers env
  rw [isRes] at resMatched
  rw [isEnv] at envMatched
  generalize heldRes : machine.memory.contents res = contents at resMatched
  generalize heldEnv : machine.memory.contents env = contents' at envMatched
  cases resMatched with
  | pointer resMatched =>
    cases envMatched with
    | @pointer p _ envMatched =>
      obtain ⟨a, rfl, related⟩ := resMatched.exists_pair
      refine ⟨a, heldRes, ?_, ?_⟩
      · obtain ⟨frames, numbers, lists, row, descending, _⟩ := mirrors.frames fits environment envMatched
        cases row with
        | @cons frame _ outer _ first rest =>
          obtain ⟨record', known', frameMatched⟩ := first
          cases place.known.symm.trans known'
          obtain ⟨names, bindings, isFrame, cells⟩ := mirrors.frame fits place.known frameMatched
          refine ⟨p, frame, outer, names, bindings, heldEnv, ⟨lists, fun other member => ?_⟩, isFrame, ?_, ?_⟩
          · rcases List.mem_cons.mp member with rfl | member
            · exact ⟨names, bindings, isFrame⟩
            · obtain ⟨n, _, record', known', frameMatched⟩ := exists_of_forall₂ rest member
              obtain ⟨names, bindings, isFrame, _⟩ := mirrors.frame fits known' frameMatched
              exact ⟨names, bindings, isFrame⟩
          · obtain ⟨q, member, matched⟩ :=
              exists_of_forall₂ (List.Forall₂.flip cells) (List.mem_of_getElem? place.listed)
            obtain ⟨a', rfl, related'⟩ := Pointer.Matches.exists_pair matched
            rwa [mirrors.unique.1 related related']
          · -- a binding of an outer frame has that frame for its role
            intro other member names' bindings' isFrame' inOther
            obtain ⟨n, memberNumber, record', known', frameMatched⟩ := exists_of_forall₂ rest member
            obtain ⟨_, bindings'', isFrame'', cells'⟩ := mirrors.frame fits known' frameMatched
            rw [isFrame'.unique isFrame''] at inOther
            obtain ⟨w', memberCell, matched⟩ := exists_of_forall₂ cells' inOther
            obtain ⟨_, same, related'⟩ := matched.exists_pair
            cases same
            obtain ⟨k', listed'⟩ := List.mem_iff_getElem?.mp memberCell
            have role' := (fits.frames n record' known').cells k' w' listed'
            rw [← mirrors.unique.2 related related'] at role'
            cases role.symm.trans role'
            exact absurd (List.rel_of_pairwise_cons descending memberNumber) (Nat.lt_irrefl _)
      · obtain ⟨value, flag, _, _, holds, _, allowed, _, flagMatched⟩ := mirrors.exists_pair fits related role
        refine ⟨value, flag, holds, ?_⟩
        cases allowed with
        | binding _ isFlag unlocked =>
          have open_ := unlocked scanned place.inner place.undeclared
          rcases isFlag with rfl | rfl | rfl
          · exact .inr flagMatched.eq_scalar
          · exact absurd rfl open_
          · exact .inl flagMatched.eq_scalar

/-- A binding that a declaration has written is not written by another. Its
place was owed once, and has been paid. -/
theorem declared_once {one other : Machine} {a b : Nat} (before : i < j) (inside : j ≤ count) (here : visits i one)
    (declares : Declaring one) (there : visits j other) (declaresAgain : Declaring other)
    (isOne : one.memory.contents res = .pointer (.pair a)) (isOther : other.memory.contents res = .pointer (.pair b)) :
    ¬ Lineage visits i a j b := by
  intro lineage
  obtain ⟨_, account⟩ := recounts.account
  have mirrors := recounts.mirrors (before.le.trans inside) here
  have mirrors' := recounts.mirrors inside there
  rw [declaring_iff, mirrors.position] at declares
  rw [declaring_iff, mirrors'.position] at declaresAgain
  obtain ⟨w, f, k, record, _, isRes, place, _⟩ :=
    recounts.declaring scanned (before.le.trans inside) (.inl declares)
  obtain ⟨w', f', k', record', _, isRes', place', _⟩ := recounts.declaring scanned inside (.inl declaresAgain)
  -- both write the same pair of the path
  have matched := mirrors.registers res
  have matched' := mirrors'.registers res
  rw [isOne, isRes] at matched
  rw [isOther, isRes'] at matched'
  cases matched with | pointer matched => ?_
  cases matched' with | pointer matched' => ?_
  cases matched with | pair related => ?_
  cases matched' with | pair related' => ?_
  have related := account.onward _ _ _ _ _ inside lineage related
  obtain rfl := mirrors'.unique.2 related related'
  have role := ((recounts.fits (before.le.trans inside)).frames f record place.known).cells k w place.listed
  have role' := ((recounts.fits inside).frames f' record' place'.known).cells k' w place'.listed
  cases ((recounts.extends_of_le before.le inside).has role).symm.trans role'
  -- whose place counts as declared once the first has written its flag as well
  obtain ⟨next, isNext⟩ := recounts.declared_next (before.trans_le inside) declares isRes
  have later : i + 1 < j := by
    rcases Nat.lt_or_eq_of_le (Nat.succ_le_of_lt before) with later | rfl
    · exact later
    · rw [next] at declaresAgain
      exact absurd declaresAgain (Nat.succ_ne_self _)
  have declared := recounts.chronicle.settled (i + 1) (later.trans_le inside) next scanned w f k isNext
    ((recounts.extends_of_le (by omega) (by omega)).has role)
  exact place'.undeclared ((recounts.extends_of_le (Nat.succ_le_of_lt later) inside).declared declared)

end Recounts

/-- Where names are declared only where they are scanned out, a declaration
writes a binding of the innermost frame and of no outer one, which has not
been declared, and no other declaration ever writes it. -/
theorem scan_out_discipline (settings : Settings) {tree : Tree} (scannedOut : tree.ScannedOut) :
    ScanOutDiscipline settings tree where
  written := by
    intro i machine visits writes
    obtain ⟨layout, path, link, censuses, recounts⟩ :=
      exists_recounting .scannedOut visits ⟨[], tree, scannedOut, rfl⟩
    exact recounts.declaredBinding rfl le_rfl visits writes
  once := by
    intro i j one other a b visits declares before visits' declares' isOne isOther
    obtain ⟨layout, path, link, censuses, recounts⟩ :=
      exists_recounting .scannedOut visits' ⟨[], tree, scannedOut, rfl⟩
    exact recounts.declared_once rfl before le_rfl visits declares visits' declares' isOne isOther

/-- A name that is declared again in a block. -/
def redeclaring : Tree :=
  .sequence [.constantDeclaration "x" (.atom .null), .block (.variableDeclaration "x" (.atom .undefined))]

/-- Both declarations are carried out, one after the other, and each writes a
binding of its own frame. -/
theorem scan_out_discipline_shadowing :
    redeclaring.ScannedOut ∧ ScanOutDiscipline ⟨100, false⟩ redeclaring ∧
      ∃ outer inner a b, Visits ⟨100, false⟩ redeclaring 75 outer ∧ Declaring outer ∧ DeclaredBinding outer a ∧
        Visits ⟨100, false⟩ redeclaring 159 inner ∧ Declaring inner ∧ DeclaredBinding inner b ∧
        ¬ Lineage (Visits ⟨100, false⟩ redeclaring) 75 a 159 b := by
  have scannedOut : redeclaring.ScannedOut := by
    refine .sequence .body fun statement member => ?_
    simp only [List.mem_cons, List.not_mem_nil, or_false] at member
    rcases member with rfl | rfl
    · exact .constantDeclaration "x" nofun (.atom .inner .null)
    · exact .block .statement (.variableDeclaration "x" nofun (.atom .inner .undefined))
  have discipline := scan_out_discipline ⟨100, false⟩ scannedOut
  have first : goesOn (fun machine => machine.position == Label.declarationFound.position)
      (run 75 (pristine.configure ⟨100, false⟩) redeclaring) := by decide +kernel
  have second : goesOn (fun machine => machine.position == Label.declarationFound.position)
      (run 159 (pristine.configure ⟨100, false⟩) redeclaring) := by decide +kernel
  obtain ⟨outer, visitsOuter, atOuter⟩ := exists_visits_of_goesOn first
  obtain ⟨inner, visitsInner, atInner⟩ := exists_visits_of_goesOn second
  have atOuter := beq_iff_eq.mp atOuter
  have atInner := beq_iff_eq.mp atInner
  obtain ⟨a, writesOuter⟩ := discipline.written 75 outer visitsOuter (writesDeclared_iff.mpr (.inl atOuter))
  obtain ⟨b, writesInner⟩ := discipline.written 159 inner visitsInner (writesDeclared_iff.mpr (.inl atInner))
  exact ⟨scannedOut, discipline, outer, inner, a, b, visitsOuter, declaring_iff.mpr atOuter, writesOuter, visitsInner,
    declaring_iff.mpr atInner, writesInner, discipline.once 75 159 outer inner a b visitsOuter
      (declaring_iff.mpr atOuter) (by decide) visitsInner (declaring_iff.mpr atInner) writesOuter.register
      writesInner.register⟩

end Evaluator

end ExplicitControl
