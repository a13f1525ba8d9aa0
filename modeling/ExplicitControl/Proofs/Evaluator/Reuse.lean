import ExplicitControl.Proofs.Evaluator.Safety
import ExplicitControl.Proofs.Machine.Isolation

namespace ExplicitControl.Evaluator

open Interpreter
open Machine (BuiltAs)

/-- An evaluator with a program in it, however it has been used: anything may
have been put into its registers, and it may have run before. -/
inductive Used (capacity : Nat) (tree : Tree) : Machine → Prop
  | installed {trace : Bool} {made machine : Machine} {root : Pointer} :
      Evaluator.machine ⟨capacity, trace⟩ = .ok made → made.installProgram tree = .ok (root, machine) →
      Used capacity tree machine
  | assigned {machine machine' : Machine} {register : String} {value : Contents} :
      Used capacity tree machine → machine.setContents register value = .ok machine' →
      Used capacity tree machine'
  | started {machine : Machine} (fuel : Nat) :
      Used capacity tree machine → Used capacity tree (machine.start fuel).2

variable {made machine left right : Machine} {capacity : Nat} {tree : Tree}

/-- How an evaluator with a program in it is built. -/
def build (made : Machine) (capacity : Nat) (tree : Tree) : Machine.Build where
  program := (ProgramHeap.install {} tree).2
  operations := table
  names := registers
  capacity := capacity
  code := made.code

section

variable (isMade : Machine.make registers OperationTable.evaluator controller = .ok made)
include isMade

theorem loaded_builtAs (settings : Settings) (tree : Tree) :
    (loaded (made.configure settings) tree).BuiltAs (build made settings.heapCapacity tree) := by
  have fresh := fresh_of_make isMade
  refine ⟨⟨?_, fresh.operations, ?_⟩, ⟨rfl, ?_, ?_⟩, rfl⟩
  · change (made.memory.program.install tree).2 = _
    rw [fresh.program]
    rfl
  · change made.memory.registers.toList.map Register.name = registers
    rw [fresh.registers]
    rfl
  · exact Array.size_replicate
  · exact Array.size_replicate

/-- However an evaluator has been used, it is built as a new one with the same
program and capacity. -/
theorem Used.builtAs (used : Used capacity tree machine) : machine.BuiltAs (build made capacity tree) := by
  induction used with
  | @installed trace _ machine root made' installed =>
    rw [machine_eq isMade] at made'
    cases made'
    have vacant : (made.configure ⟨capacity, trace⟩).memory.program.root = none := by
      change made.memory.program.root = none
      rw [make_program isMade]
    rw [installProgram_eq_loaded vacant] at installed
    cases installed
    exact loaded_builtAs isMade ⟨capacity, trace⟩ tree
  | assigned _ assigned ih =>
    obtain ⟨index, _, same⟩ := Read.bind_eq_ok_iff.mp assigned
    cases same
    exact ⟨ih.memory.setContents index _, ih.heap, ih.code⟩
  | started fuel _ ih => exact ih.start fuel

/-- A new evaluator reads no register before it has written it: its registers
hold nothing, and reading one that holds nothing would be an error that no
evaluation ends with. -/
theorem loaded_never_lost (settings : Settings) (fuel : Nat) {cause : Error}
    (failed : ((loaded (made.configure settings) tree).start fuel).1 = .failed cause) : ¬ cause.Unread := by
  intro unread
  have roomy : ¬ cause.Exhausts := by
    cases cause with
    | machine cause => exact id
    | _ => exact unread.elim
  have evaluated : evaluate fuel settings tree = .failed cause := by
    simp only [evaluate, machine_eq isMade, run_eq_start isMade]
    generalize (loaded (made.configure settings) tree).start fuel = ended at failed
    obtain ⟨outcome, machine⟩ := ended
    cases failed
    rfl
  obtain ⟨m, store, locate, _, shown⟩ := exists_mistake_of_failed evaluated roomy
  cases shown <;> exact unread

/-- With room enough an evaluation that comes to an end has a value. -/
theorem exists_value (tree : Tree) (fuel : Nat) :
    ∃ bound, ∀ (settings : Settings) (machine : Machine), bound ≤ settings.heapCapacity →
      (started (made.configure settings) tree).runFuel fuel = (.done (), machine) →
        ∃ p, machine.memory.contents Listing.val = .pointer p := by
  obtain ⟨layout, program, leads⟩ := exists_leads tree
  have stands (settings : Settings) : Stands layout.program ⟨fun _ => .unassigned, [], [], false⟩ 0
      (started (made.configure settings) tree) := program ▸ (fresh_of_make isMade).stands settings tree _
  have leads := leads fuel
  generalize Interpreter.run fuel tree = result at leads
  cases leads with
  | @ok value store steps c position course gained =>
    obtain ⟨bound, runs⟩ := course.reaches
    obtain ⟨_, _, held⟩ := gained
    refine ⟨bound, fun settings machine room done => ?_⟩
    obtain ⟨machine', stands', _, same⟩ := runs _ (stands settings) room
    obtain ⟨event, ended⟩ := stands'.done_eq
    have unique := Machine.runFuel_unique (by rw [done]; simp) (by rw [same 1, ended]; simp)
    rw [done, same 1, ended] at unique
    cases unique
    exact ⟨_, (stands'.registers Listing.val).trans held⟩
  | @mistake m store steps c position course fails =>
    obtain ⟨bound, runs⟩ := course.reaches.fails fails
    refine ⟨bound, fun settings machine room done => ?_⟩
    obtain ⟨cause, machine', _, same⟩ := runs _ (stands settings) room
    have unique := Machine.runFuel_unique (by rw [done]; simp) (by rw [same 0]; simp)
    rw [done, same 0] at unique
    cases unique
  | @unfinished store steps c position course enough =>
    obtain ⟨bound, runs⟩ := course.reaches
    refine ⟨bound, fun settings machine room done => ?_⟩
    obtain ⟨machine', _, _, same⟩ := runs _ (stands settings) room
    have longer := Machine.runFuel_add (by rw [done]; simp) (steps - fuel)
    rw [Nat.add_sub_cancel' enough, done, ← Nat.zero_add steps, same 0] at longer
    cases longer

/-- An evaluation that comes to an end has a value, whatever the capacity. -/
theorem loaded_leaves_value {settings : Settings} {fuel : Nat}
    (done : (loaded (made.configure settings) tree).start fuel = (.done (), machine)) :
    ∃ p, machine.memory.contents Listing.val = .pointer p := by
  obtain ⟨bound, valued⟩ := exists_value isMade tree fuel
  let wide : Settings := ⟨max settings.heapCapacity bound, settings.trace⟩
  have wider : settings.heapCapacity ≤ wide.heapCapacity := le_max_left _ _
  have ends := start_ends isMade wider fuel tree
  rw [done] at ends
  generalize ended : (loaded (made.configure wide) tree).start fuel = result at ends
  cases ends with
  | @done ρ _ right twin =>
    obtain ⟨q, held⟩ := valued wide right (le_max_right _ _) ended
    have matched := twin.memory.contents Listing.val
    rw [held] at matched
    generalize machine.memory.contents Listing.val = c at matched
    cases matched with
    | pointer inner => exact ⟨_, rfl⟩

/-- A used evaluator goes the same way as a new one. -/
theorem Used.start_same (used : Used capacity tree machine) (fuel : Nat) :
    ((loaded (made.configure ⟨capacity, false⟩) tree).start fuel).1 = (machine.start fuel).1 ∧
      Machine.Resembles True (build made capacity tree)
        ((loaded (made.configure ⟨capacity, false⟩) tree).start fuel).2 (machine.start fuel).2 := by
  have built := used.builtAs isMade
  have vacant : List.Forall₂ (Register.Resembles True)
      (loaded (made.configure ⟨capacity, false⟩) tree).prepare.memory.registers.toList
      machine.prepare.memory.registers.toList := by
    have held : (loaded (made.configure ⟨capacity, false⟩) tree).prepare.memory.registers.toList
        = registers.map fun name => ⟨name, .unassigned⟩ := by
      change (made.memory.registers.map Machine.forgetPair).toList = _
      rw [Array.toList_map, (fresh_of_make isMade).registers]
      rfl
    have names : machine.prepare.memory.registers.toList.map Register.name = registers :=
      built.prepare_equipped.names
    rw [held, ← names, List.map_map, List.forall₂_map_left_iff]
    refine List.forall₂_same.mpr fun register member => ⟨rfl, .vacant trivial ?_⟩
    simp only [Machine.prepare, Array.toList_map, List.mem_map] at member
    obtain ⟨before, _, rfl⟩ := member
    exact Machine.forgetPair_below before
  rcases (loaded_builtAs isMade ⟨capacity, false⟩ tree).start_same built vacant fuel with
    same | ⟨cause, failed, _, unread⟩
  · exact same
  · exact absurd unread (loaded_never_lost isMade _ fuel failed)

end

/-- Two runs have the same outcome: the same value and the same counters, or
the same error. -/
structure SameOutcome (one other : Outcome Unit × Machine) : Prop where
  outcome : one.1 = other.1
  statistics : one.2.statistics = other.2.statistics
  value : one.1 = .done () →
    ∃ p, one.2.contents "val" = .ok (.pointer p) ∧ other.2.contents "val" = .ok (.pointer p)

/-- Registers are found where they are listed. -/
theorem registerIndex_eq (names : machine.memory.registers.toList.map Register.name = registers) (name : String) :
    machine.memory.registerIndex? name = registers.findIdx? fun listed => listed = name := by
  rw [machine.registerIndex?_eq, Machine.registerNames, names]
  rfl

/-- Two evaluators that were used differently go the same way as one that is
new, and so the same way as each other. -/
theorem Used.sameOutcome (usedLeft : Used capacity tree left) (usedRight : Used capacity tree right) (fuel : Nat) :
    SameOutcome (left.start fuel) (right.start fuel) := by
  obtain ⟨made, isMade⟩ := make_ok
  obtain ⟨outcomeLeft, resemblesLeft⟩ := usedLeft.start_same isMade fuel
  obtain ⟨outcomeRight, resemblesRight⟩ := usedRight.start_same isMade fuel
  refine ⟨outcomeLeft.symm.trans outcomeRight, resemblesLeft.statistics.symm.trans resemblesRight.statistics, ?_⟩
  intro done
  obtain ⟨p, held⟩ := loaded_leaves_value isMade (Prod.ext (outcomeLeft.trans done) rfl)
  have value {machine : Machine} (resembles : Machine.Resembles True (build made capacity tree)
      ((loaded (made.configure ⟨capacity, false⟩) tree).start fuel).2 machine) :
      machine.contents "val" = .ok (.pointer p) := by
    have same := resembles.memory.contents Listing.val
    have index : machine.memory.registerIndex? "val" = some Listing.val :=
      registerIndex_eq resembles.memory.equippedRight.names "val"
    simp only [Machine.contents, Machine.registerIndex, index]
    rw [held] at same
    generalize isHeld : machine.memory.contents Listing.val = c at same
    cases same
    exact congrArg Except.ok isHeld
  exact ⟨p, value resemblesLeft, value resemblesRight⟩

/-- The evaluator does not depend on what its registers held before, nor on
anything else that is left of earlier runs: with the same program and capacity
its runs have the same outcome. In particular a run that is started again
repeats its outcome, whether it came to an end or was cut off. -/
theorem start_forgets (usedLeft : Used capacity tree left) (usedRight : Used capacity tree right) (fuel : Nat) :
    SameOutcome (left.start fuel) (right.start fuel) ∧
      ∀ earlier, SameOutcome ((left.start earlier).2.start fuel) (left.start fuel) :=
  ⟨usedLeft.sameOutcome usedRight fuel, fun earlier => (usedLeft.started earlier).sameOutcome usedLeft fuel⟩

/-- An evaluator whose registers held a label and a pair that never was, and
which has run for a while, beside a new one. -/
theorem start_null_forgets :
    ∃ new set worn, Used 61 (.atom .null) new ∧ new.setContents "argl" (.pointer (.pair 7)) = .ok set ∧
      set.setContents "env" (.label 5) = .ok worn ∧ Used 61 (.atom .null) (worn.start 9).2 ∧
      ∀ fuel, SameOutcome (new.start fuel) ((worn.start 9).2.start fuel) := by
  obtain ⟨made, isMade⟩ := make_ok
  have vacant : (made.configure ⟨61, false⟩).memory.program.root = none := by
    change made.memory.program.root = none
    rw [make_program isMade]
  have new : Used 61 (.atom .null) (loaded (made.configure ⟨61, false⟩) (.atom .null)) :=
    .installed (machine_eq isMade _) (installProgram_eq_loaded vacant _)
  have assign {machine : Machine} (used : Used 61 (.atom .null) machine) (index : Nat) (name : String)
      (found : (registers.findIdx? fun listed => listed = name) = some index) (value : Contents) :
      ∃ machine', machine.setContents name value = .ok machine' := by
    have listed := (registerIndex_eq (used.builtAs isMade).memory.names name).trans found
    simp only [Machine.setContents, Machine.registerIndex, listed]
    exact ⟨_, rfl⟩
  obtain ⟨set, isSet⟩ := assign new Listing.argl "argl" rfl (.pointer (.pair 7))
  obtain ⟨worn, isWorn⟩ := assign (.assigned new isSet) Listing.env "env" rfl (.label 5)
  have used : Used 61 (.atom .null) (worn.start 9).2 := .started 9 (.assigned (.assigned new isSet) isWorn)
  exact ⟨_, set, worn, new, isSet, isWorn, used, fun fuel => (start_forgets new used fuel).1⟩

end ExplicitControl.Evaluator
