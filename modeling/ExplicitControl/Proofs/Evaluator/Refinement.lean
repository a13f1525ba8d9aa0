import ExplicitControl.Proofs.Evaluator.Entrance
import ExplicitControl.Proofs.Evaluator.Moving
import ExplicitControl.Proofs.Interpreter.Depth

namespace ExplicitControl

namespace Evaluator

open Interpreter

/-- The evaluator as it is made, before settings and a program. -/
structure Fresh (machine : Machine) : Prop where
  code : machine.code.toList.map BoundInstruction.code = listing
  registers : machine.memory.registers.toList = registers.map fun name => ⟨name, .unassigned⟩
  program : machine.memory.program = {}
  operations : machine.memory.operations = table

theorem fresh_of_make {machine : Machine}
    (made : Machine.make registers OperationTable.evaluator controller = .ok machine) : Fresh machine := by
  obtain rfl := Except.ok.inj (make_eq_pristine.symm.trans made)
  exact ⟨boundListing_code, rfl, rfl, rfl⟩

variable {made : Machine}

/-- Where every run starts: at the first instruction, with nothing in the
registers, on the stack and on the heap. -/
theorem Fresh.stands (fresh : Fresh made) (settings : Settings) (tree : Tree) (event : Event) :
    Stands (ProgramHeap.install {} tree).2 ⟨fun _ => .unassigned, [], [], false⟩ 0
      ((loaded (made.configure settings) tree).prepare.record event) := by
  have held : (made.memory.registers.map Machine.forgetPair).toList
      = Evaluator.registers.map fun name => ⟨name, .unassigned⟩ := by
    rw [Array.toList_map, fresh.registers]
    rfl
  refine ⟨fresh.code, rfl, rfl, ?_, fun index => ?_, rfl, ?_, ?_, fresh.operations⟩
  · change (made.memory.registers.map Machine.forgetPair).toList.map Register.name = Evaluator.registers
    rw [held]
    rfl
  · have kept : ((loaded (made.configure settings) tree).prepare.record event).memory.registers
        = made.memory.registers.map Machine.forgetPair := rfl
    unfold Memory.contents
    rw [kept, ← Array.getElem?_toList, held, List.getElem?_map]
    cases Evaluator.registers[index]? <;> rfl
  · refine ⟨⟨?_, ?_, Nat.zero_le _⟩, rfl, rfl, fun _ _ _ found => by cases found⟩
    · exact Array.size_replicate
    · exact Array.size_replicate
  · change (made.memory.program.install tree).2 = _
    rw [fresh.program]

/-- A run of the machine ends as the interpreter says: with a value that is
depicted by the pairs there are at the end, as is everything in the store, or
with an error in which the mistake shows. -/
inductive Agrees (layout : Layout) : EStateM.Result Halt Store Value → Outcome Pointer × Machine → Prop
  | value {π : Picture} {value : Value} {store : Store} {p : Pointer} {machine : Machine} :
      π.Fits layout store machine.memory.heap.Holds → π.Depicts layout value p →
      Agrees layout (.ok value store) (.done p, machine)
  | mistake {m : Mistake} {store : Store} {cause : Error} {machine : Machine} :
      m.Shows layout.locate cause →
      Agrees layout (.error (.mistake m) store) (.failed cause, machine)

variable {layout : Layout} {result : EStateM.Result Halt Store Value}

theorem Agrees.of_sameAnswer {left right : Outcome Pointer × Machine} (agrees : Agrees layout result right)
    (same : SameAnswer left right) : Agrees layout result left := by
  cases same with
  | value matched pointer =>
    cases agrees with
    | value fits depicts => exact .value (fits.moved matched) (depicts.moved matched fits pointer)
  | error alike =>
    cases agrees with
    | mistake shown => exact .mistake (shown.of_alike alike)

theorem Stands.result_eq {program : ProgramHeap} {c : Config} {position : Nat} {machine : Machine}
    {p : Pointer} (stands : Stands program c position machine) (held : c.registers Listing.val = .pointer p) :
    Evaluator.result machine = .ok p := by
  have index : machine.memory.registerIndex? "val" = some Listing.val := by
    rw [machine.registerIndex?_eq, stands.names]
    rfl
  simp only [Evaluator.result, Machine.contents, Machine.registerIndex, index, stands.registers, held, bind,
    Except.bind, pure, Except.pure]

set_option maxRecDepth 4000 in
theorem listing_length : listing.length = Label.done.position := rfl

theorem Stands.done_eq {program : ProgramHeap} {c : Config} {machine : Machine}
    (stands : Stands program c Label.done.position machine) :
    ∃ event, machine.runFuel 1 = (.done (), machine.record event) := by
  have ended : machine.current? = none := by
    have size := congrArg List.length stands.code
    rw [List.length_map, Array.length_toList, listing_length] at size
    rw [Machine.current?, stands.position, Array.getElem?_eq_none_iff]
    exact size.le
  simp only [Machine.runFuel, ended]
  exact ⟨_, rfl⟩

/-- How a machine with a program starts. -/
def started (machine : Machine) (tree : Tree) : Machine :=
  let prepared := (loaded machine tree).prepare
  prepared.record (.started prepared.code.size prepared.memory.registers.size prepared.memory.heap.capacity)

/-- With room enough a run ends as the interpreter says, or takes at least as
many steps as the interpreter was let go deep. -/
theorem Fresh.exists_run (fresh : Fresh made) {tree : Tree} {n : Nat}
    (program : (ProgramHeap.install {} tree).2 = layout.program)
    (leads : LeadsFrom layout n 0 ⟨fun _ => .unassigned, [], [], false⟩
      (Gained (World.blank layout) [] Label.done.position) result) :
    ∃ steps bound, ∀ settings : Settings, bound ≤ settings.heapCapacity →
      Agrees layout result (answer ((started (made.configure settings) tree).runFuel steps)) ∨
        (∃ store, result = .error .unfinished store) ∧ n ≤ steps ∧
          ((started (made.configure settings) tree).runFuel steps).1 = .unfinished := by
  have stands (settings : Settings) : Stands layout.program ⟨fun _ => .unassigned, [], [], false⟩ 0
      (started (made.configure settings) tree) := program ▸ fresh.stands settings tree _
  cases leads with
  | @ok value store steps c position course gained =>
    obtain ⟨bound, runs⟩ := course.reaches
    obtain ⟨grows, depicts, held⟩ := gained
    refine ⟨1 + steps, bound, fun settings room => .inl ?_⟩
    obtain ⟨machine, stands', _, same⟩ := runs _ (stands settings) room
    obtain ⟨event, done⟩ := stands'.done_eq
    rw [same, done]
    simp only [answer, (stands'.record event).result_eq held]
    exact .value ((World.fits _).imp stands'.memory.heap.holds) depicts
  | @mistake m store steps c position course fails =>
    obtain ⟨bound, runs⟩ := course.reaches.fails fails
    refine ⟨0 + (1 + steps), bound, fun settings room => .inl ?_⟩
    obtain ⟨cause, machine, shown, same⟩ := runs _ (stands settings) room
    rw [same]
    exact .mistake shown
  | @unfinished store steps c position course enough =>
    obtain ⟨bound, runs⟩ := course.reaches
    refine ⟨0 + steps, bound, fun settings room => .inr ⟨⟨store, rfl⟩, by omega, ?_⟩⟩
    obtain ⟨machine, _, _, same⟩ := runs _ (stands settings) room
    rw [same]
    rfl

theorem Agrees.ended {ended : Outcome Unit × Machine} (agrees : Agrees layout result (answer ended)) :
    ended.1 ≠ .unfinished := by
  obtain ⟨outcome, machine⟩ := ended
  rintro rfl
  cases agrees

theorem Agrees.finished {ended : Outcome Pointer × Machine} (agrees : Agrees layout result ended)
    (store : Store) : result ≠ .error .unfinished store := by
  rintro rfl
  cases agrees

theorem ended_of_settled {ended : Outcome Unit × Machine} (settled : (answer ended).1.Settled) :
    ended.1 ≠ .unfinished := by
  obtain ⟨outcome, machine⟩ := ended
  rintro rfl
  exact settled

theorem unfinished_right {left right : Outcome Unit × Machine} (ends : Machine.Ends left right)
    (unfinished : left.1 = .unfinished) : right.1 = .unfinished := by
  cases ends with
  | unfinished twin => rfl
  | done twin => cases unfinished
  | failed alike safe tallies => cases unfinished
  | exhausted exhausts => cases unfinished

/-- A run that has ended without being settled wanted for room. -/
theorem exhausted_of_not_settled {ended : Outcome Unit × Machine} (isEnded : ended.1 ≠ .unfinished)
    (unsettled : ¬ (answer ended).1.Settled) :
    ∃ cause, (answer ended).1 = .failed cause ∧ cause.Exhausts := by
  have isEnded' : (answer ended).1 ≠ .unfinished := by
    obtain ⟨outcome, machine⟩ := ended
    cases outcome with
    | unfinished => exact absurd rfl isEnded
    | failed cause => simp [answer]
    | done value =>
      simp only [answer]
      cases Evaluator.result machine <;> simp
  generalize (answer ended).1 = outcome at unsettled isEnded'
  cases outcome with
  | done value => exact absurd trivial unsettled
  | failed cause => exact ⟨cause, rfl, not_not.mp unsettled⟩
  | unfinished => exact absurd rfl isEnded'

section

variable {tree : Tree} (isMade : Machine.make registers OperationTable.evaluator controller = .ok made)
  (program : (ProgramHeap.install {} tree).2 = layout.program)
include isMade program

/-- A run with room enough ends as the interpreter says, and one with less
room ends the same way or for want of it. -/
theorem agrees_or_exhausts {n : Nat} (finished : ∀ store, result ≠ .error .unfinished store)
    (leads : LeadsFrom layout n 0 ⟨fun _ => .unassigned, [], [], false⟩
      (Gained (World.blank layout) [] Label.done.position) result) :
    ∃ steps bound, ∀ settings : Settings,
      Agrees layout result (run steps (made.configure settings) tree) ∨
        settings.heapCapacity < bound ∧
          ∃ cause, (run steps (made.configure settings) tree).1 = .failed cause ∧ cause.Exhausts := by
  obtain ⟨steps, bound, runs⟩ := (fresh_of_make isMade).exists_run program leads
  refine ⟨steps, bound, fun settings => ?_⟩
  have agrees (settings : Settings) (room : bound ≤ settings.heapCapacity) :
      Agrees layout result (run steps (made.configure settings) tree) := by
    rw [run_eq_start isMade]
    exact (runs settings room).resolve_right fun ⟨⟨store, unfinished⟩, _⟩ => finished store unfinished
  by_cases room : bound ≤ settings.heapCapacity
  · exact .inl (agrees settings room)
  · let wide : Settings := ⟨max settings.heapCapacity bound, settings.trace⟩
    have wider : settings.heapCapacity ≤ wide.heapCapacity := le_max_left _ _
    have ends := start_ends isMade wider steps tree
    have agreesWide := agrees wide (le_max_right _ _)
    rw [run_eq_start isMade] at agreesWide ⊢
    by_cases settled : (answer ((loaded (made.configure settings) tree).start steps)).1.Settled
    · obtain ⟨_, _, same⟩ := answer_ends ends settled
      exact .inl (agreesWide.of_sameAnswer same)
    · refine .inr ⟨Nat.not_le.mp room, exhausted_of_not_settled ?_ settled⟩
      exact fun unfinished => agreesWide.ended (unfinished_right ends unfinished)

/-- A run that is settled ends as the interpreter says that is let go as deep
as the run has steps. -/
theorem agrees_of_settled {steps : Nat} {settings : Settings}
    (settled : (run steps (made.configure settings) tree).1.Settled)
    (leads : LeadsFrom layout steps 0 ⟨fun _ => .unassigned, [], [], false⟩
      (Gained (World.blank layout) [] Label.done.position) result) :
    Agrees layout result (run steps (made.configure settings) tree) := by
  obtain ⟨steps', bound, runs⟩ := (fresh_of_make isMade).exists_run program leads
  let wide : Settings := ⟨max settings.heapCapacity bound, settings.trace⟩
  have wider : settings.heapCapacity ≤ wide.heapCapacity := le_max_left _ _
  have ends := start_ends isMade wider steps tree
  rw [run_eq_start isMade] at settled ⊢
  obtain ⟨settledWide, _, same⟩ := answer_ends ends settled
  refine Agrees.of_sameAnswer ?_ same
  have ended : ((started (made.configure wide) tree).runFuel steps).1 ≠ .unfinished :=
    ended_of_settled settledWide
  rcases runs wide (le_max_right _ _) with agrees | ⟨_, enough, unfinished⟩
  · rw [Machine.runFuel_unique agrees.ended ended] at agrees
    exact agrees
  · rw [← Nat.add_sub_cancel' enough, Machine.runFuel_add ended] at unfinished
    exact absurd unfinished ended

end

/-- A program is laid out in such a way that the evaluator goes along with the
interpreter. -/
theorem exists_leads (tree : Tree) :
    ∃ layout : Layout, (ProgramHeap.install {} tree).2 = layout.program ∧
      ∀ fuel, LeadsFrom layout fuel 0 ⟨fun _ => .unassigned, [], [], false⟩
        (Gained (World.blank layout) [] Label.done.position) (Interpreter.run fuel tree) := by
  obtain ⟨locate, injective, placed, point⟩ := Node.exists_locate {} tree
  refine ⟨⟨(ProgramHeap.install {} tree).2, locate, injective⟩, rfl, fun fuel => ?_⟩
  exact program_leads (eval_simulates _ fuel) placed (congrArg some point.symm) _
    (Label.follows_next .entrance .evalDispatch rfl)

/-- Every run of the evaluator ends as the interpreter says, or for want of
room. Where the interpreter comes to an end there are a number of steps and a
capacity that are enough; and where a run has ended, not for want of room, the
interpreter comes to the same end, however much deeper it is let go. -/
theorem refines_interpreter (tree : Tree) :
    ∃ (made : Machine) (layout : Layout), (∀ settings, machine settings = .ok (made.configure settings)) ∧
      (mark [] tree).At layout.program layout.locate (made.memory.program.install tree).1 ∧
      layout.program = (made.memory.program.install tree).2 ∧
      (∀ fuel, (∀ store, Interpreter.run fuel tree ≠ .error .unfinished store) →
        ∃ steps bound, ∀ settings : Settings,
          Agrees layout (Interpreter.run fuel tree) (run steps (made.configure settings) tree) ∨
            settings.heapCapacity < bound ∧
              ∃ cause, (run steps (made.configure settings) tree).1 = .failed cause ∧ cause.Exhausts) ∧
      ∀ (settings : Settings) steps, (run steps (made.configure settings) tree).1.Settled →
        Agrees layout (Interpreter.run steps tree) (run steps (made.configure settings) tree) ∧
          ∀ fuel, steps ≤ fuel → Interpreter.run fuel tree = Interpreter.run steps tree := by
  obtain ⟨made, isMade⟩ := make_ok
  have vacant := make_program isMade
  obtain ⟨locate, injective, placed, point⟩ := Node.exists_locate {} tree
  let layout : Layout := ⟨(ProgramHeap.install {} tree).2, locate, injective⟩
  have leads (fuel : Nat) : LeadsFrom layout fuel 0 ⟨fun _ => .unassigned, [], [], false⟩
      (Gained (World.blank layout) [] Label.done.position) (Interpreter.run fuel tree) :=
    program_leads (eval_simulates layout fuel) placed (congrArg some point.symm) _
      (Label.follows_next .entrance .evalDispatch rfl)
  refine ⟨made, layout, machine_eq isMade, ?_, ?_, ?_, ?_⟩
  · rw [vacant]
    exact ⟨point.symm, placed⟩
  · rw [vacant]
  · exact fun fuel finished => agrees_or_exhausts isMade rfl finished (leads fuel)
  · intro settings steps settled
    have agrees := agrees_of_settled isMade rfl settled (leads steps)
    exact ⟨agrees, fun fuel deeper => run_eq_of_le deeper agrees.finished⟩

end Evaluator

end ExplicitControl
