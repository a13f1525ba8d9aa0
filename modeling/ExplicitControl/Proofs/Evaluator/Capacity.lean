import ExplicitControl.Evaluator.Basic
import ExplicitControl.Proofs.Evaluator.Listing
import ExplicitControl.Proofs.Machine.Ready
import ExplicitControl.Tree.Build

namespace ExplicitControl

/-- The run has ended, and not for want of room. -/
def Outcome.Settled {α : Type} : Outcome α → Prop
  | .done _ => True
  | .failed cause => ¬ cause.Exhausts
  | .unfinished => False

namespace Machine

theorem Twin.result_tied {ρ : Nat → Nat → Prop} {left right : Machine} (twin : Twin ρ left right) :
    Read.Tied (Pointer.Matches ρ) (Evaluator.result left) (Evaluator.result right) := by
  have index : left.memory.registerIndex? "val" = right.memory.registerIndex? "val" := by
    have row := twin.memory.matched.registers
    simp only [Memory.registerIndex?]
    generalize left.memory.registers = xs at row
    generalize right.memory.registers = ys at row
    obtain ⟨xs⟩ := xs
    obtain ⟨ys⟩ := ys
    simp only [List.findIdx?_toArray]
    dsimp only at row
    induction row with
    | nil => rfl
    | cons first _ ih => simp only [List.findIdx?_cons, first.name, ih]
  simp only [Evaluator.result, Machine.contents, Machine.registerIndex, index]
  cases right.memory.registerIndex? "val" with
  | none => exact .error (.refl _) id
  | some position =>
    have held := twin.memory.contents position
    simp only [bind, Except.bind, pure, Except.pure]
    generalize left.memory.contents position = c at held
    generalize right.memory.contents position = d at held
    cases held with
    | unassigned => exact .ok (.scalar _)
    | label position => exact .ok (.scalar _)
    | pointer inner => exact .ok inner

end Machine

namespace Evaluator

/-- Runs that leave the same: values that are identical or have isomorphic
structures, or errors that differ at most in the addresses of pairs. -/
inductive SameAnswer : Outcome Pointer × Machine → Outcome Pointer × Machine → Prop
  | value {ρ : Nat → Nat → Prop} {p q : Pointer} {left right : Machine} :
      left.memory.heap.Matches ρ right.memory.heap → p.Matches ρ q →
      SameAnswer (.done p, left) (.done q, right)
  | error {e e' : Error} {left right : Machine} : e.Alike e' →
      SameAnswer (.failed e, left) (.failed e', right)

/-- The machine of the evaluator as it is made, before settings and a program. -/
def pristine : Machine where
  memory :=
    { heap := PairHeap.empty PairHeap.defaultCapacity
      program := {}
      registers := (registers.map fun name => ⟨name, .unassigned⟩).toArray
      stack := {}
      operations := table
      journal := #[.assembled boundListing.toArray.size 54] }
  code := boundListing.toArray
  position := 0
  flag := false
  trace := false
  executed := 0

/-- Making the machine of the evaluator always gives the same, with the
assembled listing for its controller. So the evaluator never fails to be made. -/
theorem make_eq_pristine : Machine.make registers OperationTable.evaluator controller = .ok pristine := by
  have allocated : Machine.empty.allocateRegisters registers =
      .ok { Machine.empty with
        memory := { Machine.empty.memory with registers := pristine.memory.registers } } := by
    with_unfolding_all rfl
  have installed (machine : Machine) (names : machine.registerNames = registers)
      (operations : machine.memory.operations = table) :
      machine.installController controller =
        .ok (Machine.record { machine with code := boundListing.toArray }
          (.assembled boundListing.toArray.size 54)) := by
    rw [Machine.installController, names, operations, assemble_eq_listing]
    rfl
  exact Read.bind_eq_ok_iff.mpr ⟨_, allocated, installed _ rfl rfl⟩

theorem make_ok : ∃ machine, Machine.make registers OperationTable.evaluator controller = .ok machine :=
  ⟨pristine, make_eq_pristine⟩

theorem make_program {machine : Machine} {names : List String} {controller : Controller}
    (made : Machine.make names OperationTable.evaluator controller = .ok machine) :
    machine.memory.program = {} := by
  obtain ⟨_, _, _, _, _, program, _⟩ := Machine.make_cases made
  exact program

/-- What a run leaves, given how the machine with the program in it ends. -/
def answer : Outcome Unit × Machine → Outcome Pointer × Machine
  | (.unfinished, machine) => (.unfinished, machine)
  | (.failed cause, machine) => (.failed cause, machine)
  | (.done (), machine) =>
    match result machine with
    | .ok value => (.done value, machine)
    | .error cause => (.failed cause, machine)

/-- The machine with a program laid out in it. -/
def loaded (machine : Machine) (tree : Tree) : Machine :=
  let program := (machine.memory.program.install tree).2
  Machine.record { machine with memory := { machine.memory with program } } (.installed program.size)

theorem installProgram_eq_loaded {machine : Machine} (vacant : machine.memory.program.root = none)
    (tree : Tree) :
    machine.installProgram tree = .ok ((machine.memory.program.install tree).1, loaded machine tree) := by
  simp only [Machine.installProgram, vacant, loaded]
  rfl

theorem run_eq_answer {machine : Machine} (vacant : machine.memory.program.root = none) (fuel : Nat)
    (tree : Tree) : run fuel machine tree = answer ((loaded machine tree).start fuel) := by
  simp only [run, installProgram_eq_loaded vacant]
  rcases (loaded machine tree).start fuel with ⟨_ | cause | _, machine'⟩
  · cases found : result machine' with
    | ok value => simp only [answer, found]
    | error cause => simp only [answer, found]
  · rfl
  · rfl

/-- Machines that end together leave the same answer: what stands for the
value of one stands for that of the other. -/
theorem answer_ends {left right : Outcome Unit × Machine} (ends : Machine.Ends left right)
    (settled : (answer left).1.Settled) :
    (answer right).1.Settled ∧ (answer left).2.Tallies (answer right).2 ∧
      SameAnswer (answer left) (answer right) := by
  cases ends with
  | unfinished twin => exact settled.elim
  | exhausted exhausts => exact absurd exhausts settled
  | failed alike safe tallies =>
    exact ⟨fun exhausts => settled (alike.exhausts exhausts), tallies, .error alike⟩
  | @done ρ left right twin =>
    have tied := twin.result_tied
    simp only [answer] at settled ⊢
    generalize result left = x at tied settled
    generalize result right = y at tied
    cases tied with
    | ok matched => exact ⟨trivial, twin.tallies, .value twin.memory.matched.heap matched⟩
    | error alike safe =>
      exact ⟨fun exhausts => settled (alike.exhausts exhausts), twin.tallies, .error alike⟩

section

variable {made : Machine} (isMade : Machine.make registers OperationTable.evaluator controller = .ok made)
include isMade

theorem machine_eq (settings : Settings) : machine settings = .ok (made.configure settings) := by
  simp only [machine, isMade]
  rfl

omit isMade in
theorem machine_pristine (settings : Settings) : machine settings = .ok (pristine.configure settings) :=
  machine_eq make_eq_pristine settings

theorem run_eq_start (settings : Settings) (fuel : Nat) (tree : Tree) :
    run fuel (made.configure settings) tree
      = answer ((loaded (made.configure settings) tree).start fuel) := by
  refine run_eq_answer ?_ fuel tree
  change made.memory.program.root = none
  rw [make_program isMade]

/-- A machine with a program laid out in it has what a run relies on. -/
theorem loaded_ready (settings : Settings) (tree : Tree) : (loaded (made.configure settings) tree).Ready := by
  have vacant : (made.configure settings).memory.program.root = none := by
    change made.memory.program.root = none
    rw [make_program isMade]
  exact (Machine.Configured.installed (.settings settings (.made isMade))
    (installProgram_eq_loaded vacant tree)).ready

/-- Runs of one program in heaps of different capacities end alike, unless the
one with less room has too little of it. -/
theorem start_ends {settings settings' : Settings} (le : settings.heapCapacity ≤ settings'.heapCapacity)
    (fuel : Nat) (tree : Tree) :
    Machine.Ends ((loaded (made.configure settings) tree).start fuel)
      ((loaded (made.configure settings') tree).start fuel) :=
  (loaded_ready isMade settings tree).start_ends fuel (loaded_ready isMade settings' tree) rfl rfl rfl rfl le

end

/-- With more room an evaluation that did not want for room goes the same way:
it ends after as many instructions, pushes and allocations, with the same
answer. Collections may be made at other times and leave pairs elsewhere, and
nothing of that shows. -/
theorem capacity_unobservable (fuel : Nat) (tree : Tree) (trace trace' : Bool) {small large : Nat}
    (le : small ≤ large) :
    ∃ left right, machine ⟨small, trace⟩ = .ok left ∧ machine ⟨large, trace'⟩ = .ok right ∧
      ((run fuel left tree).1.Settled →
        (run fuel right tree).1.Settled ∧ (run fuel left tree).2.Tallies (run fuel right tree).2 ∧
          SameAnswer (run fuel left tree) (run fuel right tree)) := by
  obtain ⟨made, isMade⟩ := make_ok
  refine ⟨_, _, machine_eq isMade _, machine_eq isMade _, ?_⟩
  rw [run_eq_start isMade, run_eq_start isMade]
  exact answer_ends (start_ends isMade le fuel tree)

/-- Whether a run has ended with a pair at an address, after so many
collections. -/
def gives (address collections : Nat) : Outcome Pointer × Machine → Bool
  | (.done (.pair a), machine) => a == address && machine.memory.heap.statistics.collections == collections
  | _ => false

theorem exists_of_gives {address collections : Nat} {result : Outcome Pointer × Machine}
    (given : gives address collections result) : ∃ final, result = (.done (.pair address), final) ∧
      final.memory.heap.statistics.collections = collections := by
  unfold gives at given
  split at given
  · obtain ⟨isAddress, counted⟩ := Bool.and_eq_true_iff.mp given
    obtain rfl := beq_iff_eq.mp isAddress
    exact ⟨_, rfl, beq_iff_eq.mp counted⟩
  · exact absurd given Bool.false_ne_true

/-- A function that nothing keeps, and another one that is returned. -/
def returningFunction : Tree :=
  .sequence [.functionDefinition ["x"] (.name "x"), .returnStatement (.functionDefinition ["x"] (.name "x"))]

/-- In the smaller heap there is a collection, which takes the first function
away and moves the second one, the answer. In the larger one there is none, and
the answer is the same but for where it lies. -/
theorem capacity_unobservable_returningFunction :
    ∃ left right leftFinal rightFinal, machine ⟨69, false⟩ = .ok left ∧ machine ⟨100, false⟩ = .ok right ∧
      run 117 left returningFunction = (.done (.pair 1), leftFinal) ∧
      leftFinal.memory.heap.statistics.collections = 1 ∧
      run 117 right returningFunction = (.done (.pair 68), rightFinal) ∧
      rightFinal.memory.heap.statistics.collections = 0 ∧ leftFinal.Tallies rightFinal ∧
      SameAnswer (.done (.pair 1), leftFinal) (.done (.pair 68), rightFinal) := by
  have small : gives 1 1 (run 117 (pristine.configure ⟨69, false⟩) returningFunction) := by decide +kernel
  have large : gives 68 0 (run 117 (pristine.configure ⟨100, false⟩) returningFunction) := by decide +kernel
  obtain ⟨leftFinal, ranLeft, collected⟩ := exists_of_gives small
  obtain ⟨rightFinal, ranRight, uncollected⟩ := exists_of_gives large
  have larger : 69 ≤ 100 := by decide
  obtain ⟨left, right, madeLeft, madeRight, alike⟩ := capacity_unobservable 117 returningFunction false false larger
  obtain rfl := Except.ok.inj ((machine_pristine _).symm.trans madeLeft)
  obtain rfl := Except.ok.inj ((machine_pristine _).symm.trans madeRight)
  rw [ranLeft, ranRight] at alike
  obtain ⟨_, tallies, same⟩ := alike trivial
  exact ⟨_, _, leftFinal, rightFinal, madeLeft, madeRight, ranLeft, collected, ranRight, uncollected, tallies, same⟩

end Evaluator

end ExplicitControl
