import ExplicitControl.Proofs.Machine.Lockstep
import ExplicitControl.Proofs.Operation.Rebinding

namespace ExplicitControl

theorem Machine.operands_congr (memory other : Memory) (same : memory.registers = other.registers) (name : String)
    (inputs : List Input) : operands memory name inputs = operands other name inputs := by
  induction inputs with
  | nil => rfl
  | cons input inputs ih =>
    cases input with
    | constant value => simp only [operands, ih]
    | register index => simp only [operands, Memory.contents, Memory.registerName, same, ih]

/-- The names that an application looks up in the table. -/
def Application.sought (memory : Memory) (application : Application) : List String :=
  match Machine.operands memory application.name application.inputs with
  | .ok inputs => Operation.sought memory (memory.heap.free + 1) application.operation inputs
  | .error _ => []

/-- The names that an instruction looks up in the table. -/
def Code.sought (memory : Memory) : Code → List String
  | .assign _ (.application application) => application.sought memory
  | .test application => application.sought memory
  | .perform application => application.sought memory
  | _ => []

namespace Machine

/-- The names that a run looks up in the table, in order. An operation that an
instruction applies by itself was looked up when it was assembled; only a
function value is called by a name that is looked up then. -/
def sought : (fuel : Nat) → Machine → List String
  | 0, _ => []
  | fuel + 1, machine =>
    match machine.current? with
    | none => []
    | some instruction =>
      instruction.code.sought machine.memory ++
        match machine.step instruction with
        | .ok () next => next.sought fuel
        | .error _ _ => []

variable {added : List (String × Operation)}

section

variable {memory : Memory}

theorem apply_commutes {application : Application}
    (absent : ∀ name ∈ application.sought memory, name ∉ added.map Prod.fst) :
    Run.Commutes (Memory.install · added) (apply application) memory := by
  refine .bind (Action.inspect_commutes (operands_congr (memory.install added) memory rfl _ _)) fun inputs _ read => ?_
  obtain ⟨inputsRead, same⟩ := Action.inspect_eq_ok_iff.mp read
  simp only [Application.sought, inputsRead] at absent
  rw [same]
  exact .bind (Operation.call_commutes absent) fun _ _ _ => .pure _

/-- A line in the log makes no difference to what is looked up. -/
theorem sought_record (code : Code) (event : Event) : code.sought (memory.record event) = code.sought memory := by
  have call (application : Application) : application.sought (memory.record event) = application.sought memory := by
    rw [Application.sought, Application.sought, operands_congr (memory.record event) memory rfl]
    cases operands memory application.name application.inputs with
    | ok inputs => exact Operation.sought_record _ _ _ _ _
    | error cause => rfl
  cases code with
  | assign target source =>
    cases source with
    | application application => exact call application
    | _ => rfl
  | test application => exact call application
  | perform application => exact call application
  | _ => rfl

theorem evaluate_commutes {source : Source}
    (absent : ∀ application, source = .application application →
      ∀ name ∈ application.sought memory, name ∉ added.map Prod.fst) :
    Run.Commutes (Memory.install · added) (evaluate source) memory := by
  cases source with
  | register index => exact rfl
  | constant value => exact .pure _
  | label position => exact .pure _
  | application application => exact .bind (apply_commutes (absent application rfl)) fun _ _ _ => .pure _

theorem restore_commutes (index : Nat) : Run.Commutes (Memory.install · added) (restore index) memory := by
  unfold Run.Commutes
  have top : (memory.install added).stack.top? = memory.stack.top? := rfl
  simp only [restore, top]
  cases memory.stack.top? <;> rfl

end

variable {machine : Machine}

theorem onMemory_commutes {α : Type} {action : Action α}
    (commutes : Run.Commutes (Memory.install · added) action machine.memory) :
    Run.Commutes (installOperations · added) (onMemory action) machine := by
  obtain ⟨memory, code, position, flag, trace, executed⟩ := machine
  have ran : action { memory with operations := memory.operations.install added } =
      Run.onState (Memory.install · added) (action memory) := commutes
  unfold Run.Commutes
  simp only [onMemory, installOperations, ran]
  cases action memory <;> rfl

theorem advance_commutes : Run.Commutes (installOperations · added) advance machine := rfl

theorem jump_commutes (target : Nat) : Run.Commutes (installOperations · added) (jump target) machine := rfl

theorem setFlag_commutes (value : Bool) : Run.Commutes (installOperations · added) (setFlag value) machine := rfl

/-- An instruction that looks no added name up does the same as before, and
leaves the same but for the table. -/
theorem execute_commutes {code : Code}
    (absent : ∀ name ∈ code.sought machine.memory, name ∉ added.map Prod.fst) :
    Run.Commutes (installOperations · added) (execute code) machine := by
  cases code with
  | assign target source =>
    refine .bind (onMemory_commutes (evaluate_commutes ?_)) fun value _ _ =>
      .bind (onMemory_commutes rfl) fun _ _ _ => advance_commutes
    rintro application rfl
    exact absent
  | test application =>
    refine .bind (onMemory_commutes (apply_commutes absent)) fun value _ _ => ?_
    split
    · exact .bind (setFlag_commutes _) fun _ _ _ => advance_commutes
    · exact .throw _
  | branch target =>
    obtain ⟨memory, code, position, flag, trace, executed⟩ := machine
    cases flag <;> rfl
  | goto target => exact jump_commutes target
  | gotoRegister index =>
    exact .bind (onMemory_commutes (Action.inspect_commutes rfl)) fun target _ _ => jump_commutes target
  | save index => exact .bind (onMemory_commutes rfl) fun _ _ _ => advance_commutes
  | restore index => exact .bind (onMemory_commutes (restore_commutes index)) fun _ _ _ => advance_commutes
  | perform application =>
    exact .bind (onMemory_commutes (apply_commutes absent)) fun _ _ _ => advance_commutes

theorem traced_install (instruction : BoundInstruction) :
    (machine.installOperations added).traced instruction = (machine.traced instruction).installOperations added := by
  obtain ⟨memory, code, position, flag, trace, executed⟩ := machine
  cases trace <;> rfl

theorem sought_traced (code : Code) (instruction : BoundInstruction) :
    code.sought (machine.traced instruction).memory = code.sought machine.memory := by
  unfold traced
  split
  · exact sought_record code _
  · rfl

/-- One step that looks no added name up is the same before and after the
operations are added. -/
theorem step_commutes {instruction : BoundInstruction}
    (absent : ∀ name ∈ instruction.code.sought machine.memory, name ∉ added.map Prod.fst) :
    Run.Commutes (installOperations · added) (step instruction) machine := by
  unfold Run.Commutes
  rw [← sought_traced instruction.code instruction] at absent
  have executed := execute_commutes absent
  unfold Run.Commutes at executed
  rw [step_eq, step_eq, traced_install, executed]
  cases execute instruction.code (machine.traced instruction) <;> rfl

/-- A run that looks no added name up does the same as before, instruction by
instruction. -/
theorem runFuel_install {fuel : Nat} (absent : ∀ name ∈ machine.sought fuel, name ∉ added.map Prod.fst) :
    (machine.installOperations added).runFuel fuel =
      ((machine.runFuel fuel).1, (machine.runFuel fuel).2.installOperations added) := by
  induction fuel generalizing machine with
  | zero => rfl
  | succ fuel ih =>
    have same : (machine.installOperations added).current? = machine.current? := rfl
    cases fetched : machine.current? with
    | none =>
      rw [runFuel, runFuel, same, fetched]
      rfl
    | some instruction =>
      rw [sought, fetched] at absent
      simp only [List.forall_mem_append] at absent
      have stepped := step_commutes absent.1
      unfold Run.Commutes at stepped
      rw [runFuel, runFuel, same, fetched]
      simp only [stepped]
      cases ran : machine.step instruction with
      | ok _ next =>
        rw [ran] at absent
        exact ih absent.2
      | error cause next => rfl

/-- The machine with everything ready for its first instruction. -/
def started (machine : Machine) : Machine :=
  machine.prepare.record
    (.started machine.prepare.code.size machine.prepare.memory.registers.size machine.prepare.memory.heap.capacity)

theorem start_eq (fuel : Nat) (machine : Machine) : machine.start fuel = machine.started.runFuel fuel := rfl

/-- Operations added after assembly make no difference to the outcome of a run,
to the registers it leaves and to its counters, unless the run calls a function
value by one of their names, which is looked up in the table as it is then.
Operations, those of the machine and those added, are standard ones and the
evaluator's, under any names; a host's own could look the table up as well. -/
theorem start_install (machine : Machine) (added : List (String × Operation)) (fuel : Nat)
    (absent : ∀ name ∈ machine.started.sought fuel, name ∉ added.map Prod.fst) :
    ((machine.installOperations added).start fuel).1 = (machine.start fuel).1 ∧
      ((machine.installOperations added).start fuel).2.memory.registers = (machine.start fuel).2.memory.registers ∧
      ((machine.installOperations added).start fuel).2.statistics = (machine.start fuel).2.statistics := by
  have ran : (machine.installOperations added).start fuel = _ := runFuel_install absent
  rw [ran, start_eq]
  exact ⟨rfl, rfl, rfl⟩

/-- A controller that compares null with itself by way of a function value. -/
def comparing : Controller :=
  [.assign "function" [.operation "pair", .constant (.string "primitive"), .constant (.string "===")],
    .assign "arguments" [.operation "pair", .constant .null, .constant .null],
    .assign "arguments" [.operation "pair", .constant .null, .register "arguments"],
    .assign "value" [.operation "apply", .register "function", .register "arguments"]]

/-- A machine for the controller above before it is installed. -/
def comparer : Except Error Machine :=
  return (← empty.allocateRegisters ["function", "arguments", "value"]).installOperations
    [("apply", .addressAware .applyPrimitive)]

/-- Whether a register holds this truth value. -/
def tells (name : String) (value : Bool) (machine : Machine) : Bool :=
  match machine.contents name with
  | .ok (.pointer (.bool other)) => other == value
  | _ => false

theorem exists_comparing {p : Machine → Bool}
    (works : comparer.toOption.any fun machine => (machine.installController comparing).toOption.any p) :
    ∃ machine assembled : Machine, machine.installController comparing = .ok assembled ∧ p assembled := by
  obtain ⟨machine, _, works⟩ := Read.exists_of_any works
  obtain ⟨assembled, installs, holds⟩ := Read.exists_of_any works
  exact ⟨machine, assembled, installs, holds⟩

/-- The run looks one name up, so that another can be bound anew: with a new
operation under the other name the run is the same. -/
theorem start_comparing_install :
    ∃ machine assembled : Machine, machine.installController comparing = .ok assembled ∧
      assembled.started.sought 5 = ["==="] ∧
      ((assembled.installOperations [("pair", .addressAware .different)]).start 5).1 = (assembled.start 5).1 ∧
      ((assembled.installOperations [("pair", .addressAware .different)]).start 5).2.memory.registers =
        (assembled.start 5).2.memory.registers ∧
      ((assembled.installOperations [("pair", .addressAware .different)]).start 5).2.statistics =
        (assembled.start 5).2.statistics := by
  obtain ⟨machine, assembled, installs, seeks⟩ :=
    exists_comparing (p := fun assembled => decide (assembled.started.sought 5 = ["==="])) (by decide +kernel)
  have seeks := of_decide_eq_true seeks
  refine ⟨machine, assembled, installs, seeks, start_install assembled _ 5 ?_⟩
  rw [seeks]
  decide

/-- What a register holds is read off the registers alone, so machines with
the same registers tell the same. -/
theorem tells_congr {left right : Machine} (same : left.memory.registers = right.memory.registers) (name : String)
    (value : Bool) : left.tells name value = right.tells name value := by
  simp only [tells, contents, registerIndex, Memory.registerIndex?, Memory.contents, same]

/-- Code that was assembled before sees an operation that takes the place of
one found by its name: null compared with itself is true, and false after
another comparison has taken the name. The registers that the two runs leave
are not the same. -/
theorem start_comparing_rebound :
    ∃ machine assembled : Machine, machine.installController comparing = .ok assembled ∧
      (assembled.start 5).2.tells "value" true ∧
      ((assembled.installOperations [("===", .addressAware .different)]).start 5).2.tells "value" false ∧
      ((assembled.installOperations [("===", .addressAware .different)]).start 5).2.memory.registers ≠
        (assembled.start 5).2.memory.registers := by
  obtain ⟨machine, assembled, installs, told⟩ :=
    exists_comparing (p := fun assembled => (assembled.start 5).2.tells "value" true &&
      ((assembled.installOperations [("===", .addressAware .different)]).start 5).2.tells "value" false)
      (by decide +kernel)
  obtain ⟨isTrue, isFalse⟩ := Bool.and_eq_true_iff.mp told
  refine ⟨machine, assembled, installs, isTrue, isFalse, fun same => ?_⟩
  rw [tells_congr same] at isFalse
  revert isTrue isFalse
  unfold tells
  split
  · rename_i other _
    cases other <;> decide
  · decide

end Machine

end ExplicitControl
