import ExplicitControl.Proofs.Evaluator.Config
import ExplicitControl.Proofs.Interpreter.Evaluate
import ExplicitControl.Proofs.Program.Reading

namespace ExplicitControl.Evaluator

open Interpreter (Node Value Mistake Store Halt Interpretation)

/-- Where the pairs of a program lie, each at an address of its own. -/
structure Layout where
  program : ProgramHeap
  locate : List Bool → Nat
  injective : Function.Injective locate

/-- An operation gives a value and turns some pairs into others, given room
enough. -/
def Yields (layout : Layout) (operation : HeapOperation) (ps : List Pointer) (cells : Cells)
    (value : Pointer) (cells' : Cells) : Prop :=
  ∃ operands, Action.Gives layout.program table
    (Operation.call operation.name (.addressAware operation) ps) cells ⟨value, operands⟩ cells'

/-- An operation fails in a way that shows a mistake. -/
def Declines (layout : Layout) (operation : HeapOperation) (ps : List Pointer) (cells : Cells)
    (m : Mistake) : Prop :=
  Action.Refuses layout.program table (Operation.call operation.name (.addressAware operation) ps)
    cells (m.Shows layout.locate)

/-- What an input of an instruction is. -/
def Config.input (c : Config) : Input → Contents
  | .constant value => .pointer value
  | .register index => c.registers index

/-- The inputs of an instruction are pointers. -/
abbrev Config.Supplies (c : Config) (inputs : List Input) (ps : List Pointer) : Prop :=
  List.Forall₂ (fun input p => c.input input = .pointer p) inputs ps

section

variable {layout : Layout} {c : Config} {position : Nat} {machine : Machine} {inputs : List Input}
  {ps : List Pointer} {operation : HeapOperation}

theorem Stands.operands (stands : Stands layout.program c position machine) (name : String)
    (supplies : c.Supplies inputs ps) : Machine.operands machine.memory name inputs = .ok ps := by
  induction supplies with
  | nil => rfl
  | @cons input p rest ps' first _ ih =>
    cases input with
    | constant value =>
      cases first
      simp only [Machine.operands, ih]
      rfl
    | register index =>
      have held : machine.memory.contents index = .pointer p := (stands.registers index).trans first
      simp only [Machine.operands, held, ih]
      rfl

theorem Stands.apply {cells : Cells} {value : Pointer} (stands : Stands layout.program c position machine)
    (supplies : c.Supplies inputs ps) (yields : Yields layout operation ps c.heap value cells)
    (room : cells.length ≤ machine.memory.heap.capacity) :
    ∃ heap, Machine.apply (use operation inputs) machine.memory = .ok value (machine.memory.withHeap heap) ∧
      heap.Stores cells ∧ heap.capacity = machine.memory.heap.capacity := by
  obtain ⟨operands, gives⟩ := yields
  obtain ⟨heap, ran, stores, capacity⟩ := gives.runs machine.memory stands.memory room
  refine ⟨heap, ?_, stores, capacity⟩
  change EStateM.bind (Action.inspect _) _ _ = _
  simp only [EStateM.bind, Action.inspect, stands.operands _ supplies]
  change EStateM.bind (Operation.call operation.name (.addressAware operation) ps) _ _ = _
  simp only [EStateM.bind, ran]
  rfl

theorem Stands.apply_fails {m : Mistake} (stands : Stands layout.program c position machine)
    (supplies : c.Supplies inputs ps) (declines : Declines layout operation ps c.heap m) :
    ∃ cause memory, Machine.apply (use operation inputs) machine.memory = .error cause memory ∧
      m.Shows layout.locate cause := by
  obtain ⟨cause, memory, failed, shown⟩ := declines machine.memory stands.memory
  refine ⟨cause, memory, ?_, shown⟩
  change EStateM.bind (Action.inspect _) _ _ = _
  simp only [EStateM.bind, Action.inspect, stands.operands _ supplies]
  change EStateM.bind (Operation.call operation.name (.addressAware operation) ps) _ _ = _
  simp only [EStateM.bind, failed]

end

namespace Reaches

variable {layout : Layout} {c : Config} {position : Nat} {codes : List Code}

theorem marked {steps label position' : Nat} {exp env : Contents} {r : Nat → Contents} {trail : List Mark}
    {heap : Cells} {flag : Bool}
    (reaches : Reaches layout.program steps c position ⟨r, trail, heap, flag⟩ position') :
    Reaches layout.program steps c position ⟨r, .entered label exp env :: trail, heap, flag⟩ position' := by
  obtain ⟨bound, runs⟩ := reaches
  refine ⟨bound, fun machine stands room => ?_⟩
  obtain ⟨machine', stands', reached⟩ := runs machine stands room
  exact ⟨machine', Stands.unmarked.mpr stands', reached⟩

theorem goto {label : Nat} (here : Follows position (.goto label :: codes)) :
    Reaches layout.program 1 c position c label :=
  .of_execute 0 here fun _ stands _ => ⟨_, rfl, stands.moved label, rfl⟩

theorem gotoRegister {index label : Nat} (held : c.registers index = .label label)
    (here : Follows position (.gotoRegister index :: codes)) :
    Reaches layout.program 1 c position c label := by
  refine .of_execute 0 here fun machine stands _ => ?_
  have found : Machine.destination machine.memory index = .ok label := by
    simp only [Machine.destination, stands.registers, held]
  refine ⟨{ machine with position := label }, ?_, stands.moved label, rfl⟩
  change EStateM.bind (Machine.onMemory _) _ machine = _
  simp only [EStateM.bind, Machine.onMemory, Action.inspect, found]
  rfl

theorem branch_taken {label : Nat} (flag : c.flag = true) (here : Follows position (.branch label :: codes)) :
    Reaches layout.program 1 c position c label := by
  refine .of_execute 0 here fun machine stands _ => ?_
  refine ⟨_, ?_, stands.moved label, rfl⟩
  change (if machine.flag then Machine.jump label else Machine.advance : Machine.Step Unit) machine = _
  rw [if_pos (stands.flag.trans flag)]
  rfl

theorem branch_passed {label : Nat} (flag : c.flag = false) (here : Follows position (.branch label :: codes)) :
    Reaches layout.program 1 c position c (position + 1) := by
  refine .of_execute 0 here fun machine stands _ => ?_
  refine ⟨_, ?_, stands.advanced, rfl⟩
  change (if machine.flag then Machine.jump label else Machine.advance : Machine.Step Unit) machine = _
  rw [if_neg (by rw [stands.flag, flag]; exact Bool.false_ne_true)]
  rfl

variable {r : Nat → Contents} {trail : List Mark} {heap : Cells} {flag : Bool} {target index : Nat}

theorem assignRegister (inside : target < registers.length)
    (here : Follows position (.assign target (.register index) :: codes)) :
    Reaches layout.program 1 ⟨r, trail, heap, flag⟩ position
      ⟨write r target (r index), trail, heap, flag⟩ (position + 1) := by
  refine .of_execute 0 here fun machine stands _ => ?_
  rw [← show machine.memory.contents index = r index from stands.registers index]
  exact ⟨_, rfl, (stands.setContents inside _).advanced, rfl⟩

theorem assignConstant {value : Pointer} (inside : target < registers.length)
    (here : Follows position (.assign target (.constant value) :: codes)) :
    Reaches layout.program 1 ⟨r, trail, heap, flag⟩ position
      ⟨write r target (.pointer value), trail, heap, flag⟩ (position + 1) :=
  .of_execute 0 here fun _ stands _ => ⟨_, rfl, (stands.setContents inside _).advanced, rfl⟩

theorem assignLabel {label : Nat} (inside : target < registers.length)
    (here : Follows position (.assign target (.label label) :: codes)) :
    Reaches layout.program 1 ⟨r, trail, heap, flag⟩ position
      ⟨write r target (.label label), trail, heap, flag⟩ (position + 1) :=
  .of_execute 0 here fun _ stands _ => ⟨_, rfl, (stands.setContents inside _).advanced, rfl⟩

theorem save (here : Follows position (.save index :: codes)) :
    Reaches layout.program 1 ⟨r, trail, heap, flag⟩ position ⟨r, .saved index (r index) :: trail, heap, flag⟩
      (position + 1) := by
  refine .of_execute 0 here fun machine stands _ => ?_
  rw [← show machine.memory.contents index = r index from stands.registers index]
  exact ⟨_, rfl, (stands.pushed index _).advanced, rfl⟩

theorem restore {value : Contents} (inside : target < registers.length)
    (here : Follows position (.restore target :: codes)) :
    Reaches layout.program 1 ⟨r, .saved target value :: trail, heap, flag⟩ position
      ⟨write r target value, trail, heap, flag⟩ (position + 1) := by
  refine .of_execute 0 here fun machine stands _ => ?_
  obtain ⟨found, popped⟩ := stands.popped rfl
  refine ⟨_, ?_, (popped.setContents inside value).advanced, rfl⟩
  change EStateM.bind (Machine.onMemory (Machine.restore target)) _ machine = _
  simp only [EStateM.bind, Machine.onMemory, Machine.restore, found]
  rfl

theorem clearStack (here : Follows position (Evaluator.act .clearStack [] :: codes)) :
    Reaches layout.program 1 ⟨r, [], heap, flag⟩ position ⟨r, [], heap, flag⟩ (position + 1) := by
  refine .of_execute 0 here fun machine stands _ => ?_
  have stands' := stands.advanced
  exact ⟨_, rfl, { stands' with
    stack := rfl
    memory := { stands'.memory with } }, rfl⟩

variable {inputs : List Input} {ps : List Pointer} {operation : HeapOperation} {cells : Cells}
  {value : Pointer}

/-- Putting the result of an operation into a register is a step. -/
theorem put (supplies : Config.Supplies ⟨r, trail, heap, flag⟩ inputs ps)
    (yields : Yields layout operation ps heap value cells) (inside : target < registers.length)
    (here : Follows position (.assign target (.application (use operation inputs)) :: codes)) :
    Reaches layout.program 1 ⟨r, trail, heap, flag⟩ position
      ⟨write r target (.pointer value), trail, cells, flag⟩ (position + 1) := by
  refine .of_execute cells.length here fun machine stands room => ?_
  obtain ⟨heap', applied, stores, capacity⟩ := stands.apply supplies yields room
  refine ⟨_, ?_, ((stands.withHeap stores).setContents inside _).advanced, capacity⟩
  change EStateM.bind (Machine.onMemory (Machine.evaluate _)) _ machine = _
  have evaluated : Machine.evaluate (.application (use operation inputs)) machine.memory
      = .ok (.pointer value) (machine.memory.withHeap heap') := by
    change EStateM.bind (Machine.apply _) _ _ = _
    simp only [EStateM.bind, applied]
    rfl
  simp only [EStateM.bind, Machine.onMemory, evaluated]
  rfl

theorem act (supplies : Config.Supplies ⟨r, trail, heap, flag⟩ inputs ps)
    (yields : Yields layout operation ps heap value cells)
    (here : Follows position (.perform (use operation inputs) :: codes)) :
    Reaches layout.program 1 ⟨r, trail, heap, flag⟩ position ⟨r, trail, cells, flag⟩ (position + 1) := by
  refine .of_execute cells.length here fun machine stands room => ?_
  obtain ⟨heap', applied, stores, capacity⟩ := stands.apply supplies yields room
  refine ⟨_, ?_, (stands.withHeap stores).advanced, capacity⟩
  change EStateM.bind (Machine.onMemory (Machine.apply _)) _ machine = _
  simp only [EStateM.bind, Machine.onMemory, applied]
  rfl

theorem ask {flag' : Bool} (supplies : Config.Supplies ⟨r, trail, heap, flag⟩ inputs ps)
    (yields : Yields layout operation ps heap (.bool flag') heap)
    (here : Follows position (.test (use operation inputs) :: codes)) :
    Reaches layout.program 1 ⟨r, trail, heap, flag⟩ position ⟨r, trail, heap, flag'⟩ (position + 1) := by
  refine .of_execute heap.length here fun machine stands room => ?_
  obtain ⟨heap', applied, stores, capacity⟩ := stands.apply supplies yields room
  have stands' := (stands.withHeap stores).advanced
  refine ⟨{ machine with
      memory := machine.memory.withHeap heap'
      flag := flag'
      position := machine.position + 1 }, ?_, { stands' with flag := rfl }, capacity⟩
  change EStateM.bind (Machine.onMemory (Machine.apply _)) _ machine = _
  simp only [EStateM.bind, Machine.onMemory, applied]
  rfl

end Reaches

namespace Fails

variable {layout : Layout} {c : Config} {position target : Nat} {codes : List Code} {inputs : List Input}
  {ps : List Pointer} {operation : HeapOperation} {m : Mistake}

/-- Where an operation fails the run does. -/
theorem put (supplies : c.Supplies inputs ps) (declines : Declines layout operation ps c.heap m)
    (here : Follows position (.assign target (.application (use operation inputs)) :: codes)) :
    Fails layout.program 1 c position (m.Shows layout.locate) := by
  refine .of_execute here fun machine stands => ?_
  obtain ⟨cause, memory, failed, shown⟩ := stands.apply_fails supplies declines
  refine ⟨cause, { machine with memory := memory }, ?_, shown⟩
  change EStateM.bind (Machine.onMemory (Machine.evaluate _)) _ machine = _
  have evaluated : Machine.evaluate (.application (use operation inputs)) machine.memory
      = .error cause memory := by
    change EStateM.bind (Machine.apply _) _ _ = _
    simp only [EStateM.bind, failed]
  simp only [EStateM.bind, Machine.onMemory, evaluated]

theorem act (supplies : c.Supplies inputs ps) (declines : Declines layout operation ps c.heap m)
    (here : Follows position (.perform (use operation inputs) :: codes)) :
    Fails layout.program 1 c position (m.Shows layout.locate) := by
  refine .of_execute here fun machine stands => ?_
  obtain ⟨cause, memory, failed, shown⟩ := stands.apply_fails supplies declines
  refine ⟨cause, { machine with memory := memory }, ?_, shown⟩
  change EStateM.bind (Machine.onMemory (Machine.apply _)) _ machine = _
  simp only [EStateM.bind, Machine.onMemory, failed]

end Fails

end ExplicitControl.Evaluator
