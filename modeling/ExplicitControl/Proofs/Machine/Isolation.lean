import ExplicitControl.Proofs.Machine.Lockstep
import ExplicitControl.Proofs.Operation.Steadiness

namespace ExplicitControl

/-- A register was read that held nothing. -/
def Error.Unread : Error → Prop
  | .machine (.notPointer _ _ .unassigned) => True
  | .machine (.notLabel _ .unassigned) => True
  | _ => False

/-- Assigning to a register keeps the names of all, so the memory goes on
being equipped as it was built. -/
theorem Memory.Equipped.setContents {build : Build} {memory : Memory} (equipped : memory.Equipped build)
    (index : Nat) (value : Contents) : (memory.setContents index value).Equipped build := by
  refine { equipped with names := ?_ }
  rw [← equipped.names]
  simp only [Memory.setContents, Array.toList_modify]
  generalize memory.registers.toList = registers
  induction registers generalizing index with
  | nil => simp
  | cons register rest ih =>
    cases index with
    | zero => rfl
    | succ index => simpa using ih index

namespace Memory.Resembles

variable {lax : Prop} {build : Build} {left right : Memory} {c d : Contents}

theorem contents (resembles : Resembles lax build left right) (index : Nat) :
    (left.contents index).Resembles lax (right.contents index) := by
  have row := resembles.registers
  simp only [Memory.contents, ← Array.getElem?_toList]
  generalize left.registers.toList = xs at row
  generalize right.registers.toList = ys at row
  induction row generalizing index with
  | nil => exact .same _
  | cons first _ ih =>
    cases index with
    | zero => exact first.contents
    | succ index => exact ih index

theorem registerName (resembles : Resembles lax build left right) (index : Nat) :
    left.registerName index = right.registerName index := by
  have row := resembles.registers
  simp only [Memory.registerName, ← Array.getElem?_toList]
  generalize left.registers.toList = xs at row
  generalize right.registers.toList = ys at row
  induction row generalizing index with
  | nil => rfl
  | cons first _ ih =>
    cases index with
    | zero => exact first.name
    | succ index => exact ih index

theorem top? (resembles : Resembles lax build left right) :
    left.stack.top? = none ∧ right.stack.top? = none ∨
      ∃ c d, left.stack.top? = some c ∧ right.stack.top? = some d ∧ c.Resembles lax d := by
  have row := List.rel_reverse resembles.stack
  simp only [Stack.top?, ← Array.getLast?_toList, List.getLast?_eq_head?_reverse]
  generalize left.stack.items.toList.reverse = xs at row
  generalize right.stack.items.toList.reverse = ys at row
  cases row with
  | nil => exact .inl ⟨rfl, rfl⟩
  | cons first _ => exact .inr ⟨_, _, rfl, rfl, first⟩

theorem setContents (resembles : Resembles lax build left right) (index : Nat) (held : c.Resembles lax d) :
    Resembles lax build (left.setContents index c) (right.setContents index d) := by
  refine { resembles with
    equippedLeft := resembles.equippedLeft.setContents index c
    equippedRight := resembles.equippedRight.setContents index d
    registers := ?_ }
  have row := resembles.registers
  simp only [Memory.setContents, Array.toList_modify]
  generalize left.registers.toList = xs at row
  generalize right.registers.toList = ys at row
  clear resembles
  induction row generalizing index with
  | nil => simp
  | cons first rest ih =>
    cases index with
    | zero => exact .cons ⟨first.name, held⟩ rest
    | succ index => exact .cons first (ih index)

theorem push (resembles : Resembles lax build left right) (held : c.Resembles lax d) :
    Resembles lax build { left with stack := left.stack.push c } { right with stack := right.stack.push d } := by
  have depth : left.stack.items.size = right.stack.items.size := by
    simpa using resembles.stack.length_eq
  exact { resembles with
    equippedLeft := { resembles.equippedLeft with }
    equippedRight := { resembles.equippedRight with }
    stack := by
      simp only [Stack.push, Array.toList_push]
      exact List.rel_append resembles.stack (.cons held .nil)
    pushes := congrArg (· + 1) resembles.pushes
    maxDepth := by simp only [Stack.push, resembles.maxDepth, depth] }

theorem pop (resembles : Resembles lax build left right) :
    Resembles lax build { left with stack := left.stack.pop } { right with stack := right.stack.pop } := by
  refine { resembles with
    equippedLeft := { resembles.equippedLeft with }
    equippedRight := { resembles.equippedRight with }
    stack := ?_ }
  have row := resembles.stack
  simp only [Stack.pop, Array.toList_pop, List.dropLast_eq_take, row.length_eq]
  exact List.forall₂_take _ row

end Memory.Resembles

namespace Machine

/-- What may be lost in a lax resemblance: a run whose registers hold nothing
cannot read what one on the other side may read. -/
def Lost (lax : Prop) (cause : Error) : Prop :=
  lax ∧ cause.Unread

section

variable {lax : Prop} {build : Memory.Build} {left right : Memory}

/-- What two actions leave belongs together. -/
abbrev Alike {α β : Type} (lax : Prop) (build : Memory.Build) (rel : α → β → Prop) :
    EStateM.Result Error Memory α → EStateM.Result Error Memory β → Prop :=
  Run.Same (Lost lax) (Memory.Resembles lax build) rel

theorem operands_cases (resembles : Memory.Resembles lax build left right) (name : String) (inputs : List Input) :
    operands left name inputs = operands right name inputs ∨
      ∃ cause, operands left name inputs = .error cause ∧ Lost lax cause := by
  induction inputs with
  | nil => exact .inl rfl
  | cons input rest ih =>
    cases input with
    | constant value =>
      rcases ih with same | ⟨cause, failed, lost⟩
      · exact .inl (by simp only [operands, same])
      · exact .inr ⟨cause, by simp only [operands, failed]; rfl, lost⟩
    | register index =>
      have held := resembles.contents index
      simp only [operands, resembles.registerName index]
      generalize left.contents index = c at held
      generalize right.contents index = d at held
      cases held with
      | vacant isLax _ => exact .inr ⟨_, rfl, isLax, trivial⟩
      | same =>
        cases c with
        | unassigned => exact .inl rfl
        | label position => exact .inl rfl
        | pointer p =>
          rcases ih with same | ⟨cause, failed, lost⟩
          · exact .inl (by simp only [same])
          · exact .inr ⟨cause, by simp only [failed]; rfl, lost⟩

/-- An operation applied in two memories that resemble one another gives the
same in both, except that a register which holds nothing on the left may end
it there. -/
theorem apply_alike (resembles : Memory.Resembles lax build left right) (application : Application) :
    Alike lax build Eq (apply application left) (apply application right) := by
  simp only [apply]
  have inputs : Alike lax build Eq
      (Action.inspect (fun memory => operands memory application.name application.inputs) left)
      (Action.inspect (fun memory => operands memory application.name application.inputs) right) := by
    simp only [Action.inspect]
    rcases operands_cases resembles application.name application.inputs with same | ⟨cause, failed, lost⟩
    · rw [same]
      split
      · exact .ok rfl resembles
      · exact .error resembles
    · rw [failed]
      exact .lost lost
  refine inputs.bind ?_
  rintro inputs l _ r rfl resembles
  refine (application.operation.call_steady application.name inputs l r resembles).weaken.bind ?_
  rintro applied l _ r rfl resembles
  exact .ok rfl resembles

theorem evaluate_alike (resembles : Memory.Resembles lax build left right) (source : Source) :
    Alike lax build (Contents.Resembles lax) (evaluate source left) (evaluate source right) := by
  cases source with
  | register index => exact .ok (resembles.contents index) resembles
  | constant value => exact .ok (.same _) resembles
  | label position => exact .ok (.same _) resembles
  | application application =>
    refine (apply_alike resembles application).bind ?_
    rintro value l _ r rfl resembles
    exact .ok (.same _) resembles

theorem restore_alike (resembles : Memory.Resembles lax build left right) (index : Nat) :
    Alike lax build Eq (restore index left) (restore index right) := by
  simp only [restore]
  rcases resembles.top? with ⟨empty, empty'⟩ | ⟨c, d, top, top', held⟩
  · rw [empty, empty', resembles.registerName index]
    exact .error resembles
  · rw [top, top']
    exact .ok rfl (resembles.pop.setContents index held)

theorem destination_alike (resembles : Memory.Resembles lax build left right) (index : Nat) :
    Alike lax build Eq (Action.inspect (destination · index) left) (Action.inspect (destination · index) right) := by
  have held := resembles.contents index
  simp only [Action.inspect, destination, resembles.registerName index]
  generalize left.contents index = c at held
  generalize right.contents index = d at held
  cases held with
  | vacant isLax _ => exact .lost ⟨isLax, trivial⟩
  | same =>
    cases c with
    | label position => exact .ok rfl resembles
    | unassigned => exact .error resembles
    | pointer p => exact .error resembles

end

/-- What no run changes: besides what no computation on the memory changes,
the controller. -/
structure Build extends Memory.Build where
  code : Array BoundInstruction

/-- A machine with a controller, a program, operations and registers, in a heap
of a capacity. What they hold is left open. -/
structure BuiltAs (build : Build) (machine : Machine) : Prop where
  memory : machine.memory.Equipped build.toBuild
  heap : machine.memory.heap.Fitted build.capacity
  code : machine.code = build.code

/-- Machines with the same controller at the same place, in memories that
resemble one another. What lies beyond the free address and in the region that
waits for the next collection is left out, since it is written before it is
read. -/
structure Resembles (lax : Prop) (build : Build) (left right : Machine) : Prop where
  memory : Memory.Resembles lax build.toBuild left.memory right.memory
  codeLeft : left.code = build.code
  codeRight : right.code = build.code
  position : left.position = right.position
  flag : left.flag = right.flag
  executed : left.executed = right.executed

/-- What two steps leave belongs together. -/
abbrev Same {α β : Type} (lax : Prop) (build : Build) (rel : α → β → Prop) :
    EStateM.Result Error Machine α → EStateM.Result Error Machine β → Prop :=
  Run.Same (Lost lax) (Resembles lax build) rel

variable {lax : Prop} {build : Build} {left right : Machine}

theorem Resembles.onMemory {α β : Type} {rel : α → β → Prop} {x : Action α} {y : Action β}
    (resembles : Resembles lax build left right)
    (alike : Alike lax build.toBuild rel (x left.memory) (y right.memory)) :
    Same lax build rel (Machine.onMemory x left) (Machine.onMemory y right) := by
  simp only [Machine.onMemory]
  generalize x left.memory = result at alike
  generalize y right.memory = result' at alike
  cases alike with
  | ok related memory => exact .ok related { resembles with memory := memory }
  | error memory => exact .error { resembles with memory := memory }
  | lost isLost => exact .lost isLost

theorem Resembles.jump (resembles : Resembles lax build left right) (target : Nat) :
    Same lax build Eq (Machine.jump target left) (Machine.jump target right) :=
  .ok rfl { resembles with position := rfl }

theorem Resembles.advance (resembles : Resembles lax build left right) :
    Same lax build Eq (Machine.advance left) (Machine.advance right) :=
  .ok rfl { resembles with position := congrArg (· + 1) resembles.position }

theorem execute_same (resembles : Resembles lax build left right) (code : Code) :
    Same lax build Eq (execute code left) (execute code right) := by
  cases code with
  | assign target source =>
    refine (resembles.onMemory (evaluate_alike resembles.memory source)).bind ?_
    intro c l d r held resembles
    have assigned : Alike lax build.toBuild Eq (assign target c l.memory) (assign target d r.memory) :=
      .ok rfl (resembles.memory.setContents target held)
    exact (resembles.onMemory assigned).bind fun _ _ _ _ _ resembles => resembles.advance
  | test application =>
    refine (resembles.onMemory (apply_alike resembles.memory application)).bind ?_
    rintro value l _ r rfl resembles
    match value with
    | .bool flag => exact .ok rfl { resembles with flag := rfl, position := congrArg (· + 1) resembles.position }
    | .null | .undefined | .string _ | .number _ | .program _ | .pair _ => exact .error resembles
  | branch target =>
    change Same lax build Eq ((if left.flag then jump target else advance : Step Unit) left)
      ((if right.flag then jump target else advance : Step Unit) right)
    rw [resembles.flag]
    split
    · exact resembles.jump target
    · exact resembles.advance
  | goto target => exact resembles.jump target
  | gotoRegister index =>
    refine (resembles.onMemory (destination_alike resembles.memory index)).bind ?_
    rintro target l _ r rfl resembles
    exact resembles.jump target
  | save index =>
    have saved : Alike lax build.toBuild Eq (save index left.memory) (save index right.memory) :=
      .ok rfl (resembles.memory.push (resembles.memory.contents index))
    exact (resembles.onMemory saved).bind fun _ _ _ _ _ resembles => resembles.advance
  | restore index =>
    exact (resembles.onMemory (restore_alike resembles.memory index)).bind fun _ _ _ _ _ resembles =>
      resembles.advance
  | perform application =>
    exact (resembles.onMemory (apply_alike resembles.memory application)).bind fun _ _ _ _ _ resembles =>
      resembles.advance

theorem Resembles.recordLeft (resembles : Resembles lax build left right) (event : Event) :
    Resembles lax build (left.record event) right :=
  { resembles with memory := resembles.memory.recordLeft event }

theorem Resembles.recordRight (resembles : Resembles lax build left right) (event : Event) :
    Resembles lax build left (right.record event) :=
  { resembles with memory := resembles.memory.recordRight event }

theorem Resembles.traced (resembles : Resembles lax build left right) (instruction : BoundInstruction) :
    Resembles lax build (left.traced instruction) (right.traced instruction) := by
  have leftTraced : Resembles lax build (left.traced instruction) right := by
    unfold Machine.traced
    split
    · exact resembles.recordLeft _
    · exact resembles
  generalize left.traced instruction = machine at leftTraced
  unfold Machine.traced
  split
  · exact leftTraced.recordRight _
  · exact leftTraced

/-- One instruction does the same in machines that resemble one another, and
leaves machines that do so again. A register that is read where it holds
nothing ends the run on the left only in a lax resemblance. -/
theorem step_same (resembles : Resembles lax build left right) (instruction : BoundInstruction) :
    Same lax build Eq (step instruction left) (step instruction right) := by
  have executed := execute_same (resembles.traced instruction) instruction.code
  rw [step_eq, step_eq]
  generalize execute instruction.code (left.traced instruction) = result at executed
  generalize execute instruction.code (right.traced instruction) = result' at executed
  cases executed with
  | ok _ resembles =>
    exact .ok rfl { resembles with executed := congrArg (· + 1) resembles.executed }
  | error resembles => exact .error ((resembles.recordLeft _).recordRight _)
  | lost isLost => exact .lost isLost

/-- Runs of machines that resemble one another end alike, or not at all,
unless the one on the left is lost. The step is carried by one lemma for each
kind of instruction. -/
theorem runFuel_same (fuel : Nat) (resembles : Resembles lax build left right) :
    ((left.runFuel fuel).1 = (right.runFuel fuel).1 ∧
        Resembles lax build (left.runFuel fuel).2 (right.runFuel fuel).2) ∨
      ∃ cause, (left.runFuel fuel).1 = .failed cause ∧ Lost lax cause := by
  induction fuel generalizing left right with
  | zero => exact .inl ⟨rfl, resembles⟩
  | succ fuel ih =>
    have reached : left.current? = right.current? := by
      simp only [current?, resembles.codeLeft, resembles.codeRight, resembles.position]
    simp only [runFuel, reached]
    split
    · exact .inl ⟨rfl, (resembles.recordLeft _).recordRight _⟩
    next instruction _ =>
      have stepped := step_same resembles instruction
      generalize step instruction left = result at stepped
      generalize step instruction right = result' at stepped
      cases stepped with
      | ok _ resembles => exact ih resembles
      | error resembles => exact .inl ⟨rfl, resembles⟩
      | lost isLost => exact .inr ⟨_, rfl, isLost⟩

variable {machine : Machine}

theorem forgetPair_name (register : Register) : (forgetPair register).name = register.name := by
  unfold forgetPair
  split <;> rfl

theorem forgetPair_of_holdsPair {register : Register} (held : register.contents.holdsPair) :
    forgetPair register = ⟨register.name, .unassigned⟩ := by
  unfold forgetPair
  rw [if_pos held]

theorem BuiltAs.prepare_equipped (built : machine.BuiltAs build) :
    machine.prepare.memory.Equipped build.toBuild := by
  refine { built.memory with names := ?_ }
  rw [← built.memory.names]
  simp only [prepare, Array.toList_map, List.map_map]
  exact List.map_congr_left fun register _ => forgetPair_name register

/-- Of what a machine held before, only registers are left at the start of a
run, and in them nothing but scalars, program addresses and labels. -/
theorem BuiltAs.prepare_resembles (builtLeft : left.BuiltAs build) (builtRight : right.BuiltAs build)
    (registers : List.Forall₂ (Register.Resembles lax) left.prepare.memory.registers.toList
      right.prepare.memory.registers.toList) :
    Resembles lax build left.prepare right.prepare where
  memory := {
    equippedLeft := builtLeft.prepare_equipped
    equippedRight := builtRight.prepare_equipped
    heap := {
      fittedLeft := { builtLeft.heap with }
      fittedRight := { builtRight.heap with }
      free := rfl
      statistics := rfl
      active := fun a below => absurd below (Nat.not_lt_zero a) }
    registers := registers
    stack := .nil
    pushes := rfl
    maxDepth := rfl }
  codeLeft := builtLeft.code
  codeRight := builtRight.code
  position := rfl
  flag := rfl
  executed := rfl

/-- Runs of machines that are built alike differ only by what their registers
hold at the start, so they end alike where these resemble one another. -/
theorem BuiltAs.start_same (builtLeft : left.BuiltAs build) (builtRight : right.BuiltAs build)
    (registers : List.Forall₂ (Register.Resembles lax) left.prepare.memory.registers.toList
      right.prepare.memory.registers.toList) (fuel : Nat) :
    ((left.start fuel).1 = (right.start fuel).1 ∧
        Resembles lax build (left.start fuel).2 (right.start fuel).2) ∨
      ∃ cause, (left.start fuel).1 = .failed cause ∧ Lost lax cause :=
  runFuel_same fuel (((builtLeft.prepare_resembles builtRight registers).recordLeft _).recordRight _)

/-- A run changes nothing of how a machine is built: its controller, its
program, its operations, the names of its registers and the capacity of its
heap. -/
theorem BuiltAs.start (built : machine.BuiltAs build) (fuel : Nat) : (machine.start fuel).2.BuiltAs build := by
  have itself : List.Forall₂ (Register.Resembles False) machine.prepare.memory.registers.toList
      machine.prepare.memory.registers.toList := List.forall₂_same.mpr fun _ _ => ⟨rfl, .same _⟩
  rcases built.start_same built itself fuel with ⟨_, resembles⟩ | ⟨_, _, impossible, _⟩
  · exact ⟨resembles.memory.equippedLeft, resembles.memory.heap.fittedLeft, resembles.codeLeft⟩
  · exact impossible.elim

/-- What one can see of two machines after a run is the same. -/
structure Indistinct (left right : Machine) : Prop where
  registers : left.memory.registers = right.memory.registers
  stack : left.memory.stack = right.memory.stack
  position : left.position = right.position
  flag : left.flag = right.flag
  statistics : left.statistics = right.statistics
  free : left.memory.heap.free = right.memory.heap.free
  pairs : ∀ a, a < left.memory.heap.free → left.memory.heap.active[a]? = right.memory.heap.active[a]?

theorem Resembles.statistics (resembles : Resembles lax build left right) : left.statistics = right.statistics := by
  simp only [Machine.statistics, resembles.executed, resembles.memory.pushes, resembles.memory.maxDepth,
    resembles.memory.heap.statistics]

theorem eq_of_resembles {c d : Contents} (resembles : c.Resembles False d) : c = d := by
  cases resembles with
  | same => rfl
  | vacant impossible _ => exact impossible.elim

/-- Nothing that can be seen of a machine after a run lies where machines that
resemble one another may differ. -/
theorem Resembles.indistinct (resembles : Resembles False build left right) : left.Indistinct right where
  registers := by
    have row := resembles.memory.registers
    refine Array.toList_inj.mp (List.forall₂_eq_eq_eq ▸ row.imp fun r r' one => ?_)
    obtain ⟨name, contents⟩ := r
    obtain ⟨name', contents'⟩ := r'
    obtain ⟨rfl, same⟩ := one
    exact congrArg (Register.mk name) (eq_of_resembles same)
  stack := by
    have items : left.memory.stack.items = right.memory.stack.items :=
      Array.toList_inj.mp (List.forall₂_eq_eq_eq ▸ resembles.memory.stack.imp fun _ _ => eq_of_resembles)
    have pushes := resembles.memory.pushes
    have maxDepth := resembles.memory.maxDepth
    generalize left.memory.stack = stack at *
    generalize right.memory.stack = stack' at *
    cases stack
    cases stack'
    simp_all
  position := resembles.position
  flag := resembles.flag
  statistics := resembles.statistics
  free := resembles.memory.heap.free
  pairs := resembles.memory.heap.active

/-- Contents that a run cannot tell apart: the same, or a reference to a pair
each. -/
def Interchangeable (c d : Contents) : Prop :=
  c = d ∨ c.holdsPair ∧ d.holdsPair

/-- At the start of a run pairs are forgotten, so it does not matter which
pairs two registers held. -/
theorem forgetPair_resembles {register register' : Register} (names : register.name = register'.name)
    (interchangeable : Interchangeable register.contents register'.contents) :
    (forgetPair register).Resembles False (forgetPair register') := by
  refine ⟨by rw [forgetPair_name, forgetPair_name, names], ?_⟩
  rcases interchangeable with same | ⟨pair, pair'⟩
  · obtain ⟨name, contents⟩ := register
    obtain ⟨name', contents'⟩ := register'
    dsimp only at names same
    subst names same
    exact .same _
  · rw [forgetPair_of_holdsPair pair, forgetPair_of_holdsPair pair']
    exact .same _

/-- Runs are isolated from what came before them. Two machines built alike,
whose registers hold the same or both a reference to a pair, go the same way
and cannot be told apart afterwards. Their heaps, stacks, positions, flags,
counters and logs may have been different in any way, since every slot is
written before it is read, also in the collections on the way. -/
theorem start_isolated (builtLeft : left.BuiltAs build) (builtRight : right.BuiltAs build)
    (held : ∀ index, Interchangeable (left.memory.contents index) (right.memory.contents index)) (fuel : Nat) :
    (left.start fuel).1 = (right.start fuel).1 ∧ (left.start fuel).2.Indistinct (right.start fuel).2 := by
  have registers : List.Forall₂ (Register.Resembles False) left.prepare.memory.registers.toList
      right.prepare.memory.registers.toList := by
    simp only [prepare, Array.toList_map, List.forall₂_map_left_iff, List.forall₂_map_right_iff]
    have names : left.memory.registers.toList.map Register.name = right.memory.registers.toList.map Register.name :=
      builtLeft.memory.names.trans builtRight.memory.names.symm
    have length : left.memory.registers.toList.length = right.memory.registers.toList.length := by
      simpa using congrArg List.length names
    refine List.forall₂_iff_get.mpr ⟨length, fun index inLeft inRight => forgetPair_resembles ?_ ?_⟩
    · have named := congrArg (·[index]?) names
      simpa [List.getElem?_eq_getElem inLeft, List.getElem?_eq_getElem inRight] using named
    · have same := held index
      simpa only [Memory.contents, ← Array.getElem?_toList, List.getElem?_eq_getElem inLeft,
        List.getElem?_eq_getElem inRight, List.get_eq_getElem] using same
  rcases builtLeft.start_same builtRight registers fuel with ⟨same, resembles⟩ | ⟨_, _, impossible, _⟩
  · exact ⟨same, resembles.indistinct⟩
  · exact impossible.elim

/-- A controller that puts one pair after the other into a register. -/
def filling : Controller :=
  [.label "again", .assign "place" [.operation "pair", .constant .null, .constant .null],
    .goto (.label "again")]

/-- Whether a machine is left with a pair in its one register, after so many
collections. -/
def leftFilled (collections : Nat) (machine : Machine) : Bool :=
  machine.memory.heap.statistics.collections == collections &&
    machine.memory.registers.toList.map (fun register => register.contents.holdsPair) == [true]

theorem interchangeable_of_leftFilled {collections collections' : Nat}
    (filledLeft : left.leftFilled collections) (filledRight : right.leftFilled collections') (index : Nat) :
    Interchangeable (left.memory.contents index) (right.memory.contents index) := by
  simp only [leftFilled, Bool.and_eq_true, beq_iff_eq, List.map_eq_singleton_iff] at filledLeft filledRight
  obtain ⟨_, register, listed, pair⟩ := filledLeft
  obtain ⟨_, register', listed', pair'⟩ := filledRight
  simp only [Memory.contents, ← Array.getElem?_toList, listed, listed']
  cases index with
  | zero => exact .inr ⟨pair, pair'⟩
  | succ index => exact .inl rfl

/-- What two runs of different length leave of one machine, the longer one after
collections: the regions are worn in different ways, and the register holds
different pairs. -/
theorem start_filling_isolated :
    ∃ machine build, BuiltAs build machine ∧ (machine.start 2).2.leftFilled 0 ∧ (machine.start 9).2.leftFilled 3 ∧
      ∀ fuel, ((machine.start 2).2.start fuel).1 = ((machine.start 9).2.start fuel).1 ∧
        ((machine.start 2).2.start fuel).2.Indistinct ((machine.start 9).2.start fuel).2 := by
  have works : (make ["place"] OperationTable.evaluator filling).toOption.any fun machine =>
      ((machine.configure ⟨2, false⟩).start 2).2.leftFilled 0 &&
        ((machine.configure ⟨2, false⟩).start 9).2.leftFilled 3 := by
    decide +kernel
  obtain ⟨made, _, filled⟩ := Read.exists_of_any works
  obtain ⟨filledEarly, filledLate⟩ := Bool.and_eq_true_iff.mp filled
  have built : BuiltAs ⟨⟨made.memory.program, made.memory.operations, made.registerNames, 2⟩, made.code⟩
      (made.configure ⟨2, false⟩) := by
    refine ⟨⟨rfl, rfl, rfl⟩, ⟨rfl, ?_, ?_⟩, rfl⟩
    · simp [configure, resizeHeap, PairHeap.resize, PairHeap.empty, Region.blank]
    · simp [configure, resizeHeap, PairHeap.resize, PairHeap.empty, Region.blank]
  exact ⟨_, _, built, filledEarly, filledLate, fun fuel =>
    start_isolated (built.start 2) (built.start 9) (interchangeable_of_leftFilled filledEarly filledLate) fuel⟩

end Machine

end ExplicitControl
