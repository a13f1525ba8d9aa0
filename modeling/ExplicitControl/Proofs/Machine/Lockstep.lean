import ExplicitControl.Machine.Run
import ExplicitControl.Proofs.Operation.Lockstep

namespace ExplicitControl

open Memory

/-- No constant among the inputs refers to a run-time pair. -/
def Application.Pairless (application : Application) : Prop :=
  ∀ value, .constant value ∈ application.inputs → value.Below 0

@[inherit_doc Application.Pairless]
def Source.Pairless : Source → Prop
  | .constant value => value.Below 0
  | .application value => value.Pairless
  | _ => True

@[inherit_doc Application.Pairless]
def Code.Pairless : Code → Prop
  | .assign _ source => source.Pairless
  | .test application => application.Pairless
  | .perform application => application.Pairless
  | _ => True

namespace Memory.Twin

variable {ρ : Nat → Nat → Prop} {left right : Memory} {c d : Contents}

theorem contents (twin : Twin ρ left right) (index : Nat) :
    (left.contents index).Matches ρ (right.contents index) := by
  have row := twin.matched.registers
  simp only [Memory.contents, ← Array.getElem?_toList]
  generalize left.registers.toList = xs at row
  generalize right.registers.toList = ys at row
  induction row generalizing index with
  | nil => exact .unassigned
  | cons first _ ih =>
    cases index with
    | zero => exact first.contents
    | succ index => exact ih index

theorem registerName (twin : Twin ρ left right) (index : Nat) :
    left.registerName index = right.registerName index := by
  have row := twin.matched.registers
  simp only [Memory.registerName, ← Array.getElem?_toList]
  generalize left.registers.toList = xs at row
  generalize right.registers.toList = ys at row
  induction row generalizing index with
  | nil => rfl
  | cons first _ ih =>
    cases index with
    | zero => exact first.name
    | succ index => exact ih index

theorem top? (twin : Twin ρ left right) :
    left.stack.top? = none ∧ right.stack.top? = none ∨
      ∃ c d, left.stack.top? = some c ∧ right.stack.top? = some d ∧ c.Matches ρ d := by
  have row := List.rel_reverse twin.matched.stack
  simp only [Stack.top?, ← Array.getLast?_toList, List.getLast?_eq_head?_reverse]
  generalize left.stack.items.toList.reverse = xs at row
  generalize right.stack.items.toList.reverse = ys at row
  cases row with
  | nil => exact .inl ⟨rfl, rfl⟩
  | cons first _ => exact .inr ⟨_, _, rfl, rfl, first⟩

end Memory.Twin

namespace Memory.Kin

variable {o : Origin} {ρ : Nat → Nat → Prop} {left right : Memory} {c d : Contents}

theorem setContents (kin : Kin o ρ left right) (index : Nat) (matched : c.Matches ρ d) :
    Kin o ρ (left.setContents index c) (right.setContents index d) := by
  refine kin.refit { kin.matched with registers := ?_ } rfl rfl rfl rfl
  have row := kin.matched.registers
  simp only [Memory.setContents, Array.toList_modify]
  generalize left.registers.toList = xs at row
  generalize right.registers.toList = ys at row
  induction row generalizing index with
  | nil => simp
  | cons first rest ih =>
    cases index with
    | zero => exact .cons ⟨first.name, matched⟩ rest
    | succ index => exact .cons first (ih index)

theorem recordLeft (kin : Kin o ρ left right) (event : Event) : Kin o ρ (left.record event) right :=
  kin.refit { kin.matched with } rfl rfl rfl rfl

theorem recordRight (kin : Kin o ρ left right) (event : Event) : Kin o ρ left (right.record event) :=
  kin.refit { kin.matched with } rfl rfl rfl rfl

theorem push (kin : Kin o ρ left right) (matched : c.Matches ρ d) :
    Kin o ρ { left with stack := left.stack.push c } { right with stack := right.stack.push d } := by
  refine kin.refit ?_ rfl rfl rfl rfl
  have depth : left.stack.items.size = right.stack.items.size := by
    simpa using kin.matched.stack.length_eq
  exact { kin.matched with
    stack := by
      simp only [Stack.push, Array.toList_push]
      exact List.rel_append kin.matched.stack (.cons matched .nil)
    pushes := congrArg (· + 1) kin.matched.pushes
    maxDepth := by simp only [Stack.push, kin.matched.maxDepth, depth] }

theorem pop (kin : Kin o ρ left right) :
    Kin o ρ { left with stack := left.stack.pop } { right with stack := right.stack.pop } := by
  refine kin.refit { kin.matched with stack := ?_ } rfl rfl rfl rfl
  have row := kin.matched.stack
  simp only [Stack.pop, Array.toList_pop, List.dropLast_eq_take, row.length_eq]
  exact List.forall₂_take _ row

end Memory.Kin

namespace Machine

section

variable {ρ : Nat → Nat → Prop} {left right : Memory}

theorem operands_tied (name : String) (twin : Memory.Twin ρ left right) {inputs : List Input}
    (pairless : ∀ value, .constant value ∈ inputs → value.Below 0) :
    Read.Tied (Rows ρ) (operands left name inputs) (operands right name inputs) := by
  induction inputs with
  | nil => exact .ok .nil
  | cons input rest ih =>
    have others := ih fun value member => pairless value (List.mem_cons_of_mem _ member)
    cases input with
    | constant value =>
      refine others.bind fun _ _ rows => .ok (.cons ?_ rows)
      exact .refl_of_below (pairless value (List.mem_cons_self ..))
    | register index =>
      have held := twin.contents index
      simp only [operands, twin.registerName index]
      generalize left.contents index = c at held
      generalize right.contents index = d at held
      cases held with
      | unassigned => exact .error (.refl _) id
      | label position => exact .error (.refl _) id
      | pointer inner => exact others.bind fun _ _ rows => .ok (.cons inner rows)

/-- An operation applied in twin memories ends alike in both and leaves them
twins, whatever is collected on either side, unless the left has too little
room. -/
theorem apply_tied {application : Application} (pairless : application.Pairless)
    (twin : Memory.Twin ρ left right) :
    Action.Tied (Keeps (origin ρ left right) Pointers) (apply application left) (apply application right) := by
  simp only [apply]
  refine (Action.Tied.inspect (operands_tied application.name twin pairless) twin.tallies).bind ?_
  rintro inputs _ inputs' _ ⟨rfl, rfl, rows⟩
  refine (application.operation.call_tied application.name twin rows).bind ?_
  rintro applied l applied' r ⟨σ, kin, matched⟩
  exact .ok ⟨σ, kin, matched⟩

theorem evaluate_tied {source : Source} (pairless : source.Pairless)
    (twin : Memory.Twin ρ left right) :
    Action.Tied (Keeps (origin ρ left right) fun σ c d => c.Matches σ d) (evaluate source left)
      (evaluate source right) := by
  cases source with
  | register index => exact .ok ⟨ρ, twin.kin, twin.contents index⟩
  | constant value => exact .ok ⟨ρ, twin.kin, .pointer (.refl_of_below pairless)⟩
  | label position => exact .ok ⟨ρ, twin.kin, .label position⟩
  | application application =>
    refine (apply_tied pairless twin).bind ?_
    rintro value l value' r ⟨σ, kin, matched⟩
    exact .ok ⟨σ, kin, .pointer matched⟩

theorem restore_tied (index : Nat) (twin : Memory.Twin ρ left right) :
    Action.Tied (Keeps (origin ρ left right) fun _ _ _ => True) (restore index left) (restore index right) := by
  simp only [restore]
  rcases twin.top? with ⟨empty, empty'⟩ | ⟨c, d, top, top', matched⟩
  · rw [empty, empty', twin.registerName index]
    exact .error (.refl _) id twin.tallies
  · rw [top, top']
    exact .ok ⟨ρ, twin.kin.pop.setContents index matched, trivial⟩

theorem destination_tied (index : Nat) (twin : Memory.Twin ρ left right) :
    Read.Tied Eq (destination left index) (destination right index) := by
  have held := twin.contents index
  simp only [destination, twin.registerName index]
  generalize left.contents index = c at held
  generalize right.contents index = d at held
  cases held with
  | unassigned => exact .error (.refl _) id
  | label position => exact .ok rfl
  | pointer inner =>
    refine .error (.addresses ?_) id
    simp only [Error.rename, MachineError.rename, (Contents.Matches.pointer inner).rename_zero]

end

/-- Machines with the same controller at the same place, in twin memories.
They carry out the same instructions until the one on the left runs out of
room or both end. -/
structure Twin (ρ : Nat → Nat → Prop) (left right : Machine) : Prop where
  memory : Memory.Twin ρ left.memory right.memory
  code : left.code = right.code
  pairless : ∀ instruction ∈ left.code.toList, instruction.code.Pairless
  position : left.position = right.position
  flag : left.flag = right.flag
  executed : left.executed = right.executed

/-- The memories of two machines as an origin. -/
abbrev origin (ρ : Nat → Nat → Prop) (left right : Machine) : Origin :=
  Memory.origin ρ left.memory right.memory

/-- Twin machines that have come from an origin. -/
structure Kin (o : Origin) (ρ : Nat → Nat → Prop) (left right : Machine) : Prop extends
    Twin ρ left right where
  kin : Memory.Kin o ρ left.memory right.memory

/-- Machines that count the same instructions, pushes, depth and allocations. -/
structure Tallies (left right : Machine) : Prop where
  memory : left.memory.Tallies right.memory
  executed : left.executed = right.executed

/-- What a step leaves in two machines belongs together. -/
abbrev Tied {α β : Type} (post : α → Machine → β → Machine → Prop) :
    EStateM.Result Error Machine α → EStateM.Result Error Machine β → Prop :=
  Run.Tied Tallies post

variable {ρ : Nat → Nat → Prop} {left right : Machine}

theorem Twin.tallies (twin : Twin ρ left right) : left.Tallies right :=
  ⟨twin.memory.tallies, twin.executed⟩

theorem Twin.origin (twin : Twin ρ left right) : Kin (origin ρ left right) ρ left right :=
  ⟨twin, twin.memory.kin⟩

section

variable {o : Origin}

/-- An action on memories that is tied is tied as a step of machines, since it
leaves their controllers and places alone. -/
theorem Twin.onMemory {α β : Type} {rel : (Nat → Nat → Prop) → α → β → Prop} {x : Action α}
    {y : Action β} (twin : Twin ρ left right)
    (tied : Action.Tied (Keeps o rel) (x left.memory) (y right.memory)) :
    Tied (fun a l b r => ∃ σ, Kin o σ l r ∧ rel σ a b) (Machine.onMemory x left)
      (Machine.onMemory y right) := by
  obtain ⟨leftMemory, code, position, flag, trace, executed⟩ := left
  obtain ⟨rightMemory, code', position', flag', trace', executed'⟩ := right
  simp only [Machine.onMemory]
  dsimp only at tied
  generalize x leftMemory = result at tied
  generalize y rightMemory = result' at tied
  cases tied with
  | ok kept =>
    obtain ⟨σ, memory, related⟩ := kept
    exact .ok ⟨σ, ⟨{ twin with memory := memory.toTwin }, memory⟩, related⟩
  | error alike safe tallies => exact .error alike safe ⟨tallies, twin.executed⟩
  | exhausted exhausts => exact .exhausted exhausts

theorem Kin.jump (kin : Kin o ρ left right) (target : Nat) :
    Tied (fun _ l _ r => ∃ σ, Kin o σ l r) (Machine.jump target left) (Machine.jump target right) :=
  .ok ⟨ρ, { kin with position := rfl }⟩

theorem Kin.advance (kin : Kin o ρ left right) :
    Tied (fun _ l _ r => ∃ σ, Kin o σ l r) (Machine.advance left) (Machine.advance right) :=
  .ok ⟨ρ, { kin with position := congrArg (· + 1) kin.position }⟩

end

/-- An instruction carried out on twin machines ends alike in both and leaves
twins, given that no constant in it refers to a run-time pair. -/
theorem execute_tied {code : Code} (pairless : code.Pairless) (twin : Twin ρ left right) :
    Tied (fun _ l _ r => ∃ σ, Kin (origin ρ left right) σ l r) (execute code left) (execute code right) := by
  cases code with
  | assign target source =>
    refine (twin.onMemory (evaluate_tied pairless twin.memory)).bind ?_
    rintro value l value' r ⟨σ, kin, matched⟩
    have assigned : Action.Tied (Keeps (origin ρ left right) fun _ _ _ => True) (assign target value l.memory)
        (assign target value' r.memory) := .ok ⟨σ, kin.kin.setContents target matched, trivial⟩
    refine (kin.onMemory assigned).bind ?_
    rintro _ l _ r ⟨σ, kin, _⟩
    exact kin.advance
  | test application =>
    refine (twin.onMemory (apply_tied pairless twin.memory)).bind ?_
    rintro value l value' r ⟨σ, kin, matched⟩
    cases matched with
    | program address => exact .error (.refl _) id kin.tallies
    | pair related => exact .error (.addresses rfl) id kin.tallies
    | scalar value =>
      cases value with
      | bool flag => exact .ok ⟨σ, { kin with flag := rfl, position := congrArg (· + 1) kin.position }⟩
      | _ => exact .error (.refl _) id kin.tallies
  | branch target =>
    change Tied _ ((if left.flag then jump target else advance : Step Unit) left)
      ((if right.flag then jump target else advance : Step Unit) right)
    rw [twin.flag]
    split
    · exact twin.origin.jump target
    · exact twin.origin.advance
  | goto target => exact twin.origin.jump target
  | gotoRegister index =>
    have found : Action.Tied (Keeps (origin ρ left right) fun _ => Eq)
        (Action.inspect (destination · index) left.memory)
        (Action.inspect (destination · index) right.memory) :=
      (Action.Tied.inspect (destination_tied index twin.memory) twin.memory.tallies).mono
        fun _ _ _ _ ⟨sameLeft, sameRight, same⟩ => ⟨ρ, sameLeft ▸ sameRight ▸ twin.memory.kin, same⟩
    refine (twin.onMemory found).bind ?_
    rintro target l _ r ⟨σ, kin, rfl⟩
    exact kin.jump target
  | save index =>
    have saved : Action.Tied (Keeps (origin ρ left right) fun _ _ _ => True) (save index left.memory)
        (save index right.memory) :=
      .ok ⟨ρ, twin.memory.kin.push (twin.memory.contents index), trivial⟩
    refine (twin.onMemory saved).bind ?_
    rintro _ l _ r ⟨σ, kin, _⟩
    exact kin.advance
  | restore index =>
    refine (twin.onMemory (restore_tied index twin.memory)).bind ?_
    rintro _ l _ r ⟨σ, kin, _⟩
    exact kin.advance
  | perform application =>
    refine (twin.onMemory (apply_tied pairless twin.memory)).bind ?_
    rintro _ l _ r ⟨σ, kin, _⟩
    exact kin.advance

theorem Twin.recordLeft (twin : Twin ρ left right) (event : Event) :
    Twin ρ (left.record event) right :=
  { twin with memory := (twin.memory.kin.recordLeft event).toTwin }

theorem Twin.recordRight (twin : Twin ρ left right) (event : Event) :
    Twin ρ left (right.record event) :=
  { twin with memory := (twin.memory.kin.recordRight event).toTwin }

theorem Tallies.record (tallies : left.Tallies right) (event event' : Event) :
    (left.record event).Tallies (right.record event') :=
  ⟨⟨tallies.memory.pushes, tallies.memory.maxDepth, tallies.memory.allocated⟩, tallies.executed⟩

/-- The machine with an instruction logged, if that is wanted. -/
def traced (instruction : BoundInstruction) (machine : Machine) : Machine :=
  if machine.trace then machine.record (.executing machine.position instruction.text) else machine

theorem traced_heap (instruction : BoundInstruction) (machine : Machine) :
    (machine.traced instruction).memory.heap = machine.memory.heap := by
  unfold traced
  split <;> rfl

theorem step_eq (instruction : BoundInstruction) (machine : Machine) :
    machine.step instruction =
      match execute instruction.code (machine.traced instruction) with
      | .ok () machine => .ok () machine.count
      | .error cause machine =>
        .error cause (machine.record (.halted machine.position instruction.text cause)) := rfl

theorem Twin.traced (twin : Twin ρ left right) (instruction : BoundInstruction) :
    Twin ρ (left.traced instruction) (right.traced instruction) := by
  have leftTraced : Twin ρ (left.traced instruction) right := by
    unfold Machine.traced
    split
    · exact twin.recordLeft _
    · exact twin
  generalize left.traced instruction = machine at leftTraced
  unfold Machine.traced
  split
  · exact leftTraced.recordRight _
  · exact leftTraced

/-- One step of twin machines leaves twins, with the same count of
instructions. -/
theorem step_tied {instruction : BoundInstruction} (pairless : instruction.code.Pairless)
    (twin : Twin ρ left right) :
    Tied (fun _ l _ r => ∃ σ, Kin (origin ρ left right) σ l r) (step instruction left)
      (step instruction right) := by
  have tied := execute_tied pairless (twin.traced instruction)
  simp only [origin, Memory.origin, traced_heap] at tied
  rw [step_eq, step_eq]
  generalize execute instruction.code (left.traced instruction) = result at tied
  generalize execute instruction.code (right.traced instruction) = result' at tied
  cases tied with
  | ok kept =>
    obtain ⟨σ, kin⟩ := kept
    exact .ok ⟨σ, { kin with executed := congrArg (· + 1) kin.executed }⟩
  | error alike safe tallies => exact .error alike safe (tallies.record _ _)
  | exhausted exhausts => exact .exhausted exhausts

/-- How two runs end together: after as many instructions, with twin machines
or with errors that are alike. Nothing is said where the one on the left runs
out of room. -/
inductive Ends : Outcome Unit × Machine → Outcome Unit × Machine → Prop
  | unfinished {ρ : Nat → Nat → Prop} {left right : Machine} : Twin ρ left right →
      Ends (.unfinished, left) (.unfinished, right)
  | done {ρ : Nat → Nat → Prop} {left right : Machine} : Twin ρ left right →
      Ends (.done (), left) (.done (), right)
  | failed {e e' : Error} {left right : Machine} : e.Alike e' → ¬ e.Dangles → left.Tallies right →
      Ends (.failed e, left) (.failed e', right)
  | exhausted {e : Error} {left : Machine} {result : Outcome Unit × Machine} : e.Exhausts →
      Ends (.failed e, left) result

/-- Twin machines end together: neither goes on while the other has ended, and
where both fail they fail alike, the left for want of room apart. -/
theorem runFuel_ends (fuel : Nat) (twin : Twin ρ left right) :
    Ends (left.runFuel fuel) (right.runFuel fuel) := by
  induction fuel generalizing ρ left right with
  | zero => exact .unfinished twin
  | succ fuel ih =>
    have fetched : left.current? = right.current? := by
      simp only [current?, twin.code, twin.position]
    simp only [runFuel, ← fetched]
    cases found : left.current? with
    | none => exact .done ((twin.recordLeft _).recordRight _)
    | some instruction =>
      dsimp only
      have member : instruction ∈ left.code.toList := by
        simp only [current?] at found
        exact Array.mem_toList_iff.mpr (Array.mem_of_getElem? found)
      have tied := step_tied (twin.pairless instruction member) twin
      generalize step instruction left = result at tied
      generalize step instruction right = result' at tied
      cases tied with
      | ok kept =>
        obtain ⟨σ, kin⟩ := kept
        exact ih kin.toTwin
      | error alike safe tallies => exact .failed alike safe tallies
      | exhausted exhausts => exact .exhausted exhausts

section

variable {machine : Machine}

/-- A run that has ended is not changed by more fuel. -/
theorem runFuel_add {fuel : Nat} (ended : (machine.runFuel fuel).1 ≠ .unfinished) (more : Nat) :
    machine.runFuel (fuel + more) = machine.runFuel fuel := by
  induction fuel generalizing machine with
  | zero => exact absurd rfl ended
  | succ fuel ih =>
    rw [Nat.add_right_comm]
    simp only [runFuel] at ended ⊢
    cases found : machine.current? with
    | none => rfl
    | some instruction =>
      simp only [found] at ended ⊢
      cases stepped : machine.step instruction with
      | error cause failed => rfl
      | ok value next =>
        simp only [stepped] at ended ⊢
        exact ih ended

/-- Two runs of a machine that have ended are the same, however much fuel each
of them was given. -/
theorem runFuel_unique {fuel fuel' : Nat} (ended : (machine.runFuel fuel).1 ≠ .unfinished)
    (ended' : (machine.runFuel fuel').1 ≠ .unfinished) : machine.runFuel fuel = machine.runFuel fuel' := by
  rw [← runFuel_add ended fuel', ← runFuel_add ended' fuel, Nat.add_comm]

end

end Machine

end ExplicitControl
