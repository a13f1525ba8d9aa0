import ExplicitControl.Proofs.Evaluator.Account
import ExplicitControl.Proofs.Memory.Quiet

namespace ExplicitControl

namespace Machine

variable {α β : Type} {machine after : Machine}

theorem bind_eq_ok_iff {x : Step α} {f : α → Step β} {b : β} :
    (x >>= f) machine = .ok b after ↔ ∃ a between, x machine = .ok a between ∧ f a between = .ok b after := by
  change EStateM.bind x f machine = _ ↔ _
  unfold EStateM.bind
  cases x machine with
  | ok a between => simp
  | error cause failed => simp

theorem onMemory_eq_ok_iff {action : Action α} {a : α} :
    onMemory action machine = .ok a after ↔
      ∃ memory, action machine.memory = .ok a memory ∧ after = { machine with memory } := by
  obtain ⟨memory, code, position, flag, trace, executed⟩ := machine
  simp only [onMemory]
  cases action memory with
  | ok value memory => simp [eq_comm, and_comm]
  | error cause memory => simp

end Machine

namespace Evaluator

/-- What a machine shows between two instructions: its registers, the stack
with its top first, its pairs, the flag and the position, where nothing is
collected. -/
structure Scene where
  registers : Nat → Contents
  stack : List Contents
  heap : Cells
  flag : Bool
  position : Nat

/-- The place of a path without the marks on the way. -/
def Config.scene (c : Config) (position : Nat) : Scene :=
  ⟨c.registers, c.stack, c.heap, c.flag, position⟩

/-- What an input of an instruction is. -/
def Scene.input (s : Scene) : Input → Contents
  | .constant value => .pointer value
  | .register index => s.registers index

/-- The inputs of an instruction are pointers. -/
abbrev Scene.Supplies (s : Scene) (inputs : List Input) (ps : List Pointer) : Prop :=
  List.Forall₂ (fun input p => s.input input = .pointer p) inputs ps

/-- A machine with the registers of the evaluator that has collected nothing
shows a scene. -/
structure Shows (program : ProgramHeap) (s : Scene) (machine : Machine) : Prop where
  position : machine.position = s.position
  flag : machine.flag = s.flag
  count : machine.memory.registers.size = Evaluator.registers.length
  registers : ∀ index, machine.memory.contents index = s.registers index
  stack : machine.memory.stack.items.toList.reverse = s.stack
  memory : machine.memory.Bears program table s.heap

variable {program : ProgramHeap} {s s' : Scene} {machine machine' : Machine} {index target : Nat}

theorem Stands.shows {c : Config} {position : Nat} (stands : Stands program c position machine) :
    Shows program (c.scene position) machine :=
  ⟨stands.position, stands.flag, stands.count, stands.registers, stands.stack, stands.memory⟩

namespace Shows

/-- A machine shows one scene, so what is known of the scene is known of the
machine. -/
theorem unique (one : Shows program s machine) (other : Shows program s' machine) : s = s' := by
  have registers : s.registers = s'.registers :=
    funext fun index => (one.registers index).symm.trans (other.registers index)
  have heap : s.heap = s'.heap := one.memory.heap.unique other.memory.heap
  have stack : s.stack = s'.stack := one.stack.symm.trans other.stack
  have flag : s.flag = s'.flag := one.flag.symm.trans other.flag
  have position : s.position = s'.position := one.position.symm.trans other.position
  obtain ⟨_, _, _, _, _⟩ := s
  obtain ⟨_, _, _, _, _⟩ := s'
  simp_all

theorem setContents (shows : Shows program s machine) (inside : index < Evaluator.registers.length)
    (value : Contents) :
    Shows program { s with registers := write s.registers index value }
      { machine with memory := machine.memory.setContents index value } := by
  refine ⟨shows.position, shows.flag, ?_, fun k => ?_, shows.stack, shows.memory.heap, shows.memory.program,
    shows.memory.operations⟩
  · rw [← shows.count]
    simp only [Memory.setContents, Array.size_modify]
  · have held := shows.registers k
    simp only [Memory.contents, Memory.setContents, Array.getElem?_modify] at held ⊢
    by_cases same : index = k
    · subst same
      rw [write_self, if_pos rfl, Array.getElem?_eq_getElem (shows.count ▸ inside)]
      rfl
    · rw [write_of_ne (Ne.symm same), if_neg same]
      exact held

theorem advance (shows : Shows program s machine) :
    Shows program { s with position := s.position + 1 } { machine with position := machine.position + 1 } :=
  { shows with position := congrArg (· + 1) shows.position }

theorem supplies {inputs : List Input} {ps : List Pointer} {name : String} (shows : Shows program s machine)
    (read : Machine.operands machine.memory name inputs = .ok ps) : s.Supplies inputs ps := by
  induction inputs generalizing ps with
  | nil =>
    cases read
    exact .nil
  | cons input rest ih =>
    cases input with
    | constant value =>
      obtain ⟨others, readRest, same⟩ := Read.bind_eq_ok_iff.mp read
      cases same
      exact .cons rfl (ih readRest)
    | register index =>
      simp only [Machine.operands] at read
      cases held : machine.memory.contents index with
      | pointer p =>
        rw [held] at read
        obtain ⟨others, readRest, same⟩ := Read.bind_eq_ok_iff.mp read
        cases same
        exact .cons ((shows.registers index).symm.trans held) (ih readRest)
      | label position => rw [held] at read; cases read
      | unassigned => rw [held] at read; cases read

/-- An operation that was applied has been given pointers, and has left pairs
as it is known to. -/
theorem applied {operation : HeapOperation} {inputs : List Input} {value : Pointer} {after : Memory}
    {post : List Pointer → Pointer → Cells → Prop} (shows : Shows program s machine)
    (ran : Machine.apply (use operation inputs) machine.memory = .ok value after)
    (uncollected : after.heap.statistics.collections = 0)
    (brings : ∀ ps, s.Supplies inputs ps → Action.Brings program table
      (Operation.call operation.name (.addressAware operation) ps) s.heap
      fun applied cells => post ps applied.value cells) :
    ∃ ps cells, s.Supplies inputs ps ∧ post ps value cells ∧
      Shows program { s with heap := cells } { machine with memory := after } := by
  obtain ⟨ps, between, inspected, rest⟩ := Action.bind_eq_ok_iff.mp ran
  obtain ⟨read, rfl⟩ := Action.inspect_eq_ok_iff.mp inspected
  obtain ⟨applied, left, called, same⟩ := Action.bind_eq_ok_iff.mp rest
  cases same
  have supplies := shows.supplies read
  obtain ⟨cells, same, stores, holds⟩ := brings ps supplies _ applied _ shows.memory called uncollected
  refine ⟨ps, cells, supplies, holds, ?_⟩
  rw [same]
  exact { shows with memory := shows.memory.withHeap stores }

end Shows

/-- An instruction was carried out on a machine that shows a scene, and left
one that shows the next. -/
def Moves (program : ProgramHeap) (code : Code) (s s' : Scene) : Prop :=
  ∃ machine machine', Shows program s machine ∧ Machine.execute code machine = .ok () machine' ∧
    Shows program s' machine'

namespace Moves

theorem goto {label : Nat} (moves : Moves program (.goto label) s s') : s' = { s with position := label } := by
  obtain ⟨machine, machine', shows, executed, shows'⟩ := moves
  cases executed
  exact shows'.unique { shows with position := rfl }

theorem branch {label : Nat} (moves : Moves program (.branch label) s s') :
    s' = { s with position := if s.flag then label else s.position + 1 } := by
  obtain ⟨machine, machine', shows, executed, shows'⟩ := moves
  change (if machine.flag then Machine.jump label else Machine.advance : Machine.Step Unit) machine = _ at executed
  rw [shows.flag] at executed
  split at executed <;> rename_i isTaken
  · cases executed
    rw [if_pos isTaken]
    exact shows'.unique { shows with position := rfl }
  · cases executed
    rw [if_neg isTaken]
    exact shows'.unique shows.advance

theorem gotoRegister (moves : Moves program (.gotoRegister index) s s') :
    ∃ label, s.registers index = .label label ∧ s' = { s with position := label } := by
  obtain ⟨machine, machine', shows, executed, shows'⟩ := moves
  obtain ⟨label, between, read, jumped⟩ := Machine.bind_eq_ok_iff.mp executed
  obtain ⟨memory, inspected, rfl⟩ := Machine.onMemory_eq_ok_iff.mp read
  obtain ⟨found, rfl⟩ := Action.inspect_eq_ok_iff.mp inspected
  cases jumped
  refine ⟨label, ?_, shows'.unique { shows with position := rfl }⟩
  rw [← shows.registers index]
  simp only [Machine.destination] at found
  cases held : machine.memory.contents index with
  | label position =>
    rw [held] at found
    cases found
    rfl
  | pointer p => rw [held] at found; cases found
  | unassigned => rw [held] at found; cases found

theorem save (moves : Moves program (.save index) s s') :
    s' = { s with stack := s.registers index :: s.stack, position := s.position + 1 } := by
  obtain ⟨machine, machine', shows, executed, shows'⟩ := moves
  cases executed
  refine shows'.unique { shows.advance with stack := ?_, memory := { shows.memory with } }
  simp only [Stack.push, Array.toList_push, List.reverse_append, List.reverse_singleton, shows.stack,
    shows.registers]
  rfl

theorem restore (inside : target < Evaluator.registers.length) (moves : Moves program (.restore target) s s') :
    ∃ value rest, s.stack = value :: rest ∧
      s' = { s with registers := write s.registers target value, stack := rest, position := s.position + 1 } := by
  obtain ⟨machine, machine', shows, executed, shows'⟩ := moves
  obtain ⟨_, between, ran, advanced⟩ := Machine.bind_eq_ok_iff.mp executed
  obtain ⟨memory, restored, rfl⟩ := Machine.onMemory_eq_ok_iff.mp ran
  cases advanced
  simp only [Machine.restore] at restored
  cases top : machine.memory.stack.top? with
  | none => rw [top] at restored; cases restored
  | some value =>
    simp only [top] at restored
    cases restored
    have items : machine.memory.stack.items.toList = machine.memory.stack.items.toList.dropLast ++ [value] := by
      rw [Stack.top?, ← Array.getLast?_toList] at top
      exact (List.dropLast_append_getLast? value top).symm
    have split : s.stack = value :: machine.memory.stack.items.toList.dropLast.reverse := by
      rw [← shows.stack, items, List.reverse_append]
      simp
    refine ⟨value, _, split, shows'.unique ?_⟩
    have popped : Shows program { s with stack := machine.memory.stack.items.toList.dropLast.reverse }
        { machine with memory := { machine.memory with stack := machine.memory.stack.pop } } := by
      refine { shows with stack := ?_, memory := { shows.memory with } }
      simp only [Stack.pop, Array.toList_pop]
    exact (popped.setContents inside value).advance

section

variable (inside : target < Evaluator.registers.length)
include inside

theorem assignRegister (moves : Moves program (.assign target (.register index)) s s') :
    s' = { s with registers := write s.registers target (s.registers index), position := s.position + 1 } := by
  obtain ⟨machine, machine', shows, executed, shows'⟩ := moves
  cases executed
  rw [← shows.registers index]
  exact shows'.unique (shows.setContents inside _).advance

theorem assignConstant {value : Pointer} (moves : Moves program (.assign target (.constant value)) s s') :
    s' = { s with registers := write s.registers target (.pointer value), position := s.position + 1 } := by
  obtain ⟨machine, machine', shows, executed, shows'⟩ := moves
  cases executed
  exact shows'.unique (shows.setContents inside _).advance

theorem assignLabel {label : Nat} (moves : Moves program (.assign target (.label label)) s s') :
    s' = { s with registers := write s.registers target (.label label), position := s.position + 1 } := by
  obtain ⟨machine, machine', shows, executed, shows'⟩ := moves
  cases executed
  exact shows'.unique (shows.setContents inside _).advance

end

theorem clearStack (moves : Moves program (act .clearStack []) s s') :
    s' = { s with stack := [], position := s.position + 1 } := by
  obtain ⟨machine, machine', shows, executed, shows'⟩ := moves
  cases executed
  refine shows'.unique { shows.advance with stack := rfl, memory := { shows.memory with } }

section

variable {operation : HeapOperation} {inputs : List Input} (post : List Pointer → Pointer → Cells → Prop)
  (brings : ∀ ps, s.Supplies inputs ps → Action.Brings program table
    (Operation.call operation.name (.addressAware operation) ps) s.heap
    fun applied cells => post ps applied.value cells)
include brings

theorem put (inside : target < Evaluator.registers.length)
    (moves : Moves program (.assign target (.application (use operation inputs))) s s') :
    ∃ ps value cells, s.Supplies inputs ps ∧ post ps value cells ∧
      s' = { s with
        registers := write s.registers target (.pointer value)
        heap := cells
        position := s.position + 1 } := by
  obtain ⟨machine, machine', shows, executed, shows'⟩ := moves
  obtain ⟨contents, between, ran, rest⟩ := Machine.bind_eq_ok_iff.mp executed
  obtain ⟨memory, evaluated, rfl⟩ := Machine.onMemory_eq_ok_iff.mp ran
  obtain ⟨value, left, applied, same⟩ := Action.bind_eq_ok_iff.mp evaluated
  cases same
  cases rest
  obtain ⟨ps, cells, supplies, holds, shown⟩ := shows.applied applied shows'.memory.heap.uncollected brings
  exact ⟨ps, value, cells, supplies, holds, shows'.unique (shown.setContents inside _).advance⟩

theorem act (moves : Moves program (.perform (use operation inputs)) s s') :
    ∃ ps value cells, s.Supplies inputs ps ∧ post ps value cells ∧
      s' = { s with heap := cells, position := s.position + 1 } := by
  obtain ⟨machine, machine', shows, executed, shows'⟩ := moves
  obtain ⟨value, between, ran, rest⟩ := Machine.bind_eq_ok_iff.mp executed
  obtain ⟨memory, applied, rfl⟩ := Machine.onMemory_eq_ok_iff.mp ran
  cases rest
  obtain ⟨ps, cells, supplies, holds, shown⟩ := shows.applied applied shows'.memory.heap.uncollected brings
  exact ⟨ps, value, cells, supplies, holds, shows'.unique shown.advance⟩

theorem ask (moves : Moves program (.test (use operation inputs)) s s') :
    ∃ ps flag cells, s.Supplies inputs ps ∧ post ps (.bool flag) cells ∧
      s' = { s with heap := cells, flag := flag, position := s.position + 1 } := by
  obtain ⟨machine, machine', shows, executed, shows'⟩ := moves
  obtain ⟨value, between, ran, rest⟩ := Machine.bind_eq_ok_iff.mp executed
  obtain ⟨memory, applied, rfl⟩ := Machine.onMemory_eq_ok_iff.mp ran
  have isBool : ∃ flag, value = .bool flag := by
    cases value with
    | scalar value =>
      cases value with
      | bool flag => exact ⟨flag, rfl⟩
      | _ => cases rest
    | pair a => cases rest
    | program a => cases rest
  obtain ⟨flag, rfl⟩ := isBool
  cases rest
  obtain ⟨ps, cells, supplies, holds, shown⟩ := shows.applied applied shows'.memory.heap.uncollected brings
  exact ⟨ps, flag, cells, supplies, holds, shows'.unique { shown.advance with flag := rfl }⟩

end

end Moves

/-- The scenes of a run, from the first one on. -/
structure Unfolds (program : ProgramHeap) (count : Nat) (scenes : Nat → Scene) : Prop where
  first : scenes 0 = ⟨fun _ => .unassigned, [], [], false, 0⟩
  moves : ∀ i < count, ∃ code, listing[(scenes i).position]? = some code ∧
    Moves program code (scenes i) (scenes (i + 1))

/-- The scenes along a path. -/
def scenesOf (path : Nat → Config × Nat) (i : Nat) : Scene :=
  (path i).1.scene (path i).2

/-- With room enough a machine goes through the scenes of a path one by one. -/
theorem unfolds_of_ticks {layout : Layout} {path : Nat → Config × Nat} {count : Nat}
    (ticks : ∀ i < count, Ticks layout (path i) (path (i + 1)))
    (start : path 0 = (⟨fun _ => .unassigned, [], [], false⟩, 0))
    (roomy : ∀ bound, ∃ machine, Stands layout.program (path 0).1 (path 0).2 machine ∧
      bound ≤ machine.memory.heap.capacity) : Unfolds layout.program count (scenesOf path) := by
  obtain ⟨bound, along⟩ := exists_visits ticks
  obtain ⟨machine, stands, room⟩ := roomy bound
  have along := along machine stands room
  refine ⟨by rw [scenesOf, start]; rfl, fun i before => ?_⟩
  obtain ⟨here, visits, standsHere, _⟩ := along i before.le
  obtain ⟨next, visitsNext, standsNext, _⟩ := along (i + 1) before
  obtain ⟨here', instruction, visits', found, stepped⟩ := visitsNext.exists_last
  rw [← visits.unique visits'] at found stepped
  rw [Machine.step_eq] at stepped
  have code : listing[(path i).2]? = some instruction.code := by
    rw [← standsHere.code, ← standsHere.position, List.getElem?_map, Array.getElem?_toList]
    exact congrArg (Option.map _) found
  cases executed : Machine.execute instruction.code (here.traced instruction) with
  | error cause failed =>
    rw [executed] at stepped
    cases stepped
  | ok value after =>
    rw [executed] at stepped
    cases stepped
    exact ⟨_, code, _, after, (standsHere.traced instruction).1.shows, executed, { standsNext.shows with }⟩

/-- Every run goes beside one that collects nothing, which unfolds scene by
scene. -/
theorem exists_unfolding {settings : Settings} {tree : Tree} {count : Nat} {machine : Machine}
    (visits : Visits settings tree count machine) :
    ∃ layout path link, Account (Visits settings tree) count layout path link ∧
      Unfolds (ProgramHeap.install {} tree).2 count (scenesOf path) := by
  obtain ⟨made, isMade⟩ := make_ok
  obtain ⟨layout, path, link, account, program, start⟩ := exists_account_from_start visits
  refine ⟨layout, path, link, account, ?_⟩
  rw [← program]
  refine unfolds_of_ticks account.ticks start fun bound => ⟨started (made.configure ⟨bound, false⟩) tree, ?_, ?_⟩
  · rw [start, program]
    exact (fresh_of_make isMade).stands _ tree _
  · exact Nat.le_refl bound

end Evaluator

end ExplicitControl
