import ExplicitControl.Operation.Call
import ExplicitControl.Proofs.Memory.Allotment
import ExplicitControl.Proofs.Operation.Frames

namespace ExplicitControl

/-- A reading comes to something good, or fails for one of some causes. -/
inductive Read.Meets {α : Type} (good : α → Prop) (bad : Error → Prop) : Except Error α → Prop
  | ok {a : α} : good a → Meets good bad (.ok a)
  | error {cause : Error} : bad cause → Meets good bad (.error cause)

namespace Read.Meets

variable {α β : Type} {good : α → Prop} {good' : β → Prop} {bad : Error → Prop}

theorem bind {x : Except Error α} {f : α → Except Error β} (first : Meets good bad x)
    (next : ∀ a, good a → Meets good' bad (f a)) : Meets good' bad (x >>= f) := by
  cases first with
  | ok holds => exact next _ holds
  | error cause => exact .error cause

theorem mono {good' : α → Prop} {x : Except Error α} (meets : Meets good bad x) (weaker : ∀ a, good a → good' a) :
    Meets good' bad x := by
  cases meets with
  | ok holds => exact .ok (weaker _ holds)
  | error cause => exact .error cause

theorem of_error {x : Except Error α} (meets : Meets good bad x) {cause : Error} (failed : x = .error cause) :
    bad cause := by
  subst failed
  cases meets with
  | error cause => exact cause

theorem of_ok {x : Except Error α} (meets : Meets good bad x) {a : α} (read : x = .ok a) : good a := by
  subst read
  cases meets with
  | ok holds => exact holds

theorem foldlM {f : α → β → Except Error α} {items : List β}
    (step : ∀ a b, good a → good' b → Meets good bad (f a b)) (each : ∀ b ∈ items, good' b) {a : α} (start : good a) :
    Meets good bad (items.foldlM f a) := by
  induction items generalizing a with
  | nil => exact .ok start
  | cons item rest ih =>
    obtain ⟨first, others⟩ := List.forall_mem_cons.mp each
    rw [List.foldlM_cons]
    exact (step a item start first).bind fun a' next => ih others next

variable {head tail : Pointer → Except Error Pointer} {good good' : Pointer → Prop} {p start : Pointer}

theorem listItems (heads : ∀ p, good p → Meets good' bad (head p)) (tails : ∀ p, good p → Meets good bad (tail p))
    (endless : bad (.machine (.endless start))) (fuel : Nat) (holds : good p) :
    Meets (fun items => ∀ item ∈ items, good' item) bad (listItems head tail start fuel p) := by
  induction fuel generalizing p with
  | zero => exact .error endless
  | succ fuel ih =>
    simp only [ExplicitControl.listItems]
    split
    · exact .ok (fun _ member => by cases member)
    · refine (heads p holds).bind fun item isItem => (tails p holds).bind fun rest isRest => ?_
      exact (ih isRest).bind fun items areItems => .ok (List.forall_mem_cons.mpr ⟨isItem, areItems⟩)

theorem listRef (heads : ∀ p, good p → Meets good' bad (head p)) (tails : ∀ p, good p → Meets good bad (tail p))
    (index : Nat) (holds : good p) : Meets good' bad (listRef head tail p index) := by
  induction index generalizing p with
  | zero => exact heads p holds
  | succ index ih => exact (tails p holds).bind fun rest isRest => ih isRest

end Read.Meets

/-- What was read is no list as it should be. -/
def Error.Misread : Error → Prop
  | .value (.notPair _) => True
  | .machine (.endless _) => True
  | _ => False

theorem Error.Misread.not_heap {cause : Error} (misread : cause.Misread) (fault : HeapError) :
    cause ≠ .heap fault := by
  rintro rfl
  exact misread

namespace Memory

open Read (Meets)

section

variable {memory : Memory} {p : Pointer} (closed : memory.Closed) (below : p.Below memory.heap.free)
include closed below

theorem Closed.head_meets : Meets (Pointer.Below memory.heap.free) Error.Misread (memory.head p) := by
  cases p with
  | pair a =>
    obtain ⟨head, tail, holds, headBelow, _⟩ := closed.heap.closed a below
    simp only [Memory.head, holds.head_eq]
    exact .ok headBelow
  | scalar value => exact .error trivial
  | program address => exact .error trivial

theorem Closed.tail_meets : Meets (Pointer.Below memory.heap.free) Error.Misread (memory.tail p) := by
  cases p with
  | pair a =>
    obtain ⟨head, tail, holds, _, tailBelow⟩ := closed.heap.closed a below
    simp only [Memory.tail, holds.tail_eq]
    exact .ok tailBelow
  | scalar value => exact .error trivial
  | program address => exact .error trivial

theorem Closed.item_meets (index : Nat) :
    Meets (Pointer.Below memory.heap.free) Error.Misread (memory.item p index) :=
  .listRef (fun _ => closed.head_meets) (fun _ => closed.tail_meets) index below

theorem Closed.lastPair_meets (start : Pointer) (fuel : Nat) :
    Meets (fun last => ∃ a, last = .pair a ∧ a < memory.heap.free) Error.Misread (memory.lastPair start fuel p) := by
  induction fuel generalizing p with
  | zero => exact .error trivial
  | succ fuel ih =>
    simp only [Memory.lastPair]
    cases read : memory.tail p with
    | error cause => exact .error ((closed.tail_meets below).of_error read)
    | ok rest =>
      simp only [bind, Except.bind]
      split
      · obtain ⟨isPair, inUse⟩ := address_lt read
        exact .ok ⟨_, isPair, inUse⟩
      · exact ih ((closed.tail_meets below).of_ok read)

end

end Memory

/-- What is read, whatever comes of it, never fails for lack of room. Lack of
room is the one failure that setting room aside is there to find out. -/
abbrev Read.Finds {α : Type} (x : Except Error α) : Prop :=
  Read.Meets (fun _ => True) (fun cause => ¬ cause.Exhausts) x

namespace PairHeap

variable {heap : PairHeap} {a capacity live : Nat}

theorem slot_ne_exhausted : heap.slot a ≠ .error (.exhausted capacity live) := by
  unfold slot
  split
  · cases heap.active[a]? <;> simp
  · simp

theorem head_ne_exhausted : heap.head a ≠ .error (.exhausted capacity live) := by
  unfold head
  cases found : heap.slot a with
  | ok slot =>
    obtain ⟨head, tail⟩ := slot
    cases head <;> nofun
  | error fault =>
    intro failed
    cases failed
    exact slot_ne_exhausted found

theorem tail_ne_exhausted : heap.tail a ≠ .error (.exhausted capacity live) := by
  unfold tail
  cases found : heap.slot a with
  | ok slot => nofun
  | error fault =>
    intro failed
    cases failed
    exact slot_ne_exhausted found

end PairHeap

namespace Memory

open Read (Meets Finds)

theorem finds_of_heap {x : Except HeapError Pointer} (never : ∀ capacity live, x ≠ .error (.exhausted capacity live)) :
    Finds (x.mapError .heap) := by
  cases x with
  | ok p => exact .ok trivial
  | error fault =>
    cases fault with
    | exhausted capacity live => exact absurd rfl (never capacity live)
    | fault space address limit => exact .error id
    | overrun slot size => exact .error id

variable (memory : Memory)

theorem head_finds (p : Pointer) : Finds (memory.head p) := by
  cases p with
  | pair a => exact finds_of_heap fun _ _ => PairHeap.head_ne_exhausted
  | scalar value => exact .error id
  | program address => exact .error id

theorem tail_finds (p : Pointer) : Finds (memory.tail p) := by
  cases p with
  | pair a => exact finds_of_heap fun _ _ => PairHeap.tail_ne_exhausted
  | scalar value => exact .error id
  | program address => exact .error id

theorem programHead_finds (p : Pointer) : Finds (memory.programHead p) := by
  cases p with
  | program address =>
    refine finds_of_heap fun capacity live => ?_
    unfold ProgramHeap.head ProgramHeap.cell
    cases memory.program.cells[address]? <;> nofun
  | scalar value => exact .error id
  | pair a => exact .error id

theorem programTail_finds (p : Pointer) : Finds (memory.programTail p) := by
  cases p with
  | program address =>
    refine finds_of_heap fun capacity live => ?_
    unfold ProgramHeap.tail ProgramHeap.cell
    cases memory.program.cells[address]? <;> nofun
  | scalar value => exact .error id
  | pair a => exact .error id

theorem item_finds (list : Pointer) (index : Nat) : Finds (memory.item list index) :=
  .listRef (fun p _ => memory.head_finds p) (fun p _ => memory.tail_finds p) index trivial

theorem programItem_finds (list : Pointer) (index : Nat) : Finds (memory.programItem list index) :=
  .listRef (fun p _ => memory.programHead_finds p) (fun p _ => memory.programTail_finds p) index trivial

theorem items_finds (list : Pointer) : Finds (memory.items list) :=
  (Meets.listItems (fun p _ => memory.head_finds p) (fun p _ => memory.tail_finds p) id _ trivial).mono
    fun _ _ => trivial

theorem programItems_finds (list : Pointer) : Finds (memory.programItems list) :=
  (Meets.listItems (fun p _ => memory.programHead_finds p) (fun p _ => memory.programTail_finds p) id _ trivial).mono
    fun _ _ => trivial

end Memory

namespace Environment

open Read (Meets Finds)

theorem addSymbol_finds (found : List Pointer) (symbol : Pointer) : Finds (addSymbol found symbol) := by
  unfold addSymbol
  split
  · exact .error id
  · exact .ok trivial

theorem checkCount_finds (expected got : Nat) : Finds (checkCount expected got) := by
  unfold checkCount
  split
  · exact .error id
  · split
    · exact .error id
    · exact .ok trivial

variable (memory : Memory)

theorem declaredNames_finds (body : Pointer) : Finds (declaredNames memory body) := by
  have scanned : Finds (statements memory body) := by
    unfold statements
    split
    · exact (memory.programItem_finds body 1).bind fun list _ => memory.programItems_finds list
    · exact .ok trivial
  refine scanned.bind fun items _ => .foldlM (fun found statement _ _ => ?_) (fun _ _ => trivial) trivial
  split
  · refine ((memory.programItem_finds statement 1).bind fun node _ => memory.programItem_finds node 1).bind ?_
    exact fun symbol _ => addSymbol_finds found symbol
  · exact .ok trivial

theorem parameterNames_finds (parameters : Pointer) : Finds (parameterNames memory parameters) := by
  refine (memory.programItems_finds parameters).bind fun nodes _ => .foldlM (fun found node _ _ => ?_)
    (fun _ _ => trivial) trivial
  exact (memory.programItem_finds node 1).bind fun symbol _ => addSymbol_finds found symbol

theorem callNames_finds (function arguments : Pointer) : Finds (callNames memory function arguments) := by
  refine (memory.item_finds function 1).bind fun parameters _ => (memory.item_finds function 2).bind fun body _ => ?_
  refine (parameterNames_finds memory parameters).bind fun names _ =>
    (memory.items_finds arguments).bind fun values _ => ?_
  refine (checkCount_finds _ _).bind fun _ _ => (declaredNames_finds memory body).bind fun declared _ => .ok trivial

/-- The names of a call can only be read if there are as many parameters as
arguments. -/
theorem callNames_counted {memory : Memory} {function arguments : Pointer} {names : List Pointer × List Pointer}
    (read : callNames memory function arguments = .ok names) :
    ∃ values, memory.items arguments = .ok values ∧ names.1.length = values.length := by
  obtain ⟨parameters, _, read⟩ := Read.bind_eq_ok_iff.mp read
  obtain ⟨body, _, read⟩ := Read.bind_eq_ok_iff.mp read
  obtain ⟨symbols, _, read⟩ := Read.bind_eq_ok_iff.mp read
  obtain ⟨values, listed, read⟩ := Read.bind_eq_ok_iff.mp read
  obtain ⟨_, counted, read⟩ := Read.bind_eq_ok_iff.mp read
  obtain ⟨declared, _, read⟩ := Read.bind_eq_ok_iff.mp read
  cases read
  exact ⟨values, listed, checkCount_eq counted⟩

end Environment

namespace PairHeap

/-- A cell that holds the value and the flag of a binding. -/
def Binds (heap : PairHeap) (cell : Pointer) (binding : Binding) : Prop :=
  ∃ a, cell = .pair a ∧ heap.Holds a binding.value binding.flag

/-- An environment: a frame with just these bindings, and the environment that
encloses it. -/
def Framed (heap : PairHeap) (p : Pointer) (bindings : List Binding) (enclosing : Pointer) : Prop :=
  ∃ a f names rows cells, p = .pair a ∧ heap.Holds a (.pair f) enclosing ∧ heap.Holds f names rows ∧
    heap.Lists names (bindings.map Binding.name) ∧ heap.Lists rows cells ∧ List.Forall₂ heap.Binds cells bindings

end PairHeap

namespace Action.Allots

open Environment (frameSize)

variable {memory : Memory}

theorem allocBindings (bindings : List Binding) :
    Allots (Environment.allocBindings bindings) memory bindings.length fun cells heap =>
      List.Forall₂ heap.Binds cells bindings := by
  induction bindings generalizing memory with
  | nil => exact .pure .nil
  | cons binding rest ih =>
    rw [List.length_cons, Nat.add_comm]
    refine (Allots.allocReserved _ _).bind fun cell heap enlarged ⟨a, isPair, holds⟩ => ?_
    refine ih.bind fun cells heap' enlarged' bound => .pure ?_
    exact .cons ⟨a, isPair, enlarged'.kept _ _ _ holds⟩ bound

theorem push (bindings : List Binding) (enclosing : Pointer) :
    Allots (Environment.push bindings enclosing) memory (frameSize bindings.length) fun p heap =>
      heap.Framed p bindings enclosing := by
  -- the values with their flags, the names, the bindings, the frame, and the link
  have parts : frameSize bindings.length
      = bindings.length + ((bindings.map Binding.name).length + (bindings.length + (1 + 1))) := by
    simp only [frameSize, List.length_map]
    omega
  rw [parts]
  refine (allocBindings bindings).bind fun rows heap _ bound => ?_
  refine (buildList _).bind fun names heap₁ enlarged₁ named => ?_
  rw [← bound.length_eq]
  refine (buildList rows).bind fun cells heap₂ enlarged₂ listed => ?_
  refine (Allots.allocReserved names cells).bind ?_
  rintro _ heap₃ enlarged₃ ⟨f, rfl, frame⟩
  refine (Allots.allocReserved (.pair f) enclosing).mono ?_
  rintro _ heap₄ enlarged₄ ⟨a, rfl, link⟩
  have kept₂ (a head tail) (holds : heap₂.Holds a head tail) : heap₄.Holds a head tail :=
    enlarged₄.kept _ _ _ (enlarged₃.kept _ _ _ holds)
  have kept₁ (a head tail) (holds : heap₁.Holds a head tail) : heap₄.Holds a head tail :=
    kept₂ _ _ _ (enlarged₂.kept _ _ _ holds)
  refine ⟨a, f, names, cells, rows, rfl, link, enlarged₄.kept _ _ _ frame, named.kept kept₁, listed.kept kept₂, ?_⟩
  refine bound.imp fun cell binding isBound => ?_
  obtain ⟨a, isCell, holds⟩ := isBound
  exact ⟨a, isCell, kept₁ _ _ _ (enlarged₁.kept _ _ _ holds)⟩

theorem allocPrimitives (names : List String) :
    Allots (Environment.allocPrimitives names) memory names.length fun bindings _ =>
      bindings.length = names.length := by
  induction names generalizing memory with
  | nil => exact .pure rfl
  | cons name rest ih =>
    rw [List.length_cons, Nat.add_comm]
    refine (Allots.allocReserved _ _).bind fun function heap _ _ => ih.bind fun bindings _ _ length => .pure ?_
    rw [List.length_cons, length, Nat.add_comm]

end Action.Allots

/-- What an action does with room for a number of pairs: it allocates so many,
or something that it reads turns out not to be as it should be. Nothing is
collected. -/
inductive Action.Spent {α : Type} (count : Nat) (granted : Memory) : EStateM.Result Error Memory α → Prop
  | ok {value : α} {final : Memory} :
      final.heap.statistics.allocated = granted.heap.statistics.allocated + count →
      final.heap.statistics.collections = granted.heap.statistics.collections → Spent count granted (.ok value final)
  | error {cause : Error} {final : Memory} : cause.Misread →
      final.heap.statistics.collections = granted.heap.statistics.collections →
        Spent count granted (.error cause final)

theorem Action.Allots.answer {α β : Type} {action : Action α} {f : α → β} {memory : Memory} {count : Nat}
    {post : α → PairHeap → Prop} (allots : Allots action memory count post) :
    Allots (do return f (← action)) memory count fun _ _ => True :=
  allots.bind fun _ _ _ _ => .pure trivial

theorem Action.Allots.spent {α : Type} {action : Action α} {memory : Memory} {count : Nat}
    (allots : Allots action memory count fun _ _ => True) (sized : memory.heap.Sized)
    (room : count ≤ memory.heap.available) :
    Spent count memory (action memory) := by
  obtain ⟨value, heap, ran, enlarged, _⟩ := allots sized room
  rw [ran]
  exact .ok enlarged.allocated enlarged.collections

namespace HeapOperation

/-- The operations that set room aside and then fill it. -/
def constructors : List HeapOperation :=
  [.globalEnvironment, .extendBlock, .extendCall, .makeCompound, .adjoinArgument, .makeReturn]

/-- The number of pairs that a constructor asks for, or why it does not come
to that: what has to be read before it can ask may be misshapen. -/
def demand (memory : Memory) (operation : HeapOperation) (operands : List Pointer) : Except Error Nat :=
  match operation, operands with
  | .globalEnvironment, [] => .ok 59
  | .extendBlock, [body, _] => do
    let names ← Environment.declaredNames memory body
    return 3 * names.length + 2
  | .extendCall, [function, arguments] => do
    let (parameters, locals) ← Environment.callNames memory function arguments
    return 3 * (parameters.length + locals.length) + 2
  | .makeCompound, [_, _, _] => .ok 4
  | .adjoinArgument, [_, _] => .ok 1
  | .makeReturn, [_] => .ok 1
  | operation, operands => .error (.machine (.operand operation.name (.arity operation.arity operands.length)))

/-- How a constructor comes to its end. It has not come to asking for room, it
has been refused, or it has been granted what it asked for; then it takes just
that, unless something else than room is missing. -/
inductive Course (operation : HeapOperation) (operands : List Pointer) (memory : Memory) :
    EStateM.Result Error Memory Applied → Prop
  | refused {cause : Error} : operation.demand memory operands = .error cause → ¬ cause.Exhausts →
      Course operation operands memory (.error cause memory)
  | short {count : Nat} {after : Memory} {moved : List Pointer} {cause : Error} :
      operation.demand memory operands = .ok count → memory.reserve count operands = ⟨after, moved, .error cause⟩ →
      Course operation operands memory (.error cause after)
  | spent {count : Nat} {after : Memory} {moved : List Pointer} {result : EStateM.Result Error Memory Applied} :
      operation.demand memory operands = .ok count → memory.reserve count operands = ⟨after, moved, .ok ()⟩ →
      Action.Spent count after result → Course operation operands memory result

variable {operation : HeapOperation} {operands : List Pointer} {memory : Memory}

/-- Once a constructor knows what to ask for, it is the room that decides. -/
theorem Course.of_reserve {count : Nat} {rest : List Pointer → Action Applied} (closed : memory.Closed)
    (below : ∀ p ∈ operands, p.Below memory.heap.free) (asked : operation.demand memory operands = .ok count)
    (spends : ∀ after moved, memory.Granted count operands after moved → Action.Spent count after (rest moved after)) :
    Course operation operands memory ((Action.reserve count operands >>= rest) memory) := by
  change Course operation operands memory (EStateM.bind (Action.reserve count operands) rest memory)
  rcases reserved : memory.reserve count operands with ⟨after, moved, outcome⟩
  cases outcome with
  | error cause =>
    simp only [EStateM.bind, Action.reserve, reserved]
    exact .short asked reserved
  | ok value =>
    simp only [EStateM.bind, Action.reserve, reserved]
    exact .spent asked reserved (spends after moved (closed.granted below reserved))

/-- What a call does, step by step: its names are read, room for the frame is
set aside, and function and arguments are taken from where they are then. -/
theorem run_extendCall (function arguments : Pointer) : HeapOperation.run .extendCall [function, arguments] = do
    let names ← Action.inspect fun memory => Environment.callNames memory function arguments
    let moved ← Action.reserve (Environment.frameSize (names.1.length + names.2.length)) [function, arguments]
    let values ← Action.inspect fun memory => memory.items (moved.getD 1 arguments)
    let closure ← Action.inspect fun memory => memory.item (moved.getD 0 function) 3
    return ⟨← Environment.push (List.zipWith Binding.mutable names.1 values ++ names.2.map Binding.declared) closure,
      moved⟩ := by
  simp only [HeapOperation.run, Environment.extendCall, bind_assoc, pure_bind]

section

variable (closed : memory.Closed) (below : ∀ p ∈ operands, p.Below memory.heap.free)
include closed below

theorem globalEnvironment_course (none : operands = []) :
    Course .globalEnvironment operands memory (HeapOperation.run .globalEnvironment operands memory) := by
  subst none
  have run : HeapOperation.run .globalEnvironment [] = do
      let _ ← Action.reserve 59 []
      let functions ← Environment.allocPrimitives Environment.primitiveNames
      let constants := Environment.constants.map fun entry => Binding.constant (.string entry.1) entry.2
      return ⟨← Environment.push (functions ++ constants) .null, []⟩ := by
    simp only [HeapOperation.run, Environment.global, bind_assoc]
    rfl
  rw [run]
  refine .of_reserve closed below rfl fun after moved granted => ?_
  refine Action.Allots.spent ?_ granted.closed.heap.toSized granted.room
  change Action.Allots _ after (Environment.primitiveNames.length + Environment.frameSize 15) fun _ _ => True
  refine (Action.Allots.allocPrimitives _).bind fun functions heap _ length => ?_
  have count : (functions ++ Environment.constants.map fun entry =>
      Binding.constant (.string entry.1) entry.2).length = 15 := by
    rw [List.length_append, length]
    rfl
  exact (count ▸ Action.Allots.push (functions ++ _) .null : Action.Allots _ _ (Environment.frameSize 15) _).answer

theorem makeReturn_course {value : Pointer} (one : operands = [value]) :
    Course .makeReturn operands memory (HeapOperation.run .makeReturn operands memory) := by
  subst one
  refine .of_reserve closed below rfl fun after moved granted => ?_
  exact (Action.Allots.allocReserved _ _).answer.spent granted.closed.heap.toSized granted.room

theorem makeCompound_course {parameters body environment : Pointer}
    (three : operands = [parameters, body, environment]) :
    Course .makeCompound operands memory (HeapOperation.run .makeCompound operands memory) := by
  subst three
  refine .of_reserve closed below rfl fun after moved granted => ?_
  obtain ⟨p, q, r, rfl⟩ := List.length_eq_three.mp granted.pending.length_eq.symm
  exact (Action.Allots.buildList [_, p, q, r]).answer.spent granted.closed.heap.toSized granted.room

theorem extendBlock_course {body environment : Pointer} (two : operands = [body, environment]) :
    Course .extendBlock operands memory (HeapOperation.run .extendBlock operands memory) := by
  subst two
  have run : HeapOperation.run .extendBlock [body, environment] = do
      let names ← Action.inspect fun memory => Environment.declaredNames memory body
      let moved ← Action.reserve (Environment.frameSize names.length) [body, environment]
      return ⟨← Environment.push (names.map Binding.declared) (moved.getD 1 environment), moved⟩ := by
    simp only [HeapOperation.run, Environment.extendBlock, bind_assoc, pure_bind]
  rw [run]
  cases read : Environment.declaredNames memory body with
  | error cause =>
    rw [Action.inspect_bind_error read]
    refine .refused ?_ ((Environment.declaredNames_finds memory body).of_error read)
    simp only [demand, read]
    rfl
  | ok names =>
    rw [Action.inspect_bind_ok read]
    refine .of_reserve closed below ?_ fun after moved granted => ?_
    · simp only [demand, read]
      rfl
    · have count : (names.map Binding.declared).length = names.length := List.length_map _
      exact (count ▸ Action.Allots.push _ _ : Action.Allots _ _ (Environment.frameSize names.length) _).answer.spent
        granted.closed.heap.toSized granted.room

theorem extendCall_course {function arguments : Pointer} (two : operands = [function, arguments]) :
    Course .extendCall operands memory (HeapOperation.run .extendCall operands memory) := by
  subst two
  rw [run_extendCall]
  cases read : Environment.callNames memory function arguments with
  | error cause =>
    rw [Action.inspect_bind_error read]
    refine .refused ?_ ((Environment.callNames_finds memory function arguments).of_error read)
    simp only [demand, read]
    rfl
  | ok names =>
    rw [Action.inspect_bind_ok read]
    refine .of_reserve closed below ?_ fun after moved granted => ?_
    · simp only [demand, read]
      rfl
    · obtain ⟨values, listed, counted⟩ := Environment.callNames_counted read
      obtain ⟨function', arguments', functionMoved, argumentsMoved, rfl⟩ := granted.two
      obtain ⟨values', listed', rows⟩ := granted.matched.heap.lists (Memory.lists_of_listItems listed) argumentsMoved
      have itemsRead : after.items arguments' = .ok values' := Memory.items_of_lists listed'
      rw [Action.inspect_bind_ok itemsRead]
      cases closureRead : after.item function' 3 with
      | error cause =>
        rw [Action.inspect_bind_error closureRead]
        exact .error ((granted.closed.item_meets (granted.below functionMoved) 3).of_error closureRead) rfl
      | ok closure =>
        rw [Action.inspect_bind_ok closureRead]
        have count : (List.zipWith Binding.mutable names.1 values' ++ names.2.map Binding.declared).length
            = names.1.length + names.2.length := by
          rw [List.length_append, List.length_zipWith, List.length_map, ← rows.length_eq, counted, Nat.min_self]
        exact (count ▸ Action.Allots.push _ closure : Action.Allots _ _ (Environment.frameSize (_ + _)) _).answer.spent
          granted.closed.heap.toSized granted.room

theorem adjoinArgument_course {value list : Pointer} (two : operands = [value, list]) :
    Course .adjoinArgument operands memory (HeapOperation.run .adjoinArgument operands memory) := by
  subst two
  refine .of_reserve closed below rfl fun after moved granted => ?_
  obtain ⟨value', list', valueMoved, listMoved, rfl⟩ := granted.two
  have allocated := Action.allocReserved_eq_grown granted.closed.heap.toSized granted.room value' .null
  have closed' : (after.withHeap (after.heap.grown value' .null)).Closed :=
    granted.closed.grown granted.room (granted.below valueMoved) trivial
  generalize grown : after.withHeap (after.heap.grown value' .null) = memory' at allocated closed'
  have counted : memory'.heap.statistics.allocated = after.heap.statistics.allocated + 1 := grown ▸ rfl
  have uncollected : memory'.heap.statistics.collections = after.heap.statistics.collections := grown ▸ rfl
  have free : memory'.heap.free = after.heap.free + 1 := grown ▸ rfl
  change Action.Spent 1 after (EStateM.bind (Action.allocReserved value' .null) _ after)
  simp only [EStateM.bind, allocated, List.getD_cons_succ, List.getD_cons_zero]
  split
  · exact .ok counted uncollected
  · have meets := closed'.lastPair_meets ((granted.below listMoved).mono (free ▸ Nat.le_succ _)) list'
      (memory'.heap.free + 1)
    cases read : memory'.lastPair list' (memory'.heap.free + 1) list' with
    | error cause =>
      rw [Action.inspect_bind_error read]
      exact .error (meets.of_error read) uncollected
    | ok last =>
      obtain ⟨a, rfl, lt⟩ := meets.of_ok read
      obtain ⟨head, tail, holds, _⟩ := closed'.heap.closed a lt
      rw [Action.inspect_bind_ok read]
      have linked : Action.setTail (.pair a) (.pair after.heap.free) memory'
          = .ok () (memory'.withHeap (memory'.heap.replaced a head (.pair after.heap.free))) := by
        simp only [Action.setTail, Action.onHeap, PairHeap.setTail_eq_replaced holds]
        rfl
      change Action.Spent 1 after (EStateM.bind (Action.setTail (.pair a) (.pair after.heap.free)) _ memory')
      simp only [EStateM.bind, linked]
      exact .ok counted uncollected

/-- With operands of the wrong number nothing is asked for. With the right
number of them each constructor comes to its end in its course, one lemma for
each. -/
theorem constructor_course (constructor : operation ∈ constructors) :
    Course operation operands memory (operation.run operands memory) := by
  simp only [constructors, List.mem_cons, List.not_mem_nil, or_false] at constructor
  rcases constructor with rfl | rfl | rfl | rfl | rfl | rfl
  · match operands with
    | [] => exact globalEnvironment_course closed below rfl
    | _ :: _ => exact .refused rfl id
  · match operands with
    | [_, _] => exact extendBlock_course closed below rfl
    | [] | [_] | _ :: _ :: _ :: _ => exact .refused rfl id
  · match operands with
    | [_, _] => exact extendCall_course closed below rfl
    | [] | [_] | _ :: _ :: _ :: _ => exact .refused rfl id
  · match operands with
    | [_, _, _] => exact makeCompound_course closed below rfl
    | [] | [_] | [_, _] | _ :: _ :: _ :: _ :: _ => exact .refused rfl id
  · match operands with
    | [_, _] => exact adjoinArgument_course closed below rfl
    | [] | [_] | _ :: _ :: _ :: _ => exact .refused rfl id
  · match operands with
    | [_] => exact makeReturn_course closed below rfl
    | [] | _ :: _ :: _ => exact .refused rfl id

namespace Course

variable {result : EStateM.Result Error Memory Applied} (course : Course operation operands memory result)
include course

theorem collections {final : Memory}
    (ended : (∃ applied, result = .ok applied final) ∨ ∃ cause, result = .error cause final) :
    final.heap.statistics.collections ≤ memory.heap.statistics.collections + 1 := by
  cases course with
  | refused asked other =>
    obtain ⟨_, same⟩ | ⟨_, same⟩ := ended <;> cases same
    exact Nat.le_succ _
  | short asked reserved =>
    obtain ⟨_, same⟩ | ⟨_, same⟩ := ended <;> cases same
    exact (closed.refused below reserved).1.le
  | spent asked reserved spent =>
    have collected := (closed.granted below reserved).collections
    obtain ⟨_, rfl⟩ | ⟨_, rfl⟩ := ended
    · cases spent with
      | ok allocated same => exact same ▸ collected
    · cases spent with
      | error misread same => exact same ▸ collected

omit closed below in
theorem misread {count : Nat} {after final : Memory} {moved : List Pointer} {cause : Error}
    (asked : operation.demand memory operands = .ok count)
    (reserved : memory.reserve count operands = ⟨after, moved, .ok ()⟩) (failed : result = .error cause final) :
    cause.Misread := by
  cases course with
  | refused asked' other =>
    rw [asked] at asked'
    cases asked'
  | short asked' reserved' =>
    rw [asked] at asked'
    cases asked'
    rw [reserved] at reserved'
    cases reserved'
  | spent asked' reserved' spent =>
    subst failed
    cases spent with
    | error misread same => exact misread

theorem allocated {applied : Applied} {final : Memory} (succeeded : result = .ok applied final) :
    ∃ count after moved, operation.demand memory operands = .ok count ∧
      memory.reserve count operands = ⟨after, moved, .ok ()⟩ ∧
      final.heap.statistics.allocated = memory.heap.statistics.allocated + count := by
  cases course with
  | refused asked other => cases succeeded
  | short asked reserved => cases succeeded
  | @spent count after moved _ asked reserved spent =>
    subst succeeded
    cases spent with
    | ok allocated same =>
      refine ⟨count, after, moved, asked, reserved, allocated.trans ?_⟩
      rw [(closed.granted below reserved).matched.allocated]

theorem exhausted {capacity live : Nat} {final : Memory}
    (failed : result = .error (.heap (.exhausted capacity live)) final) :
    ∃ count moved, operation.demand memory operands = .ok count ∧
      memory.reserve count operands = ⟨final, moved, .error (.heap (.exhausted capacity live))⟩ ∧
      final.heap.statistics.allocated = memory.heap.statistics.allocated ∧ memory.Isomorphic operands final moved := by
  cases course with
  | refused asked other =>
    cases failed
    exact absurd trivial other
  | @short count after moved _ asked reserved =>
    cases failed
    exact ⟨count, moved, asked, reserved, (closed.refused below reserved).2⟩
  | spent asked reserved spent =>
    subst failed
    cases spent with
    | error misread same => exact absurd rfl (misread.not_heap _)

end Course

end

/-- A constructor spends the room that it sets aside, no less and no more. -/
structure SpendsExactly (operation : HeapOperation) (operands : List Pointer) (memory : Memory) : Prop where
  /-- There is one collection at most. -/
  once : ∀ final, (∃ applied, operation.run operands memory = .ok applied final) ∨
      (∃ cause, operation.run operands memory = .error cause final) →
    final.heap.statistics.collections ≤ memory.heap.statistics.collections + 1
  /-- Once room has been set aside, no allocation fails; only a list may turn out
  not to be one. -/
  granted : ∀ count after moved, operation.demand memory operands = .ok count →
    memory.reserve count operands = ⟨after, moved, .ok ()⟩ →
    ∀ cause final, operation.run operands memory = .error cause final → cause.Misread
  /-- What succeeds has allocated as many pairs as it has set aside. -/
  spent : ∀ applied final, operation.run operands memory = .ok applied final →
    ∃ count after moved, operation.demand memory operands = .ok count ∧
      memory.reserve count operands = ⟨after, moved, .ok ()⟩ ∧
      final.heap.statistics.allocated = memory.heap.statistics.allocated + count
  /-- Room is refused where it is to be set aside, when no pair has been
  allocated or changed. -/
  exhausted : ∀ capacity live final,
    operation.run operands memory = .error (.heap (.exhausted capacity live)) final →
    ∃ count moved, operation.demand memory operands = .ok count ∧
      memory.reserve count operands = ⟨final, moved, .error (.heap (.exhausted capacity live))⟩ ∧
      final.heap.statistics.allocated = memory.heap.statistics.allocated ∧ memory.Isomorphic operands final moved

/-- Wherever no reference dangles, the constructors spend exactly what they
ask for. They collect once at most, and they have asked for all their pairs
before the first one is taken, so none is ever refused after some have been. -/
theorem constructor_spends_exactly (constructor : operation ∈ constructors) (closed : memory.Closed)
    (below : ∀ p ∈ operands, p.Below memory.heap.free) : operation.SpendsExactly operands memory := by
  have course := constructor_course closed below constructor
  exact {
    once := fun _ => course.collections closed below
    granted := fun _ _ _ asked reserved _ _ => course.misread asked reserved
    spent := fun _ _ => course.allocated closed below
    exhausted := fun _ _ _ => course.exhausted closed below }

/-- A full memory that has one pair to spare after a collection. -/
def crowded : Memory where
  heap :=
    { PairHeap.empty 3 with
      active := #[⟨.value .null, .null⟩, ⟨.value (.bool true), .null⟩, ⟨.value (.pair 1), .null⟩]
      free := 3 }
  registers := #[⟨"val", .pointer (.pair 2)⟩]
  stack := {}
  program := {}
  operations := .standard
  journal := #[]

/-- A returned value finds room there after one collection, which moves what it
returns. A function value does not: the collection leaves room for one of its
four pairs, and none is allocated. -/
theorem crowded_spends_exactly : crowded.Closed ∧
    HeapOperation.makeReturn.SpendsExactly [.pair 2] crowded ∧
    HeapOperation.makeCompound.SpendsExactly [.null, .null, .pair 2] crowded ∧
    (∃ final, HeapOperation.makeReturn.run [.pair 2] crowded = .ok ⟨.pair 2, [.pair 0]⟩ final ∧
      final.heap.statistics.collections = 1 ∧ final.heap.statistics.allocated = 1) ∧
    ∃ final, HeapOperation.makeCompound.run [.null, .null, .pair 2] crowded = .error (.heap (.exhausted 3 2)) final ∧
      final.heap.statistics.collections = 1 ∧ final.heap.statistics.allocated = 0 := by
  have closed : crowded.Closed := by
    refine ⟨⟨⟨rfl, by simp [crowded, PairHeap.empty, Region.blank], by decide⟩, ?_⟩, ?_, ?_⟩
    · exact PairHeap.check_eq_ok_iff.mp rfl
    · simp [crowded, Contents.Below, Pointer.Below]
    · simp [crowded]
  refine ⟨closed, constructor_spends_exactly (by decide) closed ?_, constructor_spends_exactly (by decide) closed ?_,
    ⟨_, rfl, rfl, rfl⟩, ⟨_, rfl, rfl, rfl⟩⟩
  · simp [crowded, Pointer.Below]
  · simp [crowded, Pointer.Below]

end HeapOperation

end ExplicitControl
