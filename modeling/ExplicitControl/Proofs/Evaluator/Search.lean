import ExplicitControl.Proofs.Evaluator.Environments
import ExplicitControl.Proofs.Evaluator.Reuse

namespace ExplicitControl

namespace PairHeap

/-- A chain of frames, each with its names and as many bindings. -/
inductive Chain (heap : PairHeap) : Pointer → List (List (Pointer × Pointer)) → Prop
  | nil : Chain heap .null []
  | cons {a f : Nat} {names bindings rest : Pointer} {entries : List (Pointer × Pointer)}
      {frames : List (List (Pointer × Pointer))} :
      heap.Holds a (.pair f) rest → heap.Holds f names bindings →
      heap.Lists names (entries.map Prod.fst) → heap.Lists bindings (entries.map Prod.snd) →
      Chain heap rest frames → Chain heap (.pair a) (entries :: frames)

end PairHeap

namespace Evaluator

open Listing

/-- What a name is bound to: by the first frame that has it, at its first place
there. -/
def binding? (frames : List (List (Pointer × Pointer))) (name : Pointer) : Option Pointer :=
  frames.findSome? fun entries => (entries.find? fun entry => entry.1 == name).map Prod.snd

/-- A machine with the code and the registers of the evaluator, in whatever
state. -/
def OfEvaluator (machine : Machine) : Prop :=
  ∃ made, Machine.make registers OperationTable.evaluator controller = .ok made ∧
    machine.code = made.code ∧ machine.registerNames = made.registerNames

/-- A machine is about to search an environment for a name, and to go on at a
label. -/
structure Searching (machine : Machine) (name : Pointer) (frames : List (List (Pointer × Pointer)))
    (label : Nat) : Prop where
  evaluator : OfEvaluator machine
  position : labelPosition? "find_binding" = some machine.position
  name : machine.contents "a" = .ok (.pointer name)
  environment : ∃ environment, machine.contents "b" = .ok (.pointer environment) ∧
    machine.memory.heap.Chain environment frames
  back : machine.contents "d" = .ok (.label label)

/-- Only the registers that a search works with have changed. -/
structure Spared (before after : Machine) : Prop where
  heap : after.memory.heap = before.memory.heap
  stack : after.memory.stack = before.memory.stack
  registers : ∀ register, register ∉ ["b", "c", "e", "res"] → after.contents register = before.contents register

theorem registerNames_of_make {made : Machine}
    (isMade : Machine.make registers OperationTable.evaluator controller = .ok made) :
    made.registerNames = registers := by
  obtain ⟨_, _, _, _, listed, _⟩ := Machine.make_cases isMade
  rw [Machine.registerNames, listed, List.map_map]
  exact List.map_id registers

theorem OfEvaluator.names {machine : Machine} (evaluator : OfEvaluator machine) :
    machine.registerNames = registers := by
  obtain ⟨made, isMade, -, same⟩ := evaluator
  exact same.trans (registerNames_of_make isMade)

theorem OfEvaluator.code {machine : Machine} (evaluator : OfEvaluator machine) :
    machine.code.toList.map BoundInstruction.code = listing := by
  obtain ⟨made, isMade, same, -⟩ := evaluator
  rw [same]
  exact (fresh_of_make isMade).code

theorem labelPosition_findBinding : labelPosition? "find_binding" = some Label.findBinding.position := by
  decide +kernel

/-- What a register holds, by its place among those of the evaluator. -/
theorem contents_eq {machine : Machine} (names : machine.registerNames = registers) (register : String) :
    machine.contents register =
      match registers.findIdx? fun listed => listed = register with
      | some index => .ok (machine.memory.contents index)
      | none => .error (.machine (.unknownRegister register)) := by
  unfold Machine.contents Machine.registerIndex
  rw [registerIndex_eq names]
  cases registers.findIdx? fun listed => listed = register <;> rfl

/-- A machine of the evaluator at a position, by what its registers hold, with
the heap and the stack of another one. -/
structure Keeps (origin : Machine) (r : Nat → Contents) (flag : Bool) (position : Nat) (machine : Machine) :
    Prop where
  code : machine.code.toList.map BoundInstruction.code = listing
  names : machine.registerNames = registers
  position : machine.position = position
  flag : machine.flag = flag
  contents : ∀ index, machine.memory.contents index = r index
  heap : machine.memory.heap = origin.memory.heap
  stack : machine.memory.stack = origin.memory.stack

variable {origin machine : Machine} {r : Nat → Contents} {flag : Bool} {position : Nat}

namespace Keeps

theorem setContents (keeps : Keeps origin r flag position machine) {index : Nat}
    (inside : index < registers.length) (value : Contents) :
    Keeps origin (write r index value) flag position
      { machine with memory := machine.memory.setContents index value } := by
  have count : machine.memory.registers.size = registers.length := by
    rw [← keeps.names, Machine.registerNames, List.length_map, Array.length_toList]
  refine { keeps with names := (names_setContents _ _ _).trans keeps.names, contents := fun k => ?_ }
  rw [contents_setContents (count ▸ inside), funext keeps.contents]

theorem moved (keeps : Keeps origin r flag position machine) (target : Nat) :
    Keeps origin r flag target { machine with position := target } :=
  { keeps with position := rfl }

theorem advanced (keeps : Keeps origin r flag position machine) :
    Keeps origin r flag (position + 1) { machine with position := machine.position + 1 } :=
  { keeps with position := congrArg (· + 1) keeps.position }

theorem flagged (keeps : Keeps origin r flag position machine) (value : Bool) :
    Keeps origin r value position { machine with flag := value } :=
  { keeps with flag := rfl }

theorem record (keeps : Keeps origin r flag position machine) (event : Event) :
    Keeps origin r flag position (machine.record event) :=
  { keeps with }

theorem traced (keeps : Keeps origin r flag position machine) (instruction : BoundInstruction) :
    Keeps origin r flag position (machine.traced instruction) := by
  unfold Machine.traced
  split
  · exact keeps.record _
  · exact keeps

theorem current? {code : Code} {codes : List Code} (keeps : Keeps origin r flag position machine)
    (follows : Follows position (code :: codes)) :
    ∃ instruction, machine.current? = some instruction ∧ instruction.code = code := by
  have here := follows.here
  rw [← keeps.code, List.getElem?_map, Array.getElem?_toList, ← keeps.position] at here
  exact Option.map_eq_some_iff.mp here

theorem operands (keeps : Keeps origin r flag position machine) (name : String) {inputs : List Nat}
    {ps : List Pointer} (held : List.Forall₂ (fun index p => r index = .pointer p) inputs ps) :
    Machine.operands machine.memory name (inputs.map .register) = .ok ps := by
  induction held with
  | nil => rfl
  | @cons index p rest ps' first _ ih =>
    simp only [List.map_cons, Machine.operands, (keeps.contents index).trans first, ih]
    rfl

end Keeps

/-- Where the heap is as given, an operation gives a value and changes nothing. -/
def Observes (heap : PairHeap) (operation : HeapOperation) (ps : List Pointer) (value : Pointer) : Prop :=
  ∀ memory : Memory, memory.heap = heap →
    ∃ operands, Operation.call operation.name (.addressAware operation) ps memory = .ok ⟨value, operands⟩ memory

namespace Observes

variable {heap : PairHeap} {operation : HeapOperation} {ps : List Pointer} {p q : Pointer} {a : Nat}

theorem identical (p q : Pointer) : Observes heap .identical [p, q] (.bool (p == q)) := by
  intro memory _
  rw [call_eq_run (by simp)]
  exact ⟨_, rfl⟩

theorem isNull (p : Pointer) : Observes heap (.isKind .null) [p] (.bool (PointerKind.null.test p)) := by
  intro memory _
  rw [call_eq_run (by simp)]
  exact ⟨_, rfl⟩

theorem read {f : Memory → Except Error Pointer} (direct : operation = .applyPrimitive → ps.length ≠ 2)
    (run : operation.run ps = do return ⟨← Action.inspect f, ps⟩)
    (read : ∀ memory : Memory, memory.heap = heap → f memory = .ok p) : Observes heap operation ps p := by
  intro memory same
  refine ⟨ps, ?_⟩
  rw [call_eq_run direct, run]
  change EStateM.bind (Action.inspect f) _ memory = _
  simp only [EStateM.bind, Action.inspect, read memory same]
  rfl

theorem head (holds : heap.Holds a p q) : Observes heap .head [.pair a] p := by
  refine .read (by simp) rfl ?_
  rintro memory rfl
  simp only [Memory.head, holds.head_eq]
  rfl

theorem tail (holds : heap.Holds a p q) : Observes heap .tail [.pair a] q := by
  refine .read (by simp) rfl ?_
  rintro memory rfl
  simp only [Memory.tail, holds.tail_eq]
  rfl

end Observes

theorem Keeps.apply (keeps : Keeps origin r flag position machine) {operation : HeapOperation} {inputs : List Nat}
    {ps : List Pointer} {p : Pointer} (held : List.Forall₂ (fun index p => r index = .pointer p) inputs ps)
    (observes : Observes origin.memory.heap operation ps p) :
    Machine.apply (use operation (inputs.map .register)) machine.memory = .ok p machine.memory := by
  obtain ⟨operands, ran⟩ := observes machine.memory keeps.heap
  change EStateM.bind (Action.inspect _) _ _ = _
  simp only [EStateM.bind, Action.inspect, keeps.operands _ held]
  change EStateM.bind (Operation.call operation.name (.addressAware operation) ps) _ _ = _
  simp only [EStateM.bind, ran]
  rfl

/-- From these instructions on the evaluator comes to an end of a kind. -/
def Ends (origin : Machine) (goal : Outcome Unit × Machine → Prop) (codes : List Code) (r : Nat → Contents)
    (flag : Bool) : Prop :=
  ∀ position machine, Follows position codes → Keeps origin r flag position machine →
    ∃ fuel, goal (machine.runFuel fuel)

variable {goal : Outcome Unit × Machine → Prop} {codes codes' : List Code} {operation : HeapOperation}
  {inputs : List Nat} {ps : List Pointer} {p q : Pointer}

namespace Ends

theorem mono {goal' : Outcome Unit × Machine → Prop} (ends : Ends origin goal codes r flag)
    (weaker : ∀ ended, goal ended → goal' ended) : Ends origin goal' codes r flag := by
  intro position machine follows keeps
  obtain ⟨fuel, ended⟩ := ends position machine follows keeps
  exact ⟨fuel, weaker _ ended⟩

/-- An instruction that is carried out brings the end one step closer. -/
theorem of_execute {code : Code} {r' : Nat → Contents} {flag' : Bool} (target : Nat → Nat)
    (runs : ∀ position machine, Keeps origin r flag position machine → ∃ machine',
      Machine.execute code machine = .ok () machine' ∧ Keeps origin r' flag' (target position) machine')
    (next : ∀ position machine, Follows position (code :: codes) → Keeps origin r' flag' (target position) machine →
      ∃ fuel, goal (machine.runFuel fuel)) : Ends origin goal (code :: codes) r flag := by
  intro position machine follows keeps
  obtain ⟨instruction, found, rfl⟩ := keeps.current? follows
  obtain ⟨machine', executed, keeps'⟩ := runs _ _ (keeps.traced instruction)
  have stepped : machine.step instruction = .ok () machine'.count := by
    rw [Machine.step_eq, executed]
  obtain ⟨fuel, ended⟩ := next position machine'.count follows { keeps' with }
  refine ⟨fuel + 1, ?_⟩
  simp only [Machine.runFuel, found, stepped]
  exact ended

theorem put {target : Nat} (inside : target < registers.length)
    (held : List.Forall₂ (fun index p => r index = .pointer p) inputs ps)
    (observes : Observes origin.memory.heap operation ps p)
    (next : Ends origin goal codes (write r target (.pointer p)) flag) :
    Ends origin goal (Evaluator.put target operation inputs :: codes) r flag := by
  refine .of_execute (· + 1) (fun position machine keeps => ?_)
    fun position machine follows keeps => next _ machine follows.next keeps
  refine ⟨_, ?_, (keeps.setContents inside (.pointer p)).advanced⟩
  have evaluated : Machine.evaluate (.application (use operation (inputs.map .register))) machine.memory
      = .ok (.pointer p) machine.memory := by
    change EStateM.bind (Machine.apply _) _ _ = _
    simp only [EStateM.bind, keeps.apply held observes]
    rfl
  change EStateM.bind (Machine.onMemory (Machine.evaluate _)) _ machine = _
  simp only [EStateM.bind, Machine.onMemory, evaluated]
  rfl

theorem ask {value : Bool} (held : List.Forall₂ (fun index p => r index = .pointer p) inputs ps)
    (observes : Observes origin.memory.heap operation ps (.bool value)) (next : Ends origin goal codes r value) :
    Ends origin goal (Evaluator.ask operation inputs :: codes) r flag := by
  refine .of_execute (· + 1) (fun position machine keeps => ?_)
    fun position machine follows keeps => next _ machine follows.next keeps
  refine ⟨_, ?_, (keeps.flagged value).advanced⟩
  change EStateM.bind (Machine.onMemory (Machine.apply _)) _ machine = _
  simp only [EStateM.bind, Machine.onMemory, keeps.apply held observes]
  rfl

theorem goto {label : Nat} (there : Follows label codes') (next : Ends origin goal codes' r flag) :
    Ends origin goal (.goto label :: codes) r flag :=
  .of_execute (fun _ => label) (fun _ _ keeps => ⟨_, rfl, keeps.moved _⟩)
    fun _ machine _ keeps => next _ machine there keeps

theorem branch_taken {label : Label} (next : Ends origin goal label.code r true) :
    Ends origin goal (.branch label.position :: codes) r true := by
  refine .of_execute (fun _ => label.position) (fun _ machine keeps => ?_)
    fun _ machine _ keeps => next _ machine label.follows keeps
  refine ⟨_, ?_, keeps.moved _⟩
  change (if machine.flag then Machine.jump _ else Machine.advance : Machine.Step Unit) machine = _
  rw [if_pos keeps.flag]
  rfl

theorem branch_passed {label : Label} (next : Ends origin goal codes r false) :
    Ends origin goal (.branch label.position :: codes) r false := by
  refine .of_execute (· + 1) (fun _ machine keeps => ?_)
    fun _ machine follows keeps => next _ machine follows.next keeps
  refine ⟨_, ?_, keeps.advanced⟩
  change (if machine.flag then Machine.jump _ else Machine.advance : Machine.Step Unit) machine = _
  rw [if_neg (by rw [keeps.flag]; exact Bool.false_ne_true)]
  rfl

/-- The search goes back to where it was asked to. -/
theorem gotoRegister {index label : Nat} (back : r index = .label label)
    (arrived : ∀ after, Keeps origin r flag label after → goal (.unfinished, after)) :
    Ends origin goal (.gotoRegister index :: codes) r flag := by
  refine .of_execute (fun _ => label) (fun _ machine keeps => ?_)
    fun _ machine _ keeps => ⟨0, arrived machine keeps⟩
  have found : Machine.destination machine.memory index = .ok label := by
    simp only [Machine.destination, keeps.contents, back]
  refine ⟨_, ?_, keeps.moved label⟩
  change EStateM.bind (Machine.onMemory _) _ machine = _
  simp only [EStateM.bind, Machine.onMemory, Action.inspect, found]
  rfl

/-- A search that finds nothing fails. -/
theorem unbound {index : Nat} (held : r index = .pointer p)
    (failed : ∀ position after, Keeps origin r flag position after →
      goal (.failed (.eval (.unboundName p)), after)) :
    Ends origin goal (act (.signal .unboundName) [index] :: codes) r flag := by
  intro position machine follows keeps
  obtain ⟨instruction, found, isSignal⟩ := keeps.current? follows
  have keeps' := keeps.traced instruction
  have applied : Machine.apply (use (.signal .unboundName) ([index].map .register)) (machine.traced instruction).memory
      = .error (.eval (.unboundName p)) (machine.traced instruction).memory := by
    change EStateM.bind (Action.inspect _) _ _ = _
    simp only [EStateM.bind, Action.inspect, keeps'.operands _ (.cons held .nil)]
    change EStateM.bind (Operation.call _ _ _) _ _ = _
    rw [call_eq_run (by simp)]
    rfl
  have executed : Machine.execute instruction.code (machine.traced instruction)
      = .error (.eval (.unboundName p)) (machine.traced instruction) := by
    rw [isSignal]
    change EStateM.bind (Machine.onMemory (Machine.apply _)) _ _ = _
    simp only [EStateM.bind, Machine.onMemory, applied]
  refine ⟨1, ?_⟩
  simp only [Machine.runFuel, found, Machine.step_eq, executed]
  exact failed position _ (keeps'.record _)

end Ends

/-- A search leaves the registers that it does not work with. -/
def Undisturbed (r r' : Nat → Contents) : Prop :=
  ∀ index, index ∉ [b, c, e, res] → r' index = r index

theorem Undisturbed.after {r r' r'' : Nat → Contents} (later : Undisturbed r' r'') (sooner : Undisturbed r r') :
    Undisturbed r r'' :=
  fun index other => (later index other).trans (sooner index other)

theorem Undisturbed.written {r r' : Nat → Contents} (undisturbed : Undisturbed r r') {target : Nat}
    (own : target ∈ [b, c, e, res]) (value : Contents) : Undisturbed r (write r' target value) := by
  intro index other
  have different : index ≠ target := fun same => other (same ▸ own)
  rw [write_of_ne different, undisturbed index other]

section

variable {label : Nat} (name : r a = .pointer p) (back : r d = .label label)
include name back

/-- The names of a frame are compared one by one, from the first one on. -/
theorem scan_ends {entries : List (Pointer × Pointer)} {names bindings : Pointer}
    (named : origin.memory.heap.Lists names (entries.map Prod.fst))
    (bound : origin.memory.heap.Lists bindings (entries.map Prod.snd))
    (left : r c = .pointer names) (right : r res = .pointer bindings)
    (found : ∀ entry r' flag after, entries.find? (fun entry => entry.1 == p) = some entry → Undisturbed r r' →
      r' res = .pointer entry.2 → Keeps origin r' flag label after → goal (.unfinished, after))
    (missing : ∀ r' flag, entries.find? (fun entry => entry.1 == p) = none → Undisturbed r r' → r' b = r b →
      Ends origin goal Label.nextFrame.code r' flag) :
    Ends origin goal Label.scan.code r flag := by
  induction entries generalizing r flag names bindings with
  | nil =>
    cases named
    exact .ask (.cons left .nil) (.isNull _) (.branch_taken (missing r true rfl (fun _ _ => rfl) rfl))
  | cons entry entries ih =>
    obtain _ | ⟨nameHeld, named⟩ := named
    obtain _ | ⟨bindingHeld, bound⟩ := bound
    refine .ask (.cons left .nil) (.isNull _) (.branch_passed ?_)
    refine .put (by decide) (.cons left .nil) (.head nameHeld) ?_
    refine .ask (.cons rfl (.cons name .nil)) (.identical _ _) ?_
    cases same : entry.1 == p with
    | true =>
      refine .branch_taken (.put (by decide) (.cons right .nil) (.head bindingHeld) ?_)
      refine .gotoRegister back fun after keeps => found entry _ _ after ?_ ?_ rfl keeps
      · simp only [List.find?_cons, same]
      · exact .written (.written (fun _ _ => rfl) (by decide) _) (by decide) _
    | false =>
      refine .branch_passed ?_
      refine .put (by decide) (.cons left .nil) (.tail nameHeld) ?_
      refine .put (by decide) (.cons right .nil) (.tail bindingHeld) (.goto (Label.follows .scan) ?_)
      have still (names bindings : Pointer) : Undisturbed r
          (write (write (write r e (.pointer entry.1)) c (.pointer names)) res (.pointer bindings)) :=
        .written (.written (.written (fun _ _ => rfl) (by decide) _) (by decide) _) (by decide) _
      refine ih name back named bound rfl rfl ?_ ?_
      · intro entry' r' flag' after isFound undisturbed
        refine found entry' r' flag' after ?_ (undisturbed.after (still _ _))
        simp only [List.find?_cons, same, isFound]
      · intro r' flag' isMissing undisturbed kept
        refine missing r' flag' ?_ (undisturbed.after (still _ _)) kept
        simp only [List.find?_cons, same, isMissing]

end

/-- What a search comes to. -/
def Found (origin : Machine) (frames : List (List (Pointer × Pointer))) (name : Pointer) (label : Nat)
    (r : Nat → Contents) : Outcome Unit × Machine → Prop := fun ended =>
  ∃ r' flag position, Keeps origin r' flag position ended.2 ∧ Undisturbed r r' ∧
    match binding? frames name with
    | some binding => ended.1 = .unfinished ∧ position = label ∧ r' res = .pointer binding
    | none => ended.1 = .failed (.eval (.unboundName name))

theorem Found.further {entries : List (Pointer × Pointer)} {frames : List (List (Pointer × Pointer))} {label : Nat}
    {r r' : Nat → Contents} {ended : Outcome Unit × Machine} (found : Found origin frames p label r' ended)
    (missing : entries.find? (fun entry => entry.1 == p) = none) (undisturbed : Undisturbed r r') :
    Found origin (entries :: frames) p label r ended := by
  have further : binding? (entries :: frames) p = binding? frames p := by
    simp only [binding?, List.findSome?_cons, missing, Option.map_none]
  obtain ⟨r'', flag, position, keeps, still, answer⟩ := found
  refine ⟨r'', flag, position, keeps, still.after undisturbed, ?_⟩
  rw [further]
  exact answer

/-- The frames of an environment are searched one after the other, from the
innermost one on. The induction is on the chain, with the scan of one frame
for its step. -/
theorem chain_ends {frames : List (List (Pointer × Pointer))} {environment : Pointer} {label : Nat}
    (chain : origin.memory.heap.Chain environment frames) (name : r a = .pointer p)
    (inner : r b = .pointer environment) (back : r d = .label label) :
    Ends origin (Found origin frames p label r) (Label.findBinding.code ++ Label.scan.code) r flag := by
  induction chain generalizing r flag with
  | nil =>
    refine .ask (.cons inner .nil) (.isNull _) (.branch_taken (.unbound name fun position after keeps => ?_))
    exact ⟨r, true, position, keeps, fun _ _ => rfl, rfl⟩
  | @cons address f names bindings rest entries frames link frame named bound _ ih =>
    refine .ask (.cons inner .nil) (.isNull _) (.branch_passed ?_)
    refine .put (by decide) (.cons inner .nil) (.head link) ?_
    refine .put (by decide) (.cons rfl .nil) (.tail frame) ?_
    refine .put (by decide) (.cons rfl .nil) (.head frame) ?_
    have entered : Undisturbed r (write (write (write r c (.pointer (.pair f))) res (.pointer bindings)) c
        (.pointer names)) :=
      .written (.written (.written (fun _ _ => rfl) (by decide) _) (by decide) _) (by decide) _
    refine scan_ends name back named bound rfl rfl ?_ ?_
    · intro entry r' flag' after isFound undisturbed held keeps
      have answer : binding? (entries :: frames) p = some entry.2 := by
        simp only [binding?, List.findSome?_cons, isFound, Option.map_some]
      refine ⟨r', flag', label, keeps, undisturbed.after entered, ?_⟩
      rw [answer]
      exact ⟨rfl, rfl, held⟩
    · intro r' flag' isMissing undisturbed kept
      refine .put (by decide) (.cons (kept.trans inner) .nil) (.tail link) ?_
      refine .goto (Label.follows_next .findBinding .scan rfl) ?_
      have still := (undisturbed.after entered).written (by decide : b ∈ [b, c, e, res]) (.pointer rest)
      refine (ih ((still a (by decide)).trans name) rfl ((still d (by decide)).trans back)).mono ?_
      exact fun ended found => found.further isMissing still

/-- The registers that a search works with, by their names. -/
theorem mem_of_index {register : String} {index : Nat}
    (listed : (registers.findIdx? fun listed => listed = register) = some index) (own : index ∈ [b, c, e, res]) :
    register ∈ ["b", "c", "e", "res"] := by
  obtain ⟨_, found, -⟩ := List.findIdx?_eq_some_iff_getElem.mp listed
  obtain rfl := of_decide_eq_true found
  simp only [List.mem_cons, List.not_mem_nil, or_false] at own
  rcases own with rfl | rfl | rfl | rfl <;> decide +revert

/-- The search for a name is the lookup of lexical scoping. From whatever state
of the machine it is entered, it comes to the label with the binding that the
innermost frame with the name has for it, or fails if there is no such frame;
and it changes neither the heap nor the stack, nor any register but those it
works with. -/
theorem search_finds_binding {name : Pointer} {frames : List (List (Pointer × Pointer))} {label : Nat}
    (searching : Searching machine name frames label) :
    match binding? frames name with
    | some binding => ∃ steps after, machine.Visits steps after ∧ after.position = label ∧
        after.contents "res" = .ok (.pointer binding) ∧ Spared machine after
    | none => ∃ fuel failed, machine.runFuel fuel = (.failed (.eval (.unboundName name)), failed) ∧
        Spared machine failed := by
  have names := searching.evaluator.names
  obtain ⟨environment, inner, chain⟩ := searching.environment
  have held (register : String) (index : Nat)
      (listed : (registers.findIdx? fun listed => listed = register) = some index) {value : Contents}
      (isHeld : machine.contents register = .ok value) : machine.memory.contents index = value := by
    rw [contents_eq names, listed] at isHeld
    exact Except.ok.inj isHeld
  have keeps : Keeps machine machine.memory.contents machine.flag Label.findBinding.position machine :=
    { code := searching.evaluator.code
      names := names
      position := (Option.some.inj (labelPosition_findBinding.symm.trans searching.position)).symm
      flag := rfl
      contents := fun _ => rfl
      heap := rfl
      stack := rfl }
  have ends : Ends machine _ _ _ machine.flag :=
    chain_ends chain (held "a" a rfl searching.name) (held "b" b rfl inner) (held "d" d rfl searching.back)
  obtain ⟨fuel, r, flag, position, keeps', undisturbed, answer⟩ :=
    ends _ machine (Label.follows_next .findBinding .scan rfl) keeps
  have spared : Spared machine (machine.runFuel fuel).2 := by
    refine ⟨keeps'.heap, keeps'.stack, fun register other => ?_⟩
    rw [contents_eq names, contents_eq keeps'.names]
    cases listed : registers.findIdx? fun listed => listed = register with
    | none => rfl
    | some index =>
      refine congrArg Except.ok ((keeps'.contents index).trans (undisturbed index fun own => other ?_))
      exact mem_of_index listed own
  cases result : binding? frames name with
  | some binding =>
    rw [result] at answer
    obtain ⟨unfinished, rfl, isBinding⟩ := answer
    refine ⟨fuel, _, Prod.ext unfinished rfl, keeps'.position, ?_, spared⟩
    rw [contents_eq keeps'.names]
    exact congrArg Except.ok ((keeps'.contents res).trans isBinding)
  | none =>
    rw [result] at answer
    exact ⟨fuel, _, Prod.ext answer rfl, spared⟩

/-- A heap with an environment of two frames, both of which have a binding for
`x`. -/
def shadowing : PairHeap :=
  { PairHeap.empty 9 with
    active := #[⟨.value .undefined, .bool true⟩, ⟨.value .null, .bool true⟩, ⟨.value (.string "x"), .null⟩,
      ⟨.value (.pair 0), .null⟩, ⟨.value (.pair 1), .null⟩, ⟨.value (.pair 2), .pair 4⟩, ⟨.value (.pair 5), .null⟩,
      ⟨.value (.pair 2), .pair 3⟩, ⟨.value (.pair 7), .pair 6⟩]
    free := 9 }

/-- A machine that is about to search this environment. -/
def searcher (made : Machine) (name : Pointer) : Machine :=
  let contents : String → Contents
    | "a" => .pointer name
    | "b" => .pointer (.pair 8)
    | "d" => .label Label.nameFound.position
    | _ => .unassigned
  { made with
    position := Label.findBinding.position
    memory :=
      { made.memory with
        heap := shadowing
        registers := (registers.map fun register => ⟨register, contents register⟩).toArray } }

/-- The inner one of two bindings is found, and a name that has none is
reported. -/
theorem search_finds_innermost :
    let frames : List (List (Pointer × Pointer)) := [[(.string "x", .pair 0)], [(.string "x", .pair 1)]]
    ∃ made, Machine.make registers OperationTable.evaluator controller = .ok made ∧
      (∀ name, Searching (searcher made name) name frames Label.nameFound.position) ∧
      (∃ steps after, (searcher made (.string "x")).Visits steps after ∧ after.position = Label.nameFound.position ∧
        after.contents "res" = .ok (.pointer (.pair 0)) ∧ Spared (searcher made (.string "x")) after) ∧
      ∃ fuel failed, (searcher made (.string "y")).runFuel fuel
        = (.failed (.eval (.unboundName (.string "y"))), failed) ∧ Spared (searcher made (.string "y")) failed := by
  intro frames
  obtain ⟨made, isMade⟩ := make_ok
  have holds (a : Nat) {slot : Slot} {p q : Pointer} (inside : a < 9) (found : shadowing.active[a]? = some slot)
      (isSlot : slot = ⟨.value p, q⟩) : shadowing.Holds a p q := ⟨inside, isSlot ▸ found⟩
  have chain : shadowing.Chain (.pair 8) frames :=
    .cons (holds 8 (by decide) rfl rfl) (holds 7 (by decide) rfl rfl) (.cons (holds 2 (by decide) rfl rfl) .nil)
      (.cons (holds 3 (by decide) rfl rfl) .nil)
      (.cons (holds 6 (by decide) rfl rfl) (holds 5 (by decide) rfl rfl) (.cons (holds 2 (by decide) rfl rfl) .nil)
        (.cons (holds 4 (by decide) rfl rfl) .nil) .nil)
  have searching (name : Pointer) : Searching (searcher made name) name frames Label.nameFound.position := by
    have names : (searcher made name).registerNames = registers := rfl
    refine ⟨⟨made, isMade, rfl, names.trans (registerNames_of_make isMade).symm⟩, labelPosition_findBinding,
      ?_, ⟨.pair 8, ?_, chain⟩, ?_⟩ <;>
    · rw [contents_eq names]
      rfl
  exact ⟨made, isMade, searching, search_finds_binding (searching (.string "x")),
    search_finds_binding (searching (.string "y"))⟩

end Evaluator

end ExplicitControl
