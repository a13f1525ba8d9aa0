import ExplicitControl.Proofs.Memory.Quiet
import ExplicitControl.Proofs.Operation.Lockstep

namespace ExplicitControl

/-- Every operation is one that machines start with or one that the evaluator
needs, so that a table can only hold these, under whatever names. -/
theorem OperationTable.exists_builtin (operation : Operation) :
    ∃ entry ∈ standard ++ evaluator, entry.2 = operation := by
  cases operation with
  | primitive operation => cases operation <;> decide
  | addressAware operation =>
    cases operation with
    | isKind kind => cases kind <;> decide
    | select part => cases part <;> decide
    | isTagged tag => cases tag <;> decide
    | signal cause => cases cause <;> decide
    | _ => decide

/-- The table with operations added to it is the old one for other names, so
only a look at one of the added names can tell. -/
theorem OperationTable.find?_install {table : OperationTable} {added : List (String × Operation)} {name : String}
    (absent : name ∉ added.map Prod.fst) : (table.install added).find? name = table.find? name := by
  unfold install
  induction added generalizing table with
  | nil => rfl
  | cons entry added ih =>
    rw [List.map_cons, List.mem_cons, not_or] at absent
    rw [List.foldl_cons, ih absent.2, find?, List.lookup_cons, beq_false_of_ne absent.1]
    rfl

/-- The memory with operations added to its table. -/
def Memory.install (memory : Memory) (added : List (String × Operation)) : Memory :=
  { memory with operations := memory.operations.install added }

/-- The same result in a state that is changed afterwards. -/
def Run.onState {ε S α : Type} (f : S → S) : EStateM.Result ε S α → EStateM.Result ε S α
  | .ok a state => .ok a (f state)
  | .error e state => .error e (f state)

/-- It does not matter whether a state is changed before a computation or
after it: the result is the same, and so is the state that is left. -/
def Run.Commutes {ε S α : Type} (f : S → S) (x : EStateM ε S α) (state : S) : Prop :=
  x (f state) = Run.onState f (x state)

namespace Run.Commutes

variable {ε S α β : Type} {f : S → S} {state : S}

theorem pure (a : α) : Commutes f (Pure.pure a : EStateM ε S α) state := rfl

theorem throw (e : ε) : Commutes f (MonadExcept.throw e : EStateM ε S α) state := rfl

theorem bind {x : EStateM ε S α} {next : α → EStateM ε S β} (first : Commutes f x state)
    (rest : ∀ a state', x state = .ok a state' → Commutes f (next a) state') : Commutes f (x >>= next) state := by
  change EStateM.bind x next (f state) = Run.onState f (EStateM.bind x next state)
  rw [EStateM.bind, EStateM.bind, first]
  cases ran : x state with
  | ok a state' => exact rest a state' ran
  | error e state' => rfl

end Run.Commutes

section

variable {α : Type} {added : List (String × Operation)} {memory : Memory}

theorem Action.inspect_commutes {f : Memory → Except Error α} (same : f (memory.install added) = f memory) :
    Run.Commutes (Memory.install · added) (Action.inspect f) memory := by
  unfold Run.Commutes Action.inspect
  rw [same]
  cases f memory <;> rfl

theorem Action.mapError_commutes {x : Action α} (commutes : Run.Commutes (Memory.install · added) x memory)
    (reword : Error → Error) : Run.Commutes (Memory.install · added) (Action.mapError reword x) memory := by
  unfold Run.Commutes Action.mapError
  rw [commutes]
  cases x memory <;> rfl

end

/-- A computation on the memory that takes no notice of added operations. All
operations are of this kind but the one that calls function values by name. -/
def Action.Indifferent {α : Type} (action : Action α) : Prop :=
  ∀ added memory, Run.Commutes (Memory.install · added) action memory

namespace Action.Indifferent

variable {α β : Type}

theorem pure (a : α) : Indifferent (Pure.pure a) := fun _ _ => .pure a

theorem throw (e : Error) : Indifferent (MonadExcept.throw e : Action α) := fun _ _ => .throw e

theorem bind {x : Action α} {next : α → Action β} (first : Indifferent x) (rest : ∀ a, Indifferent (next a)) :
    Indifferent (x >>= next) :=
  fun added memory => (first added memory).bind fun a state' _ => rest a added state'

theorem inspect {f : Memory → Except Error α} (reads : ∀ added memory, f (memory.install added) = f memory) :
    Indifferent (Action.inspect f) :=
  fun added memory => inspect_commutes (reads added memory)

theorem onHeap (change : EStateM HeapError PairHeap α) : Indifferent (Action.onHeap change) := by
  rintro added ⟨heap, program, registers, stack, operations, journal⟩
  unfold Run.Commutes
  simp only [Action.onHeap, Memory.install]
  cases change heap <;> rfl

theorem setHead (pair value : Pointer) : Indifferent (Action.setHead pair value) := by
  cases pair with
  | pair address => exact onHeap _
  | scalar value => exact throw _
  | program address => exact throw _

theorem setTail (pair value : Pointer) : Indifferent (Action.setTail pair value) := by
  cases pair with
  | pair address => exact onHeap _
  | scalar value => exact throw _
  | program address => exact throw _

theorem clearStack : Indifferent Action.clearStack := fun _ _ => rfl

theorem reserve (count : Nat) (pending : List Pointer) : Indifferent (Action.reserve count pending) := by
  rintro added ⟨heap, program, registers, ⟨items, pushes, maxDepth⟩, operations, journal⟩
  unfold Run.Commutes
  by_cases room : count ≤ heap.available
  · simp only [Action.reserve, Memory.reserve, Memory.install, if_pos room]
    rfl
  simp only [Action.reserve, Memory.reserve, Memory.install, if_neg room, Memory.collect, Memory.roots,
    Memory.registerContents]
  generalize heap.collect _ = collection
  obtain ⟨heap, roots, _ | live⟩ := collection
  · rfl
  · dsimp only
    by_cases room' : count ≤ heap.available
    · simp only [if_pos room']
      rfl
    · simp only [if_neg room']
      rfl

theorem allocReserved (head tail : Pointer) : Indifferent (Action.allocReserved head tail) :=
  (onHeap _).bind fun _ => pure _

theorem allocPair (head tail : Pointer) : Indifferent (Action.allocPair head tail) :=
  (reserve _ _).bind fun _ => allocReserved _ _

theorem buildList (items : List Pointer) : Indifferent (Action.buildList items) := by
  induction items with
  | nil => exact pure _
  | cons item rest ih => exact ih.bind fun _ => allocReserved _ _

end Action.Indifferent

namespace Environment

open ExplicitControl.Action

theorem allocBindings_indifferent (bindings : List Binding) : Indifferent (allocBindings bindings) := by
  induction bindings with
  | nil => exact .pure _
  | cons binding rest ih => exact (Indifferent.allocReserved _ _).bind fun _ => ih.bind fun _ => .pure _

theorem push_indifferent (bindings : List Binding) (enclosing : Pointer) : Indifferent (push bindings enclosing) := by
  refine (allocBindings_indifferent bindings).bind fun cells => ?_
  refine (Indifferent.buildList _).bind fun names => ?_
  refine (Indifferent.buildList cells).bind fun cells => ?_
  exact (Indifferent.allocReserved names cells).bind fun frame => .allocReserved frame enclosing

theorem allocPrimitives_indifferent (names : List String) : Indifferent (allocPrimitives names) := by
  induction names with
  | nil => exact .pure _
  | cons name rest ih => exact (Indifferent.allocReserved _ _).bind fun _ => ih.bind fun _ => .pure _

theorem global_indifferent : Indifferent global :=
  (Indifferent.reserve _ _).bind fun _ => (allocPrimitives_indifferent _).bind fun _ => push_indifferent _ _

theorem extendBlock_indifferent (body environment : Pointer) : Indifferent (extendBlock body environment) := by
  refine (Indifferent.inspect fun _ _ => rfl).bind fun names => ?_
  exact (Indifferent.reserve _ _).bind fun moved => (push_indifferent _ _).bind fun _ => .pure _

theorem extendCall_indifferent (function arguments : Pointer) : Indifferent (extendCall function arguments) := by
  refine (Indifferent.inspect fun _ _ => rfl).bind fun names => ?_
  refine (Indifferent.reserve _ _).bind fun moved => ?_
  refine (Indifferent.inspect fun _ _ => rfl).bind fun values => ?_
  refine (Indifferent.inspect fun _ _ => rfl).bind fun closure => ?_
  exact (push_indifferent _ _).bind fun _ => .pure _

end Environment

open ExplicitControl.Action

theorem Memory.lastPair_install (added : List (String × Operation)) (memory : Memory) (start : Pointer) (fuel : Nat)
    (list : Pointer) : (memory.install added).lastPair start fuel list = memory.lastPair start fuel list := by
  induction fuel generalizing list with
  | zero => rfl
  | succ fuel ih =>
    have tails : (memory.install added).tail list = memory.tail list := rfl
    simp only [lastPair, tails, ih]

theorem appendArgument_indifferent (value list : Pointer) : Indifferent (appendArgument value list) := by
  refine (Indifferent.reserve _ _).bind fun moved => ?_
  refine (Indifferent.allocReserved _ _).bind fun cell => ?_
  split
  · exact .pure _
  · refine (Indifferent.inspect fun _ _ => Memory.lastPair_install _ _ _ _ _).bind fun last => ?_
    exact (Indifferent.setTail last cell).bind fun _ => .pure _

/-- Run by themselves, operations do not look at the table at all. -/
theorem HeapOperation.run_indifferent (operation : HeapOperation) (operands : List Pointer) :
    Indifferent (operation.run operands) := by
  have read {f : Memory → Except Error Pointer} (reads : ∀ added memory, f (memory.install added) = f memory) :
      Indifferent (do return (⟨← Action.inspect f, operands⟩ : Applied)) :=
    (Indifferent.inspect reads).bind fun _ => .pure _
  unfold run
  split
  · exact .pure _
  · exact .pure _
  · exact .pure _
  · exact (Indifferent.allocPair _ _).bind fun _ => .pure _
  · exact read fun _ _ => rfl
  · exact read fun _ _ => rfl
  · exact (Indifferent.setHead _ _).bind fun _ => .pure _
  · exact (Indifferent.setTail _ _).bind fun _ => .pure _
  · exact read fun _ _ => rfl
  · exact read fun _ _ => rfl
  · exact read fun _ _ => rfl
  · exact Indifferent.clearStack.bind fun _ => .pure _
  · exact read fun _ _ => rfl
  · exact read fun _ _ => rfl
  · exact read fun _ _ => rfl
  · exact read fun _ _ => rfl
  · exact read fun _ _ => rfl
  · exact read fun _ _ => rfl
  · exact Environment.global_indifferent.bind fun _ => .pure _
  · exact (Environment.extendBlock_indifferent _ _).bind fun _ => .pure _
  · exact (Environment.extendCall_indifferent _ _).bind fun _ => .pure _
  · exact (Indifferent.reserve _ _).bind fun _ => (Indifferent.buildList _).bind fun _ => .pure _
  · exact appendArgument_indifferent _ _
  · exact read fun _ _ => rfl
  · exact read fun _ _ => rfl
  · exact (Indifferent.reserve _ _).bind fun _ => (Indifferent.allocReserved _ _).bind fun _ => .pure _
  · exact read fun _ _ => rfl
  · exact read fun _ _ => rfl
  · exact .throw _

namespace Operation

/-- The names that a call looks up in the table of the memory, in order. -/
def sought (memory : Memory) : (fuel : Nat) → Operation → List Pointer → List String
  | fuel + 1, .addressAware .applyPrimitive, [function, arguments] =>
    match memory.tail function, memory.items arguments with
    | .ok symbol, .ok inputs =>
      symbol.display :: match memory.operations.find? symbol.display with
        | some operation => sought memory fuel operation inputs
        | none => []
    | _, _ => []
  | _, _, _ => []

theorem sought_record (memory : Memory) (event : Event) (fuel : Nat) (operation : Operation)
    (operands : List Pointer) :
    sought (memory.record event) fuel operation operands = sought memory fuel operation operands := by
  have tails (p : Pointer) : (memory.record event).tail p = memory.tail p := rfl
  have lists (p : Pointer) : (memory.record event).items p = memory.items p := rfl
  have table : (memory.record event).operations = memory.operations := rfl
  fun_induction sought memory fuel operation operands with
  | case1 fuel function arguments symbol inputs inputsRead symbolRead ih =>
    simp only [sought, tails, lists, table, symbolRead, inputsRead, ih]
  | case2 fuel function arguments unread =>
    rw [sought, tails, lists]
    split
    · rename_i symbolRead inputsRead
      exact (unread _ _ symbolRead inputsRead).elim
    · rfl
  | case3 fuel operation operands other => rw [sought.eq_2 _ _ _ _ other]

variable {added : List (String × Operation)} {memory : Memory}

theorem callFuel_once {fuel : Nat} {name : String} {operation : Operation} {operands : List Pointer}
    (once : ¬ Repeats operation operands) : Indifferent (callFuel fuel name operation operands) := by
  cases operation with
  | primitive primitive =>
    rw [callFuel_primitive]
    exact (Indifferent.inspect fun _ _ => rfl).bind fun _ => .pure _
  | addressAware operation =>
    rw [callFuel_run fuel name fun same length => once ⟨same ▸ rfl, length⟩]
    exact operation.run_indifferent operands

/-- A call that looks no added name up does the same as before, however often
it repeats. -/
theorem callFuel_commutes {fuel : Nat} {name : String} {operation : Operation} {operands : List Pointer}
    (absent : ∀ name ∈ sought memory fuel operation operands, name ∉ added.map Prod.fst) :
    Run.Commutes (Memory.install · added) (callFuel fuel name operation operands) memory := by
  induction fuel generalizing name operation operands with
  | zero =>
    by_cases repeats : Repeats operation operands
    · obtain ⟨rfl, length⟩ := repeats
      obtain ⟨p, q, rfl⟩ := List.length_eq_two.mp length
      exact .throw _
    · exact callFuel_once repeats added memory
  | succ fuel ih =>
    by_cases repeats : Repeats operation operands
    · obtain ⟨rfl, length⟩ := repeats
      obtain ⟨p, q, rfl⟩ := List.length_eq_two.mp length
      refine .bind (Indifferent.inspect (fun _ _ => rfl) added memory) fun symbol _ read => ?_
      obtain ⟨symbolRead, same⟩ := Action.inspect_eq_ok_iff.mp read
      rw [same]
      refine .bind (Indifferent.inspect (fun _ _ => rfl) added memory) fun inputs _ read => ?_
      obtain ⟨inputsRead, same⟩ := Action.inspect_eq_ok_iff.mp read
      rw [same]
      simp only [sought, symbolRead, inputsRead, List.forall_mem_cons] at absent
      have found : (memory.install added).operations.find? symbol.display = memory.operations.find? symbol.display :=
        OperationTable.find?_install absent.1
      refine .bind (inspect_commutes (by simp only [found])) fun operation _ read => ?_
      obtain ⟨operationRead, same⟩ := Action.inspect_eq_ok_iff.mp read
      rw [same]
      cases isFound : memory.operations.find? symbol.display with
      | none =>
        rw [isFound] at operationRead
        cases operationRead
      | some operation =>
        rw [isFound] at operationRead absent
        cases operationRead
        exact .bind (mapError_commutes (ih absent.2) _) fun _ _ _ => .pure _
    · exact callFuel_once repeats added memory

theorem call_commutes {name : String} {operation : Operation} {operands : List Pointer}
    (absent : ∀ name ∈ sought memory (memory.heap.free + 1) operation operands, name ∉ added.map Prod.fst) :
    Run.Commutes (Memory.install · added) (operation.call name operands) memory :=
  callFuel_commutes absent

end Operation

end ExplicitControl
