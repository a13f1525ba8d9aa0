import ExplicitControl.Proofs.Evaluator.Calls
import ExplicitControl.Proofs.Memory.Allotment

namespace ExplicitControl

namespace Primitive

theorem two_eq {operands : List Scalar} (wrong : operands.length ≠ 2) :
    two operands = .error (.arity 2 operands.length) := by
  match operands, wrong with
  | [], _ => rfl
  | [_], _ => rfl
  | _ :: _ :: _ :: _, _ => rfl

end Primitive

/-- Whether a pointer is a scalar. -/
def Pointer.IsScalar (p : Pointer) : Prop :=
  ∃ value, p = .scalar value

theorem scalars_eq_ok {items : List Pointer} (plain : ∀ p ∈ items, p.IsScalar) :
    ∃ given, scalars items = .ok given ∧ given.length = items.length := by
  induction items with
  | nil => exact ⟨[], rfl, rfl⟩
  | cons p items ih =>
    obtain ⟨⟨value, rfl⟩, others⟩ := List.forall_mem_cons.mp plain
    obtain ⟨given, same, length⟩ := ih others
    refine ⟨value :: given, ?_, congrArg (· + 1) length⟩
    simp only [scalars, same]
    rfl

/-- The first pointer that is not a scalar is reported. -/
theorem scalars_eq_error {before after : List Pointer} {p : Pointer} (plain : ∀ q ∈ before, q.IsScalar)
    (other : ¬ p.IsScalar) : scalars (before ++ p :: after) = .error (.value (.notScalar p)) := by
  induction before with
  | nil =>
    cases p with
    | scalar value => exact absurd ⟨value, rfl⟩ other
    | _ => rfl
  | cons q before ih =>
    obtain ⟨⟨value, rfl⟩, others⟩ := List.forall_mem_cons.mp plain
    simp only [List.cons_append, scalars, ih others]
    rfl

theorem exists_first_other {items : List Pointer} (mixed : ¬ ∀ p ∈ items, p.IsScalar) :
    ∃ before p after, items = before ++ p :: after ∧ (∀ q ∈ before, q.IsScalar) ∧ ¬ p.IsScalar := by
  induction items with
  | nil => exact absurd nofun mixed
  | cons p items ih =>
    by_cases plain : p.IsScalar
    · obtain ⟨before, q, after, rfl, others, other⟩ := ih fun all => mixed (List.forall_mem_cons.mpr ⟨plain, all⟩)
      exact ⟨p :: before, q, after, rfl, List.forall_mem_cons.mpr ⟨plain, others⟩, other⟩
    · exact ⟨[], p, items, rfl, nofun, plain⟩

/-- Operations on two pointers count them themselves, and ask nothing else of
them. -/
theorem HeapOperation.comparison_miscounted {operation : HeapOperation} {items : List Pointer}
    (compares : operation = .identical ∨ operation = .different) (wrong : items.length ≠ 2) (memory : Memory) :
    operation.run items memory = .error (.machine (.operand operation.name (.arity 2 items.length))) memory := by
  rcases compares with rfl | rfl <;>
    match items, wrong with
    | [], _ => rfl
    | [_], _ => rfl
    | [_, _], wrong => exact absurd rfl wrong
    | _ :: _ :: _ :: _, _ => rfl

namespace Evaluator

open Interpreter

/-- The number of arguments that a function of the global frame asks for. -/
def expectedCount : String → Nat
  | "!" => 1
  | _ => 2

/-- Whether a function of the global frame takes a number of arguments. One of
them negates where two subtract. -/
def Takes (name : String) (count : Nat) : Prop :=
  count = expectedCount name ∨ name = "-" ∧ count = 1

/-- Whether a function of the global frame compares pointers, of whatever
kind. The others compute with scalars. -/
def ComparesPointers (name : String) : Prop :=
  name = "===" ∨ name = "!=="

/-- The mistake of a wrong number of arguments. -/
def miscount (expected got : Nat) : EvalError :=
  if expected < got then .tooMany expected got else .tooFew expected got

/-- A function of the global frame and a list of arguments, in a number that
it does not take. -/
structure Miscounted (memory : Memory) (function arguments : Pointer) (name : String) (items : List Pointer) :
    Prop where
  operations : memory.operations = table
  known : name ∈ Environment.primitiveNames
  function : ∃ a, function = .pair a ∧ memory.heap.Holds a (.string Tag.primitive.text) (.string name)
  arguments : memory.heap.Lists arguments items
  count : ¬ Takes name items.length

/-- Calls a function of the global frame. -/
def callPrimitive (function arguments : Pointer) : Action Applied :=
  Operation.call HeapOperation.applyPrimitive.name (.addressAware .applyPrimitive) [function, arguments]

theorem exists_builtin {name : String} (known : name ∈ Environment.primitiveNames) :
    ∃ function : Builtin, function.name = name := by
  have listed : Environment.primitiveNames = builtins.map Builtin.name := rfl
  rw [listed] at known
  obtain ⟨function, _, same⟩ := List.mem_map.mp known
  exact ⟨function, same⟩

/-- Scalars are counted before anything else is asked of them. -/
theorem apply_miscounted {primitive : Primitive} {given : List Scalar}
    (wrong : ¬ Takes (Builtin.scalar primitive).name given.length) :
    primitive.apply given = .error (.arity (expectedCount (Builtin.scalar primitive).name) given.length) := by
  have unexpected : given.length ≠ expectedCount (Builtin.scalar primitive).name := fun same => wrong (.inl same)
  cases primitive with
  | subtract =>
    match given, wrong, unexpected with
    | [], _, _ => rfl
    | [_], wrong, _ => exact absurd (.inr ⟨rfl, rfl⟩) wrong
    | [_, _], _, unexpected => exact absurd rfl unexpected
    | _ :: _ :: _ :: _, _, _ => rfl
  | not =>
    match given, unexpected with
    | [], _ => rfl
    | [_], unexpected => exact absurd rfl unexpected
    | first :: _ :: _, _ => cases first <;> rfl
  | _ =>
    simp only [Primitive.apply, Primitive.arithmetic, Primitive.comparison, Primitive.sum,
      Primitive.two_eq (show given.length ≠ 2 from unexpected)]
    rfl

section

variable {memory : Memory} {function arguments : Pointer} {name : String} {items : List Pointer}

/-- What the function that is called fails with, a wrong count in other words,
is what the call fails with. -/
theorem Miscounted.callPrimitive_eq (miscounted : Miscounted memory function arguments name items)
    {builtin : Builtin} (isNamed : builtin.name = name) {cause : Error}
    (failed : ∀ fuel, Operation.callFuel fuel name (builtinOperation builtin) items memory = .error cause memory) :
    callPrimitive function arguments memory = .error (countMistake cause) memory := by
  obtain ⟨a, rfl, holds⟩ := miscounted.function
  have symbol : memory.tail (.pair a) = .ok (.string name) := by
    simp only [Memory.tail, holds.tail_eq]
    rfl
  have inputs : memory.items arguments = .ok items := Memory.items_of_lists miscounted.arguments
  have operation : memory.operations.find? (Pointer.string name).display = some (builtinOperation builtin) := by
    rw [miscounted.operations, ← isNamed]
    exact find_builtin builtin
  have failed := failed memory.heap.free
  simp only [callPrimitive, Operation.call, Operation.callFuel, bind, EStateM.bind, Action.inspect, symbol, inputs,
    Action.operation, operation, Action.mapError]
  rw [show (Pointer.string name).display = name from rfl, failed]

/-- What computes with scalars first makes scalars of its arguments. -/
theorem Miscounted.callPrimitive_scalar (miscounted : Miscounted memory function arguments name items)
    {primitive : Primitive} (isNamed : (Builtin.scalar primitive).name = name) {cause : Error}
    (failed : primitive.call name items = .error cause) :
    callPrimitive function arguments memory = .error (countMistake cause) memory := by
  refine miscounted.callPrimitive_eq isNamed fun fuel => ?_
  simp only [builtinOperation, Operation.callFuel_primitive, bind, EStateM.bind, Action.inspect, failed]

theorem exists_comparison (compares : ComparesPointers name) :
    ∃ builtin operation, Builtin.name builtin = name ∧ builtinOperation builtin = .addressAware operation ∧
      (operation = .identical ∨ operation = .different) := by
  rcases compares with rfl | rfl
  · exact ⟨.identical, .identical, rfl, rfl, .inl rfl⟩
  · exact ⟨.different, .different, rfl, rfl, .inr rfl⟩

/-- Comparisons of pointers count whatever they are given. -/
theorem Miscounted.callPrimitive_pointers (miscounted : Miscounted memory function arguments name items)
    (compares : ComparesPointers name) :
    callPrimitive function arguments memory
      = .error (.eval (miscount (expectedCount name) items.length)) memory := by
  have expected : expectedCount name = 2 := by rcases compares with rfl | rfl <;> rfl
  have wrong : items.length ≠ 2 := fun two => miscounted.count (.inl (two.trans expected.symm))
  obtain ⟨builtin, operation, isNamed, carriedOut, kind⟩ := exists_comparison compares
  have failed (fuel : Nat) : Operation.callFuel fuel name (builtinOperation builtin) items memory
      = .error (.machine (.operand operation.name (.arity 2 items.length))) memory := by
    rw [carriedOut, Operation.callFuel_run fuel name fun _ => wrong]
    exact HeapOperation.comparison_miscounted kind wrong memory
  rw [expected]
  exact miscounted.callPrimitive_eq isNamed failed

theorem exists_primitive (known : name ∈ Environment.primitiveNames) (computes : ¬ ComparesPointers name) :
    ∃ primitive, (Builtin.scalar primitive).name = name := by
  obtain ⟨builtin, rfl⟩ := exists_builtin known
  cases builtin with
  | identical => exact absurd (.inl rfl) computes
  | different => exact absurd (.inr rfl) computes
  | scalar primitive => exact ⟨primitive, rfl⟩

/-- A wrong count is reported where all arguments are scalars. -/
theorem Miscounted.callPrimitive_plain (miscounted : Miscounted memory function arguments name items)
    (computes : ¬ ComparesPointers name) (plain : ∀ p ∈ items, p.IsScalar) :
    callPrimitive function arguments memory
      = .error (.eval (miscount (expectedCount name) items.length)) memory := by
  obtain ⟨primitive, rfl⟩ := exists_primitive miscounted.known computes
  obtain ⟨given, same, length⟩ := scalars_eq_ok plain
  have refused := apply_miscounted (length.symm ▸ miscounted.count)
  have failed : primitive.call (Builtin.scalar primitive).name items = .error (.machine
      (.operand (Builtin.scalar primitive).name
        (.arity (expectedCount (Builtin.scalar primitive).name) given.length))) := by
    simp only [Primitive.call, same, bind, Except.bind, refused]
    rfl
  rw [← length]
  exact miscounted.callPrimitive_scalar rfl failed

/-- An argument that is no scalar is reported before the count is looked at. -/
theorem Miscounted.callPrimitive_other (miscounted : Miscounted memory function arguments name items)
    (computes : ¬ ComparesPointers name) {before after : List Pointer} {p : Pointer}
    (first : items = before ++ p :: after) (plain : ∀ q ∈ before, q.IsScalar) (other : ¬ p.IsScalar) :
    callPrimitive function arguments memory = .error (.value (.notScalar p)) memory := by
  obtain ⟨primitive, rfl⟩ := exists_primitive miscounted.known computes
  have failed : primitive.call (Builtin.scalar primitive).name items = .error (.value (.notScalar p)) := by
    rw [first]
    simp only [Primitive.call, scalars_eq_error plain other]
    rfl
  exact miscounted.callPrimitive_scalar rfl failed

/-- A wrong number of arguments is reported as such exactly where the function
compares pointers or all arguments are scalars. Otherwise the first that is no
scalar is reported, since the count is looked at after the arguments have been
made scalars. The call changes nothing. -/
theorem applyPrimitive_miscounted (miscounted : Miscounted memory function arguments name items) :
    (callPrimitive function arguments memory
        = .error (.eval (miscount (expectedCount name) items.length)) memory ↔
      ComparesPointers name ∨ ∀ p ∈ items, p.IsScalar) ∧
    (¬ ComparesPointers name → ∀ before p after, items = before ++ p :: after →
      (∀ q ∈ before, q.IsScalar) → ¬ p.IsScalar →
        callPrimitive function arguments memory = .error (.value (.notScalar p)) memory) := by
  refine ⟨⟨fun reported => ?_, ?_⟩, fun computes before p after first plain other =>
    miscounted.callPrimitive_other computes first plain other⟩
  · by_contra neither
    obtain ⟨computes, mixed⟩ := not_or.mp neither
    obtain ⟨before, p, after, first, plain, other⟩ := exists_first_other mixed
    rw [miscounted.callPrimitive_other computes first plain other] at reported
    cases reported
  · by_cases compares : ComparesPointers name
    · exact fun _ => miscounted.callPrimitive_pointers compares
    · exact fun counted => miscounted.callPrimitive_plain compares (counted.resolve_left compares)

end

/-- Two functions, and one of them in a list by itself. -/
def alone : Memory where
  heap := { PairHeap.empty 3 with
    active := #[⟨.value (.string Tag.primitive.text), .string "+"⟩,
      ⟨.value (.string Tag.primitive.text), .string "==="⟩, ⟨.value (.pair 0), .null⟩]
    free := 3 }
  program := {}
  registers := #[]
  stack := {}
  operations := table
  journal := #[]

theorem lists_alone : alone.heap.Lists (.pair 2) [.pair 0] :=
  .cons ⟨by decide, rfl⟩ .nil

theorem adding_miscounted : Miscounted alone (.pair 0) (.pair 2) "+" [.pair 0] :=
  ⟨rfl, by decide, ⟨0, rfl, by decide, rfl⟩, lists_alone, by simp [Takes, expectedCount]⟩

theorem comparing_miscounted : Miscounted alone (.pair 1) (.pair 2) "===" [.pair 0] :=
  ⟨rfl, by decide, ⟨1, rfl, by decide, rfl⟩, lists_alone, by simp [Takes, expectedCount]⟩

/-- One function misses its second argument, and the other says so. -/
theorem alone_miscounted :
    callPrimitive (.pair 1) (.pair 2) alone = .error (.eval (.tooFew 2 1)) alone ∧
      callPrimitive (.pair 0) (.pair 2) alone = .error (.value (.notScalar (.pair 0))) alone := by
  have computes : ¬ ComparesPointers "+" := by simp [ComparesPointers]
  have other : ¬ (Pointer.pair 0).IsScalar := nofun
  exact ⟨(applyPrimitive_miscounted comparing_miscounted).1.mpr (.inl (.inl rfl)),
    (applyPrimitive_miscounted adding_miscounted).2 computes [] _ [] rfl nofun other⟩

/-- Whether a pointer is a function value. -/
def IsFunction (memory : Memory) (p : Pointer) : Prop :=
  ∃ a tag content, p = .pair a ∧ memory.heap.Holds a (.string (Tag.text tag)) content ∧
    (tag = .primitive ∨ tag = .compound)

/-- Every wrong number of arguments is reported as such, whatever values they
are. -/
def MiscountsReported (memory : Memory) : Prop :=
  ∀ function arguments name items, Miscounted memory function arguments name items →
    (∀ p ∈ items, p.IsScalar ∨ IsFunction memory p) →
    callPrimitive function arguments memory = .error (.eval (miscount (expectedCount name) items.length)) memory

/-- A function that misses its second argument reports its first. -/
theorem not_miscountsReported_alone : ¬ MiscountsReported alone := by
  intro reported
  have isFunction : IsFunction alone (.pair 0) :=
    ⟨0, .primitive, .string "+", rfl, ⟨by decide, rfl⟩, .inl rfl⟩
  have called : callPrimitive (.pair 0) (.pair 2) alone = .error (.value (.notScalar (.pair 0))) alone := rfl
  have counted := reported (.pair 0) (.pair 2) "+" [.pair 0] adding_miscounted
    (List.forall_mem_singleton.mpr (.inr isFunction))
  rw [called] at counted
  cases counted

end Evaluator

end ExplicitControl
