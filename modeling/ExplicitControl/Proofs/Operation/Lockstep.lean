import ExplicitControl.Operation.Call
import ExplicitControl.Proofs.Operation.Frames

namespace ExplicitControl

open Memory

/-- Results that match, wherever the operands are afterwards. -/
abbrev Applied.Matches (σ : Nat → Nat → Prop) (one other : Applied) : Prop :=
  one.value.Matches σ other.value

variable {ρ : Nat → Nat → Prop} {left right : Memory} {p q p' q' : Pointer} {ps qs : List Pointer}

theorem PointerKind.test_eq (kind : PointerKind) (matched : p.Matches ρ q) : kind.test p = kind.test q := by
  cases matched with
  | scalar value => rfl
  | program address => rfl
  | pair related => cases kind <;> rfl

theorem Tag.test_tied (tag : Tag) (twin : Twin ρ left right) (matched : p.Matches ρ q) :
    Read.Tied Eq (tag.test left p) (tag.test right q) := by
  cases matched with
  | scalar value => exact .ok rfl
  | program address => exact .ok rfl
  | pair related =>
    refine (twin.head (.pair related)).bind fun head head' heads => ?_
    cases heads with
    | scalar value => cases value <;> exact .ok rfl
    | program address => exact .ok rfl
    | pair related => exact .ok rfl

theorem settlingValue_tied (twin : Twin ρ left right) (matched : p.Matches ρ q) :
    Read.Tied Pointer.Static (settlingValue left p) (settlingValue right q) := by
  refine (twin.programItem matched 1).bind fun _ _ names => ?_
  refine (twin.programItem names.matches 1).bind fun operator _ ⟨same, _⟩ => ?_
  subst same
  split
  · exact .ok ⟨rfl, trivial⟩
  · exact .ok ⟨rfl, trivial⟩
  · exact .error (.refl _) id

theorem Signal.error_alike (signal : Signal) (twin : Twin ρ left right) (matched : p.Matches ρ q) :
    (signal.error left p).rename (fun _ => 0) = (signal.error right q).rename (fun _ => 0) := by
  cases signal with
  | unknownExpression =>
    have heads := twin.programHead matched
    simp only [Signal.error]
    generalize left.programHead p = x at heads
    generalize right.programHead q = y at heads
    cases heads with
    | ok static => simp only [EvalError.rename, (static.matches (ρ := ρ)).rename_zero]
    | error alike safe => simp only [EvalError.rename, matched.rename_zero]
  | _ => simp only [Signal.error, EvalError.rename, matched.rename_zero]

theorem allocPair_tied (twin : Twin ρ left right) (heads : p.Matches ρ p') (tails : q.Matches ρ q') :
    Action.Tied (Keeps (origin ρ left right) Pointers) (Action.allocPair p q left) (Action.allocPair p' q' right) := by
  simp only [Action.allocPair]
  refine (twin.reserve (.cons heads (.cons tails .nil)) 1).bind ?_
  rintro moved l moved' r ⟨σ, kin, rows, length, room⟩
  have headsMoved := rows_getD rows 0 (by simp [length]) p p'
  have tailsMoved := rows_getD rows 1 (by simp [length]) q q'
  exact (kin.allocReserved room headsMoved tailsMoved).mono fun _ _ _ _ grows => Grows.keeps grows

theorem appendArgument_tied (twin : Twin ρ left right) (values : p.Matches ρ p')
    (lists : q.Matches ρ q') :
    Action.Tied (Keeps (origin ρ left right) Applied.Matches) (appendArgument p q left)
      (appendArgument p' q' right) := by
  simp only [appendArgument]
  refine (twin.reserve (.cons values (.cons lists .nil)) 1).bind ?_
  rintro moved l moved' r ⟨σ, kin, rows, length, room⟩
  have valuesMoved := rows_getD rows 0 (by simp [length]) p p'
  have listsMoved := rows_getD rows 1 (by simp [length]) q q'
  refine (kin.allocReserved room valuesMoved (.scalar .null)).bind ?_
  rintro cell l cell' r ⟨τ, more, kin, cells, _⟩
  rw [listsMoved.isNull_eq]
  split
  · exact .ok ⟨τ, kin, cells⟩
  · refine (Action.Tied.inspect (kin.lastPair (listsMoved.mono more)) kin.tallies).bind ?_
    rintro last l last' r ⟨rfl, rfl, lasts⟩
    refine (kin.setTail lasts cells).bind ?_
    rintro _ l _ r kin
    exact .ok ⟨τ, kin, listsMoved.mono more⟩

/-- Looking something up leaves twin memories as they are. -/
theorem read_tied {f g : Memory → Except Error Pointer} (twin : Twin ρ left right)
    (reads : Read.Tied (Pointer.Matches ρ) (f left) (g right)) (ps qs : List Pointer) :
    Action.Tied (Keeps (origin ρ left right) Applied.Matches)
      ((do return (⟨← Action.inspect f, ps⟩ : Applied)) left)
      ((do return (⟨← Action.inspect g, qs⟩ : Applied)) right) := by
  refine (Action.Tied.inspect reads twin.tallies).bind ?_
  rintro value l value' r ⟨rfl, rfl, matched⟩
  exact .ok ⟨ρ, twin.kin, matched⟩

theorem clearStack_kin (twin : Twin ρ left right) :
    Kin (origin ρ left right) ρ { left with stack := left.stack.clear }
      { right with stack := right.stack.clear } :=
  twin.kin.refit { twin.matched with stack := .nil } rfl rfl rfl rfl

namespace HeapOperation

/-- The operations without operands, one of which clears the stack. -/
theorem run_nil_tied (operation : HeapOperation) (twin : Twin ρ left right) :
    Action.Tied (Keeps (origin ρ left right) Applied.Matches) (operation.run [] left) (operation.run [] right) := by
  cases operation
  case programRoot =>
    refine read_tied twin ?_ _ _
    rw [twin.matched.program]
    split
    next root found => exact .ok (.refl_of_below (twin.soundRight.program.root root found))
    next => exact .error (.refl _) id
  case clearStack => exact .ok ⟨ρ, clearStack_kin twin, .scalar _⟩
  case globalEnvironment =>
    refine (Environment.global_tied twin).bind ?_
    rintro value l value' r ⟨σ, kin, matched⟩
    exact .ok ⟨σ, kin, matched⟩
  all_goals exact .error (.refl _) id twin.tallies

/-- The operations with one operand: tests, selections, and those that make a
value of one. -/
theorem run_one_tied (operation : HeapOperation) (twin : Twin ρ left right) (matched : p.Matches ρ q) :
    Action.Tied (Keeps (origin ρ left right) Applied.Matches) (operation.run [p] left) (operation.run [q] right) := by
  have static {x y : Except Error Pointer} (reads : Read.Tied Pointer.Static x y) :
      Read.Tied (Pointer.Matches ρ) x y := reads.mono fun _ _ => Pointer.Static.matches
  cases operation
  case isKind kind =>
    refine .ok ⟨ρ, twin.kin, ?_⟩
    rw [kind.test_eq matched]
    exact .scalar _
  case head => exact read_tied twin (twin.head matched) _ _
  case tail => exact read_tied twin (twin.tail matched) _ _
  case programHead => exact read_tied twin (static (twin.programHead matched)) _ _
  case programTail => exact read_tied twin (static (twin.programTail matched)) _ _
  case expressionKind =>
    refine read_tied twin ?_ _ _
    rw [Environment.classify_eq twin matched]
    split <;> exact .ok (.scalar _)
  case select part => exact read_tied twin (static (twin.programItem matched part.index)) _ _
  case declarationSymbol =>
    exact read_tied twin (static (Environment.declarationSymbol_tied twin matched)) _ _
  case booleanFirst =>
    refine read_tied twin (static ?_) _ _
    exact (twin.programItem matched 2).bind fun _ _ lists => twin.programItem lists.matches 0
  case booleanSecond =>
    refine read_tied twin (static ?_) _ _
    exact (twin.programItem matched 2).bind fun _ _ lists => twin.programItem lists.matches 1
  case shortCircuitValue => exact read_tied twin (static (settlingValue_tied twin matched)) _ _
  case isTagged tag =>
    refine read_tied twin ?_ _ _
    refine (tag.test_tied twin matched).bind fun flag flag' same => ?_
    exact .ok (same ▸ .scalar _)
  case compoundBody => exact read_tied twin (twin.item matched 2) _ _
  case makeReturn =>
    refine (twin.reserve (.cons matched .nil) 1).bind ?_
    rintro moved l moved' r ⟨σ, kin, rows, length, room⟩
    refine (kin.allocReserved room (.scalar _) (rows_getD rows 0 (by simp [length]) p q)).bind ?_
    rintro result l result' r ⟨τ, _, kin, results, _⟩
    exact .ok ⟨τ, kin, results⟩
  case returnContent => exact read_tied twin (twin.tail matched) _ _
  case signal cause =>
    refine read_tied twin (.error (.addresses ?_) id) _ _
    simp only [Error.rename, cause.error_alike twin matched]
  all_goals exact .error (.refl _) id twin.tallies

/-- The operations with two operands, those apart that call others. -/
theorem run_two_tied (operation : HeapOperation) (twin : Twin ρ left right) (first : p.Matches ρ p')
    (second : q.Matches ρ q') :
    Action.Tied (Keeps (origin ρ left right) Applied.Matches) (operation.run [p, q] left)
      (operation.run [p', q'] right) := by
  cases operation
  case identical =>
    refine .ok ⟨ρ, twin.kin, ?_⟩
    rw [first.same_eq twin.matched.heap.unique second]
    exact .scalar _
  case different =>
    refine .ok ⟨ρ, twin.kin, ?_⟩
    simp only [bne, first.same_eq twin.matched.heap.unique second]
    exact .scalar _
  case pair =>
    refine (allocPair_tied twin first second).bind ?_
    rintro value l value' r ⟨σ, kin, matched⟩
    exact .ok ⟨σ, kin, matched⟩
  case setHead => exact (twin.kin.setHead first second).bind fun _ _ _ _ kin => .ok ⟨ρ, kin, .scalar _⟩
  case setTail => exact (twin.kin.setTail first second).bind fun _ _ _ _ kin => .ok ⟨ρ, kin, .scalar _⟩
  case extendBlock =>
    refine (Environment.extendBlock_tied twin first second).bind ?_
    rintro ⟨value, _⟩ l ⟨value', _⟩ r ⟨σ, kin, matched⟩
    exact .ok ⟨σ, kin, matched⟩
  case extendCall =>
    refine (Environment.extendCall_tied twin first second).bind ?_
    rintro ⟨value, _⟩ l ⟨value', _⟩ r ⟨σ, kin, matched⟩
    exact .ok ⟨σ, kin, matched⟩
  case adjoinArgument => exact appendArgument_tied twin first second
  all_goals exact .error (.refl _) id twin.tallies

theorem run_three_tied (operation : HeapOperation) {r r' : Pointer} (twin : Twin ρ left right)
    (first : p.Matches ρ p') (second : q.Matches ρ q') (third : r.Matches ρ r') :
    Action.Tied (Keeps (origin ρ left right) Applied.Matches) (operation.run [p, q, r] left)
      (operation.run [p', q', r'] right) := by
  cases operation
  case makeCompound =>
    refine (twin.reserve (.cons first (.cons second (.cons third .nil))) 4).bind ?_
    rintro moved l moved' r ⟨σ, kin, rows, length, room⟩
    have fits : Room (0 + (Pointer.string Tag.compound.text :: moved).length) l r := by
      simpa only [List.length_cons, length, List.length_nil, Nat.zero_add] using room
    refine (kin.buildList (.cons (.scalar _) rows) fits).bind ?_
    rintro value l value' r ⟨τ, _, kin, matched, _⟩
    exact .ok ⟨τ, kin, matched⟩
  all_goals exact .error (.refl _) id twin.tallies

theorem run_tied (operation : HeapOperation) (twin : Twin ρ left right) (rows : Rows ρ ps qs) :
    Action.Tied (Keeps (origin ρ left right) Applied.Matches) (operation.run ps left) (operation.run qs right) := by
  match rows with
  | .nil => exact operation.run_nil_tied twin
  | .cons first .nil => exact operation.run_one_tied twin first
  | .cons first (.cons second .nil) => exact operation.run_two_tied twin first second
  | .cons first (.cons second (.cons third .nil)) => exact operation.run_three_tied twin first second third
  | .cons _ (.cons _ (.cons _ (.cons _ rest))) =>
    -- no operation takes so many operands, and the error tells only how many there are
    have length := rest.length_eq
    cases operation <;> refine .error (.addresses ?_) id twin.tallies <;>
      simp [Error.rename, MachineError.rename, length]

end HeapOperation

theorem scalars_tied (rows : Rows ρ ps qs) : Read.Tied Eq (scalars ps) (scalars qs) := by
  induction rows with
  | nil => exact .ok rfl
  | @cons p q ps qs first _ ih =>
    simp only [scalars]
    have value : Read.Tied Eq (p.toScalar.mapError Error.value) (q.toScalar.mapError Error.value) := by
      cases first with
      | scalar value => exact .ok rfl
      | program address => exact .error (.refl _) id
      | pair related => exact .error (.addresses rfl) id
    exact value.bind fun _ _ same => ih.bind fun _ _ rest => .ok (same ▸ rest ▸ rfl)

theorem Primitive.call_tied (name : String) (primitive : Primitive) (rows : Rows ρ ps qs) :
    Read.Tied (Pointer.Matches ρ) (primitive.call name ps) (primitive.call name qs) := by
  refine (scalars_tied rows).bind fun values _ same => ?_
  subst same
  split
  · exact .ok (.scalar _)
  · exact .error (.refl _) id

theorem countMistake_rename (f : Nat → Nat) (e : Error) :
    countMistake (e.rename f) = (countMistake e).rename f := by
  cases e with
  | machine cause =>
    cases cause with
    | operand name cause =>
      cases cause with
      | arity expected got =>
        simp only [countMistake, Error.rename, MachineError.rename]
        split <;> rfl
      | type expected got => rfl
    | _ => rfl
  | _ => rfl

theorem Error.Alike.countMistake {e e' : Error} (alike : e.Alike e') :
    (countMistake e).Alike (countMistake e') := by
  cases alike with
  | addresses same =>
    refine .addresses ?_
    rw [← countMistake_rename, ← countMistake_rename, same]
  | named a b => exact .named a b

theorem Error.dangles_countMistake {e : Error} : (countMistake e).Dangles ↔ e.Dangles := by
  unfold countMistake
  split
  · exact Iff.rfl
  · exact Iff.rfl

theorem mapError_tied {α β : Type} {post : α → Memory → β → Memory → Prop} {x : Action α}
    {y : Action β} (tied : Action.Tied post (x left) (y right)) :
    Action.Tied post (Action.mapError countMistake x left) (Action.mapError countMistake y right) := by
  unfold Action.mapError
  generalize x left = result at tied
  generalize y right = result' at tied
  cases tied with
  | ok related => exact .ok related
  | error alike safe tallies =>
    exact .error alike.countMistake (fun dangles => safe (Error.dangles_countMistake.mp dangles)) tallies
  | @exhausted e left' _ exhausts =>
    cases e with
    | heap cause => exact .exhausted exhausts
    | _ => exact exhausts.elim

/-- An operation that is looked up by the text of a pointer. The text of a
pair names none, so where two pairs match it does not matter that their
addresses differ. -/
theorem operation_tied (twin : Twin ρ left right) (symbols : p.Matches ρ q) :
    Action.Tied (fun one l other r => l = left ∧ r = right ∧ one = other ∧ p.display = q.display)
      (Action.operation p.display left) (Action.operation q.display right) := by
  refine @Action.Tied.inspect _ _ _ _ _ _ (fun one other => one = other ∧ p.display = q.display) ?_ twin.tallies
  rw [← twin.matched.operations]
  cases symbols with
  | scalar value =>
    split
    · exact .ok ⟨rfl, rfl⟩
    · exact .error (.refl _) id
  | program address =>
    split
    · exact .ok ⟨rfl, rfl⟩
    · exact .error (.refl _) id
  | @pair a b related =>
    rw [twin.unnamed a, twin.unnamed b]
    exact .error (.named a b) id

namespace Operation

theorem callFuel_primitive (fuel : Nat) (name : String) (primitive : Primitive) (ps : List Pointer) :
    callFuel fuel name (.primitive primitive) ps
      = do return ⟨← Action.inspect fun _ => primitive.call name ps, ps⟩ := by
  cases fuel <;> rfl

theorem callFuel_run (fuel : Nat) (name : String) {operation : HeapOperation}
    (direct : operation = .applyPrimitive → ps.length ≠ 2) :
    callFuel fuel name (.addressAware operation) ps = operation.run ps := by
  cases operation
  case applyPrimitive =>
    match ps, direct with
    | [], _ => cases fuel <;> rfl
    | [_], _ => cases fuel <;> rfl
    | [_, _], direct => exact absurd rfl (direct rfl)
    | _ :: _ :: _ :: _, _ => cases fuel <;> rfl
  all_goals cases fuel <;> rfl

/-- A call that repeats: a function value that names the operation which calls
function values, with two arguments. Only such a call makes another one of its
kind. -/
def Repeats (operation : Operation) (ps : List Pointer) : Prop :=
  operation = .addressAware .applyPrimitive ∧ ps.length = 2

/-- A call that does not repeat takes no repetitions, however many it is
given. -/
theorem callFuel_eq_zero {operation : Operation} (once : ¬ Repeats operation ps) (fuel : Nat)
    (name : String) : callFuel fuel name operation ps = callFuel 0 name operation ps := by
  cases operation with
  | primitive primitive => rw [callFuel_primitive, callFuel_primitive]
  | addressAware operation =>
    have direct : operation = .applyPrimitive → ps.length ≠ 2 := by
      rintro rfl length
      exact once ⟨rfl, length⟩
    rw [callFuel_run fuel name direct, callFuel_run 0 name direct]

theorem callFuel_zero_tied (name : String) {operation : Operation} (once : ¬ Repeats operation ps)
    (twin : Twin ρ left right) (rows : Rows ρ ps qs) :
    Action.Tied (Keeps (origin ρ left right) Applied.Matches) (callFuel 0 name operation ps left)
      (callFuel 0 name operation qs right) := by
  cases operation with
  | primitive primitive =>
    rw [callFuel_primitive, callFuel_primitive]
    exact read_tied twin (primitive.call_tied name rows) ps qs
  | addressAware operation =>
    have direct : operation = .applyPrimitive → ps.length ≠ 2 := by
      rintro rfl length
      exact once ⟨rfl, length⟩
    rw [callFuel_run 0 name direct, callFuel_run 0 name (rows.length_eq ▸ direct)]
    exact operation.run_tied twin rows

/-- The call that a repeated call makes. -/
def chain? (memory : Memory) (call : Pointer × Pointer) : Option (Pointer × Pointer) :=
  match memory.tail call.1, memory.items call.2 with
  | .ok symbol, .ok [function, arguments] =>
    if memory.operations.find? symbol.display = some (.addressAware .applyPrimitive) then
      some (function, arguments)
    else none
  | _, _ => none

/-- A call of a function value, repeated at most so often. -/
def repeated (memory : Memory) (fuel : Nat) (call : Pointer × Pointer) :
    EStateM.Result Error Memory Applied :=
  callFuel fuel "" (.addressAware .applyPrimitive) [call.1, call.2] memory

theorem callFuel_eq_repeated (memory : Memory) (fuel : Nat) (name : String) (p q : Pointer) :
    callFuel fuel name (.addressAware .applyPrimitive) [p, q] memory = repeated memory fuel (p, q) := by
  cases fuel <;> rfl

theorem repeated_succ (memory : Memory) (fuel : Nat) (p q : Pointer) :
    repeated memory (fuel + 1) (p, q) = (do
      let symbol ← Action.inspect fun memory => memory.tail p
      let inputs ← Action.inspect fun memory => memory.items q
      let operation ← Action.operation symbol.display
      let applied ← Action.mapError countMistake (callFuel fuel symbol.display operation inputs)
      return (⟨applied.value, [p, q]⟩ : Applied) : Action Applied) memory :=
  rfl

/-- With as many repetitions on both sides, calls are tied. -/
theorem repeated_tied (fuel : Nat) (twin : Twin ρ left right) (functions : p.Matches ρ p')
    (arguments : q.Matches ρ q') :
    Action.Tied (Keeps (origin ρ left right) Applied.Matches) (repeated left fuel (p, q))
      (repeated right fuel (p', q')) := by
  induction fuel generalizing p q p' q' with
  | zero =>
    refine .error (.addresses ?_) id twin.tallies
    simp only [Error.rename, MachineError.rename, functions.rename_zero]
  | succ fuel ih =>
    rw [repeated_succ, repeated_succ]
    refine (Action.Tied.inspect (twin.tail functions) twin.tallies).bind ?_
    rintro symbol _ symbol' _ ⟨rfl, rfl, symbols⟩
    refine (Action.Tied.inspect (twin.items arguments) twin.tallies).bind ?_
    rintro inputs left inputs' right ⟨rfl, rfl, rows⟩
    refine (operation_tied twin symbols).bind ?_
    rintro operation left _ right ⟨rfl, rfl, rfl, names⟩
    rw [names]
    have called : Action.Tied (Keeps (origin ρ left right) Applied.Matches)
        (callFuel fuel symbol'.display operation inputs left)
        (callFuel fuel symbol'.display operation inputs' right) := by
      by_cases repeats : Repeats operation inputs
      · obtain ⟨rfl, length⟩ := repeats
        obtain ⟨one, other, rfl⟩ := List.length_eq_two.mp length
        cases rows with | cons first rows =>
        cases rows with | cons second rows =>
        cases rows
        rw [callFuel_eq_repeated, callFuel_eq_repeated]
        exact ih first second
      · have repeats' : ¬ Repeats operation inputs' := by rwa [Repeats, ← rows.length_eq]
        rw [callFuel_eq_zero repeats, callFuel_eq_zero repeats']
        exact callFuel_zero_tied _ repeats twin rows
    refine (mapError_tied called).bind ?_
    rintro applied l applied' r ⟨σ, kin, matched⟩
    exact .ok ⟨σ, kin, matched⟩

theorem chain?_eq_some_iff {memory : Memory} {f g : Pointer} :
    chain? memory (p, q) = some (f, g) ↔ ∃ symbol, memory.tail p = .ok symbol ∧
      memory.items q = .ok [f, g] ∧
      memory.operations.find? symbol.display = some (.addressAware .applyPrimitive) := by
  unfold chain?
  constructor
  · intro taken
    split at taken
    next symbol f' g' tailRead itemsRead =>
      split at taken
      next found =>
        cases taken
        exact ⟨symbol, tailRead, itemsRead, found⟩
      next => cases taken
    next => cases taken
  · rintro ⟨symbol, tailRead, itemsRead, found⟩
    simp only [tailRead, itemsRead, found, if_true]

theorem items_cons {memory : Memory} {item : Pointer} {rest : List Pointer}
    (read : memory.items p = .ok (item :: rest)) : ∃ tail, memory.tail p = .ok tail := by
  simp only [Memory.items, listItems] at read
  split at read
  · cases read
  · cases headRead : memory.head p with
    | error e => rw [headRead] at read; cases read
    | ok head =>
      cases tailRead : memory.tail p with
      | error e => rw [headRead, tailRead] at read; cases read
      | ok tail => exact ⟨tail, rfl⟩

/-- A call repeats no more often than there are pairs: the call it makes is
found in its list of arguments, which has its own pair each time. -/
theorem repeated_walk (memory : Memory) :
    Walk (chain? memory) memory.heap.free (repeated memory)
      (fun result => ∃ a, result = .error (.machine (.endless (.pair a))) memory) where
  halt := by
    rintro ⟨p, q⟩ k ended
    simp only [repeated_succ, Action.inspect, Action.operation, Action.mapError, bind, EStateM.bind]
    cases tailRead : memory.tail p with
    | error e => rfl
    | ok symbol =>
      cases itemsRead : memory.items q with
      | error e => simp only [itemsRead]
      | ok inputs =>
        cases found : memory.operations.find? symbol.display with
        | none => simp only [itemsRead, found]
        | some operation =>
          have once : ¬ Repeats operation inputs := by
            rintro ⟨rfl, length⟩
            obtain ⟨f, g, rfl⟩ := List.length_eq_two.mp length
            have taken := chain?_eq_some_iff.mpr ⟨symbol, tailRead, itemsRead, found⟩
            rw [ended] at taken
            cases taken
          simp only [itemsRead, found, callFuel_eq_zero once k]
  go := by
    rintro ⟨p, q⟩ ⟨f, g⟩ taken
    obtain ⟨symbol, tailRead, itemsRead, found⟩ := chain?_eq_some_iff.mp taken
    refine ⟨fun result => match result with
      | .ok applied memory => .ok ⟨applied.value, [p, q]⟩ memory
      | .error cause memory => .error (countMistake cause) memory, fun k => ?_, ?_⟩
    · simp only [repeated_succ, Action.inspect, Action.operation, Action.mapError, bind,
        EStateM.bind, tailRead, itemsRead, found, callFuel_eq_repeated]
      cases repeated memory k (f, g) <;> rfl
    · rintro _ ⟨a, rfl⟩
      exact ⟨a, rfl⟩
  zero := by
    rintro ⟨p, q⟩ ⟨f, g⟩ taken
    obtain ⟨symbol, tailRead, _⟩ := chain?_eq_some_iff.mp taken
    exact ⟨p.address, by rw [← (address_lt tailRead).1]; rfl⟩
  bound := by
    intro n call stops
    refine @Stops.le_limit _ _ _ _ _ (fun call => call.2.address) ?_ ?_ stops
    · rintro ⟨p, q⟩ ⟨f, g⟩ taken
      obtain ⟨_, _, itemsRead, _⟩ := chain?_eq_some_iff.mp taken
      obtain ⟨tail, tailRead⟩ := items_cons itemsRead
      exact (address_lt tailRead).2
    · rintro ⟨p, q⟩ ⟨f, g⟩ ⟨p', q'⟩ ⟨f', g'⟩ taken taken' same
      obtain ⟨_, _, itemsRead, _⟩ := chain?_eq_some_iff.mp taken
      obtain ⟨_, _, itemsRead', _⟩ := chain?_eq_some_iff.mp taken'
      obtain ⟨tail, tailRead⟩ := items_cons itemsRead
      obtain ⟨tail', tailRead'⟩ := items_cons itemsRead'
      have sameList : q = q' := by
        rw [(address_lt tailRead).1, (address_lt tailRead').1]
        exact congrArg Pointer.pair same
      subst sameList
      rw [itemsRead] at itemsRead'
      simp_all

theorem chain?_together (twin : Twin ρ left right) (functions : p.Matches ρ p')
    (arguments : q.Matches ρ q') :
    chain? left (p, q) = none ∧ chain? right (p', q') = none ∨
      ∃ c d, chain? left (p, q) = some c ∧ chain? right (p', q') = some d ∧
        c.1.Matches ρ d.1 ∧ c.2.Matches ρ d.2 := by
  have tails := twin.tail functions
  have items := twin.items arguments
  unfold chain?
  dsimp only
  generalize left.tail p = x at tails
  generalize right.tail p' = y at tails
  generalize left.items q = u at items
  generalize right.items q' = v at items
  cases tails with
  | error _ _ => exact .inl ⟨rfl, rfl⟩
  | @ok symbol symbol' symbols =>
    cases items with
    | error _ _ => exact .inl ⟨rfl, rfl⟩
    | ok rows =>
      match rows with
      | .nil => exact .inl ⟨rfl, rfl⟩
      | .cons _ .nil => exact .inl ⟨rfl, rfl⟩
      | .cons _ (.cons _ (.cons _ _)) => exact .inl ⟨rfl, rfl⟩
      | .cons first (.cons second .nil) =>
        rw [← twin.matched.operations]
        have named : left.operations.find? symbol.display = left.operations.find? symbol'.display := by
          cases symbols with
          | scalar value => rfl
          | program address => rfl
          | @pair a b related => rw [twin.unnamed a, twin.unnamed b]
        simp only [named]
        split
        · exact .inr ⟨_, _, rfl, rfl, first, second⟩
        · exact .inl ⟨rfl, rfl⟩

/-- Operations on matching operands in twin memories are tied: they give
matching results and leave twins, or fail alike, however different the two
heaps are in size and in what they have collected. -/
theorem call_tied (name : String) (operation : Operation) (twin : Twin ρ left right)
    (rows : Rows ρ ps qs) :
    Action.Tied (Keeps (origin ρ left right) Applied.Matches) (operation.call name ps left)
      (operation.call name qs right) := by
  unfold call
  by_cases repeats : Repeats operation ps
  · obtain ⟨rfl, length⟩ := repeats
    match rows, length with
    | .cons first (.cons second .nil), _ =>
      rw [callFuel_eq_repeated, callFuel_eq_repeated]
      have together (c d : Pointer × Pointer) (related : c.1.Matches ρ d.1 ∧ c.2.Matches ρ d.2) :=
        chain?_together twin related.1 related.2
      refine (repeated_walk left).tied (repeated_walk right) together
        (fun k c d related => repeated_tied k twin related.1 related.2) ?_ ⟨first, second⟩
      rintro _ _ ⟨a, rfl⟩ ⟨b, rfl⟩
      exact .error (.addresses rfl) id twin.tallies
  · have repeats' : ¬ Repeats operation qs := by rwa [Repeats, ← rows.length_eq]
    rw [callFuel_eq_zero repeats, callFuel_eq_zero repeats']
    exact callFuel_zero_tied _ repeats twin rows

end Operation

end ExplicitControl
