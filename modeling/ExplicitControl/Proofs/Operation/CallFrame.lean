import ExplicitControl.Proofs.Operation.Spending

namespace ExplicitControl

/-- No symbol is the same as one before it. -/
def Distinct (symbols : List Pointer) : Prop :=
  symbols.Pairwise fun earlier later => (later == earlier) = false

/-- The first symbol that is the same as one before it. -/
def FirstRepeated (symbols : List Pointer) (symbol : Pointer) : Prop :=
  ∃ before after, symbols = before ++ symbol :: after ∧ Distinct before ∧ before.contains symbol = true

namespace ProgramHeap

/-- A proper list of the program. -/
inductive Lists (program : ProgramHeap) : Pointer → List Pointer → Prop
  | nil : Lists program .null []
  | cons {a : Nat} {item rest : Pointer} {items : List Pointer} :
      program.cells[a]? = some (item, rest) → Lists program rest items → Lists program (.program a) (item :: items)

/-- A node for a name, with its symbol. -/
def NameNode (program : ProgramHeap) (node symbol : Pointer) : Prop :=
  program.Lists node [.string "name", symbol]

/-- A node, with the symbol that it declares if it is a declaration. -/
inductive Declaring (program : ProgramHeap) : Pointer → Option Pointer → Prop
  | declaration {statement node symbol : Pointer} {rest : List Pointer} {kind : ExpressionKind} {tag : String} :
      kind.isDeclaration = true → tag ∈ kind.tags → program.Lists statement (.string tag :: node :: rest) →
      program.NameNode node symbol → Declaring program statement (some symbol)
  | other {statement : Pointer} :
      (∀ kind, ExpressionKind.classify program statement = some kind → kind.isDeclaration = false) →
      Declaring program statement none

/-- A body, with the symbols that it declares: those of the statements of a
sequence, or its own. -/
inductive Scanned (program : ProgramHeap) : Pointer → List Pointer → Prop
  | sequence {body list : Pointer} {rest statements : List Pointer} {declared : List (Option Pointer)} :
      program.Lists body (.string "sequence" :: list :: rest) → program.Lists list statements →
      List.Forall₂ program.Declaring statements declared → Scanned program body (declared.filterMap id)
  | single {body : Pointer} {declared : Option Pointer} :
      ExpressionKind.classify program body ≠ some .sequence → program.Declaring body declared →
      Scanned program body declared.toList

end ProgramHeap

namespace Memory

variable {memory : Memory} {p q symbol : Pointer} {items : List Pointer}

theorem programHead_eq {a : Nat} {item rest : Pointer} (found : memory.program.cells[a]? = some (item, rest)) :
    memory.programHead (.program a) = .ok item := by
  simp only [programHead, ProgramHeap.head, ProgramHeap.cell, found]
  rfl

theorem programTail_eq {a : Nat} {item rest : Pointer} (found : memory.program.cells[a]? = some (item, rest)) :
    memory.programTail (.program a) = .ok rest := by
  simp only [programTail, ProgramHeap.tail, ProgramHeap.cell, found]
  rfl

theorem chained_of_programLists (lists : memory.program.Lists p items) :
    Chained memory.programHead memory.programTail p items := by
  induction lists with
  | nil => exact .nil
  | cons found _ ih => exact .cons rfl (programHead_eq found) (programTail_eq found) ih

theorem programItems_of_lists (lists : memory.program.Lists p items) : memory.programItems p = .ok items :=
  (chained_of_programLists lists).listItems_eq (programItems_walk memory p)

theorem programItem_of_lists {item : Pointer} {index : Nat} (lists : memory.program.Lists p items)
    (found : items[index]? = some item) : memory.programItem p index = .ok item :=
  (chained_of_programLists lists).listRef_eq found

theorem classify_of_lists {tag : String} {rest : List Pointer} (lists : memory.program.Lists p (.string tag :: rest)) :
    ExpressionKind.classify memory.program p = ExpressionKind.ofTag? tag := by
  obtain _ | ⟨found, _⟩ := lists
  simp only [ExpressionKind.classify, ProgramHeap.head, ProgramHeap.cell, found]
  rfl

end Memory

namespace Environment

theorem contains_eq_false {found : List Pointer} {symbol : Pointer} (other : ∀ p ∈ found, (symbol == p) = false) :
    found.contains symbol = false := by
  rw [List.contains_eq_any_beq, List.any_eq_false]
  exact fun p member same => Bool.false_ne_true ((other p member).symm.trans same)

/-- Symbols that are all different are gathered one after the other, and come
out in the order in which they went in. -/
theorem foldlM_addSymbol_distinct {found symbols : List Pointer} (distinct : Distinct (found ++ symbols)) :
    symbols.foldlM addSymbol found = .ok (found ++ symbols) := by
  induction symbols generalizing found with
  | nil => simp only [List.foldlM_nil, List.append_nil]; rfl
  | cons symbol rest ih =>
    have other := (List.pairwise_append.mp distinct).2.2
    have new : found.contains symbol = false := contains_eq_false fun p member => other p member symbol (.head _)
    rw [List.append_cons] at distinct
    have added : addSymbol found symbol = .ok (found ++ [symbol]) := by
      rw [addSymbol, new]
      rfl
    rw [List.foldlM_cons, added, List.append_cons found symbol rest]
    exact ih distinct

/-- The first symbol that is there already is reported, whatever comes after
it. -/
theorem foldlM_addSymbol_repeated {symbols : List Pointer} {symbol : Pointer}
    (repeated : FirstRepeated symbols symbol) :
    symbols.foldlM addSymbol [] = .error (.eval (.duplicateDeclaration symbol)) := by
  obtain ⟨before, after, rfl, distinct, present⟩ := repeated
  have gathered : before.foldlM addSymbol [] = .ok ([] ++ before) := foldlM_addSymbol_distinct distinct
  rw [List.foldlM_append, gathered]
  change (symbol :: after).foldlM addSymbol before = _
  rw [List.foldlM_cons, addSymbol, present]
  rfl

variable {memory : Memory} {body statement parameters : Pointer} {nodes symbols : List Pointer}

/-- The symbols of a list of parameters are gathered, if its items are nodes
for names. -/
theorem parameterNames_of_lists (lists : memory.program.Lists parameters nodes)
    (named : List.Forall₂ memory.program.NameNode nodes symbols) :
    parameterNames memory parameters = symbols.foldlM addSymbol [] := by
  unfold parameterNames
  rw [Memory.programItems_of_lists lists]
  change nodes.foldlM _ [] = _
  generalize ([] : List Pointer) = found
  induction named generalizing found parameters with
  | nil => rfl
  | @cons node symbol nodes symbols isNode _ ih =>
    obtain _ | ⟨_, rest⟩ := lists
    rw [List.foldlM_cons, List.foldlM_cons, Memory.programItem_of_lists isNode rfl]
    change (addSymbol found symbol >>= _) = _
    exact congrArg _ (funext fun found => ih rest found)

theorem ofTag_of_isDeclaration {kind : ExpressionKind} {tag : String} (isDeclaration : kind.isDeclaration = true)
    (tagged : tag ∈ kind.tags) : ExpressionKind.ofTag? tag = some kind := by
  cases kind with
  | constantDeclaration =>
    obtain rfl := List.mem_singleton.mp tagged
    decide +kernel
  | variableDeclaration =>
    obtain rfl := List.mem_singleton.mp tagged
    decide +kernel
  | _ => cases isDeclaration

/-- Only a declaration adds a symbol. Any other statement is passed over,
whatever is declared inside it. -/
theorem gather_statement {declared : Option Pointer} (declaring : memory.program.Declaring statement declared)
    (found : List Pointer) :
    (if declares memory statement then do addSymbol found (← declarationSymbol memory statement) else .ok found)
      = declared.toList.foldlM addSymbol found := by
  cases declaring with
  | @declaration node symbol rest kind tag isDeclaration tagged lists named =>
    have isDeclares : declares memory statement = true := by
      rw [declares, Memory.classify_of_lists lists, ofTag_of_isDeclaration isDeclaration tagged]
      exact isDeclaration
    have read : declarationSymbol memory statement = .ok symbol := by
      rw [declarationSymbol, Memory.programItem_of_lists lists rfl]
      exact Memory.programItem_of_lists named rfl
    rw [if_pos isDeclares, read]
    change addSymbol found symbol = _
    rw [Option.toList_some, List.foldlM_cons]
    exact (bind_pure _).symm
  | other plain =>
    have isOther : declares memory statement = false := by
      unfold declares
      cases classified : ExpressionKind.classify memory.program statement with
      | none => rfl
      | some kind => exact plain kind classified
    rw [isOther]
    rfl

/-- The symbols that a body declares are gathered, once each and in the order
of the statements. -/
theorem declaredNames_of_scanned {declared : List Pointer} (scanned : memory.program.Scanned body declared) :
    declaredNames memory body = declared.foldlM addSymbol [] := by
  cases scanned with
  | @sequence list rest items declared lists itemLists declaring =>
    have isSequence : ExpressionKind.classify memory.program body = some .sequence :=
      (Memory.classify_of_lists lists).trans (by decide +kernel)
    have read : statements memory body = .ok items := by
      rw [statements, if_pos isSequence, Memory.programItem_of_lists lists rfl]
      exact Memory.programItems_of_lists itemLists
    rw [declaredNames, read]
    clear itemLists read
    change items.foldlM _ [] = _
    generalize ([] : List Pointer) = found
    induction declaring generalizing found with
    | nil => rfl
    | @cons statement symbol items declared first _ ih =>
      have split : (symbol :: declared).filterMap id = symbol.toList ++ declared.filterMap id := by
        cases symbol <;> rfl
      rw [List.foldlM_cons, gather_statement first, split, List.foldlM_append]
      exact congrArg _ (funext fun found => ih found)
  | @single declared other declaring =>
    have read : statements memory body = .ok [body] := by
      rw [statements, if_neg other]
    rw [declaredNames, read]
    exact (bind_pure _).trans (gather_statement declaring [])

end Environment

namespace HeapOperation

/-- A call: a function value with the names of its parameters, the names that
its body declares and the environment that encloses it, and the arguments. -/
structure Calling (memory : Memory) (function arguments : Pointer) (parameters declared values : List Pointer)
    (closure : Pointer) : Prop where
  function : ∃ list nodes body, memory.heap.Lists function [.string "compound", list, body, closure] ∧
    memory.program.Lists list nodes ∧ List.Forall₂ memory.program.NameNode nodes parameters ∧
    memory.program.Scanned body declared
  arguments : memory.heap.Lists arguments values

/-- Every pair there was is unchanged but for where it lies: those that can
still be reached are all there, and whatever is there holds what it held. -/
structure Unchanged (memory : Memory) (pending : List Pointer) (final : Memory) : Prop where
  reached : ∀ a, memory.heap.Reaches (memory.roots pending) a → ∃ b, memory.heap.Carries final.heap a b
  held : ∀ a b head tail, memory.heap.Carries final.heap a b → memory.heap.Holds a head tail →
    ∃ head' tail', final.heap.Holds b head' tail' ∧ head.Matches (memory.heap.Carries final.heap) head' ∧
      tail.Matches (memory.heap.Carries final.heap) tail'

/-- The names that a body declares besides the parameters. -/
def locals (parameters declared : List Pointer) : List Pointer :=
  declared.filter fun symbol => !parameters.contains symbol

/-- What comes of a call. -/
structure OpensFrame (memory : Memory) (function arguments : Pointer) (parameters declared values : List Pointer)
    (closure : Pointer) : Prop where
  repeatedParameter : ∀ symbol, FirstRepeated parameters symbol →
    HeapOperation.extendCall.run [function, arguments] memory = .error (.eval (.duplicateDeclaration symbol)) memory
  tooMany : Distinct parameters → parameters.length < values.length →
    HeapOperation.extendCall.run [function, arguments] memory
      = .error (.eval (.tooMany parameters.length values.length)) memory
  tooFew : Distinct parameters → values.length < parameters.length →
    HeapOperation.extendCall.run [function, arguments] memory
      = .error (.eval (.tooFew parameters.length values.length)) memory
  repeatedName : Distinct parameters → values.length = parameters.length → ∀ symbol, FirstRepeated declared symbol →
    HeapOperation.extendCall.run [function, arguments] memory = .error (.eval (.duplicateDeclaration symbol)) memory
  frame : Distinct parameters → values.length = parameters.length → Distinct declared →
    ∀ count, count = 3 * (parameters.length + (locals parameters declared).length) + 2 →
    (memory.reserve count [function, arguments]).outcome = .ok () →
    ∃ environment moved final values' closure',
      HeapOperation.extendCall.run [function, arguments] memory = .ok ⟨environment, moved⟩ final ∧
      List.Forall₂ (Pointer.Matches (memory.heap.Carries final.heap)) values values' ∧
      closure.Matches (memory.heap.Carries final.heap) closure' ∧
      final.heap.Framed environment
        (List.zipWith Binding.mutable parameters values' ++ (locals parameters declared).map Binding.declared)
          closure' ∧
      final.heap.statistics.allocated = memory.heap.statistics.allocated + count ∧
      Unchanged memory [function, arguments] final

section

variable {memory : Memory} {function arguments closure : Pointer} {parameters declared values : List Pointer}
  (calling : Calling memory function arguments parameters declared values closure)
include calling

/-- The names of a call are found in the order in which its mistakes are: a
parameter that is repeated comes first, then a wrong number of arguments, then
a declaration that is repeated. -/
theorem Calling.callNames : Environment.callNames memory function arguments = do
    let names ← parameters.foldlM Environment.addSymbol []
    Environment.checkCount names.length values.length
    return (names, locals names (← declared.foldlM Environment.addSymbol [])) := by
  obtain ⟨list, nodes, body, isFunction, lists, named, scanned⟩ := calling.function
  unfold Environment.callNames
  rw [Memory.item_of_lists isFunction rfl, Memory.item_of_lists isFunction rfl]
  change (do
    let names ← Environment.parameterNames memory list
    Environment.checkCount names.length (← memory.items arguments).length
    return (names, locals names (← Environment.declaredNames memory body))) = _
  rw [Environment.parameterNames_of_lists lists named, Environment.declaredNames_of_scanned scanned,
    Memory.items_of_lists calling.arguments]
  rfl

omit calling in
theorem extendCall_of_mistake {cause : Error}
    (mistaken : Environment.callNames memory function arguments = .error cause) :
    HeapOperation.extendCall.run [function, arguments] memory = .error cause memory := by
  rw [run_extendCall, Action.inspect_bind_error mistaken]

/-- Function and arguments are there, so a collection on the way keeps both. -/
theorem Calling.below : ∀ p ∈ [function, arguments], p.Below memory.heap.free := by
  obtain ⟨list, nodes, body, isFunction, _⟩ := calling.function
  have inUse {p : Pointer} {items : List Pointer} (lists : memory.heap.Lists p items) : p.Below memory.heap.free := by
    cases lists with
    | nil => trivial
    | cons holds _ => exact holds.lt
  simp only [List.mem_cons, List.not_mem_nil, or_false]
  rintro p (rfl | rfl)
  · exact inUse isFunction
  · exact inUse calling.arguments

/-- With room set aside the frame is there: its bindings are allocated, then
the frame, then the environment that it is put before. -/
theorem Calling.opens (closed : memory.Closed) {names : List Pointer} {after : Memory} {moved : List Pointer}
    (counted : values.length = parameters.length)
    (found : Environment.callNames memory function arguments = .ok (parameters, names))
    (reserved : memory.reserve (Environment.frameSize (parameters.length + names.length)) [function, arguments]
      = ⟨after, moved, .ok ()⟩) :
    ∃ environment heap values' closure',
      HeapOperation.extendCall.run [function, arguments] memory = .ok ⟨environment, moved⟩ (after.withHeap heap) ∧
      List.Forall₂ (Pointer.Matches (memory.heap.Carries after.heap)) values values' ∧
      closure.Matches (memory.heap.Carries after.heap) closure' ∧
      heap.Framed environment (List.zipWith Binding.mutable parameters values' ++ names.map Binding.declared)
        closure' ∧
      after.heap.Enlarged (Environment.frameSize (parameters.length + names.length)) heap := by
  have granted := closed.granted calling.below reserved
  obtain ⟨list, nodes, body, isFunction, _⟩ := calling.function
  obtain ⟨function', arguments', functionMoved, argumentsMoved, rfl⟩ := granted.two
  obtain ⟨values', listed, rows⟩ := granted.matched.heap.lists calling.arguments argumentsMoved
  obtain ⟨items, isFunction', parts⟩ := granted.matched.heap.lists isFunction functionMoved
  obtain _ | ⟨_, parts⟩ := parts
  obtain _ | ⟨_, parts⟩ := parts
  obtain _ | ⟨_, parts⟩ := parts
  obtain _ | ⟨closureMoved, _⟩ := parts
  have closureRead : after.item function' 3 = .ok _ := Memory.item_of_lists isFunction' rfl
  have count : (List.zipWith Binding.mutable parameters values' ++ names.map Binding.declared).length
      = parameters.length + names.length := by
    rw [List.length_append, List.length_zipWith, List.length_map, ← rows.length_eq, counted, Nat.min_self]
  obtain ⟨environment, heap, pushed, enlarged, framed⟩ :=
    Action.Allots.push (List.zipWith Binding.mutable parameters values' ++ names.map Binding.declared) _
      granted.closed.heap.toSized (count.symm ▸ granted.room)
  refine ⟨environment, heap, values', _, ?_, rows, closureMoved, framed, count ▸ enlarged⟩
  have itemsRead : after.items arguments' = .ok values' := Memory.items_of_lists listed
  rw [run_extendCall, Action.inspect_bind_ok found]
  change EStateM.bind (Action.reserve _ _) _ memory = _
  simp only [EStateM.bind, Action.reserve, reserved]
  rw [Action.inspect_bind_ok itemsRead, Action.inspect_bind_ok closureRead]
  exact Action.bind_eq_ok_iff.mpr ⟨environment, _, pushed, rfl⟩

/-- A call builds the frame of its function, whether or not room has to be
made for it, or reports the first mistake in it. The frame binds the
parameters, in their order, to the arguments, and after them the names that
the body declares besides. Making room moves function, arguments and enclosing
environment alike. -/
theorem extendCall_opens_frame (closed : memory.Closed) :
    OpensFrame memory function arguments parameters declared values closure := by
  have distinct {symbols : List Pointer} (isDistinct : Distinct symbols) :
      symbols.foldlM Environment.addSymbol [] = .ok symbols := Environment.foldlM_addSymbol_distinct isDistinct
  have counted (isDistinct : Distinct parameters) : Environment.callNames memory function arguments = do
      Environment.checkCount parameters.length values.length
      return (parameters, locals parameters (← declared.foldlM Environment.addSymbol [])) := by
    rw [calling.callNames, distinct isDistinct]
    rfl
  refine ⟨fun symbol repeated => ?_, fun isDistinct more => ?_, fun isDistinct fewer => ?_,
    fun isDistinct same symbol repeated => ?_, ?_⟩
  · refine extendCall_of_mistake ?_
    rw [calling.callNames, Environment.foldlM_addSymbol_repeated repeated]
    rfl
  · refine extendCall_of_mistake ?_
    rw [counted isDistinct, Environment.checkCount, if_pos more]
    rfl
  · refine extendCall_of_mistake ?_
    rw [counted isDistinct, Environment.checkCount, if_neg (Nat.not_lt.mpr fewer.le), if_pos fewer]
    rfl
  · refine extendCall_of_mistake ?_
    rw [counted isDistinct, Environment.checkCount, same, if_neg (Nat.lt_irrefl _), if_neg (Nat.lt_irrefl _),
      Environment.foldlM_addSymbol_repeated repeated]
    rfl
  · rintro isDistinct same isDistinct' count rfl granted
    have found : Environment.callNames memory function arguments = .ok (parameters, locals parameters declared) := by
      rw [counted isDistinct, Environment.checkCount, same, if_neg (Nat.lt_irrefl _), if_neg (Nat.lt_irrefl _),
        distinct isDistinct']
      rfl
    rcases reserved : memory.reserve _ [function, arguments] with ⟨after, moved, outcome⟩
    rw [reserved] at granted
    cases granted
    obtain ⟨environment, heap, values', closure', ran, rows, closureMoved, framed, enlarged⟩ :=
      calling.opens closed same found reserved
    have carries : memory.heap.Carries after.heap = memory.heap.Carries (after.withHeap heap).heap := by
      funext a b
      exact propext enlarged.carries_iff.symm
    have granted := closed.granted calling.below reserved
    have reached := granted.reached
    have pairs := granted.matched.heap.pairs
    rw [carries] at rows closureMoved reached pairs
    refine ⟨environment, moved, after.withHeap heap, values', closure', ran, rows, closureMoved,
      framed, ?_, reached, ?_⟩
    · exact enlarged.allocated.trans (congrArg (· + _) granted.matched.allocated.symm)
    · intro a b head tail carried holds
      obtain ⟨head₁, tail₁, head', tail', holds₁, holds', heads, tails⟩ := pairs a b carried
      obtain ⟨rfl, rfl⟩ := holds.unique holds₁
      exact ⟨head', tail', enlarged.kept _ _ _ holds', heads, tails⟩

end

/-- A function of `x` and `y`, whose body declares `y` and `z`, and arguments
for it, in a heap without room for the frame as long as it is not collected. -/
def called : Memory where
  heap :=
    { PairHeap.empty 18 with
      active := #[⟨.value .null, .null⟩, ⟨.value (.string "compound"), .pair 2⟩, ⟨.value (.program 4), .pair 3⟩,
        ⟨.value (.program 6), .pair 4⟩, ⟨.value (.pair 5), .null⟩, ⟨.value .null, .null⟩,
        ⟨.value (.bool true), .pair 7⟩, ⟨.value (.pair 5), .null⟩] ++ Region.blank 10
      free := 8 }
  program :=
    { cells := #[(.string "name", .program 1), (.string "x", .null), (.string "name", .program 3),
        (.string "y", .null), (.program 0, .program 5), (.program 2, .null), (.string "sequence", .program 7),
        (.program 8, .null),
        (.program 10, .program 9), (.program 12, .null), (.string "constant_declaration", .program 11),
        (.program 2, .null), (.string "constant_declaration", .program 13), (.program 14, .null),
        (.string "name", .program 15), (.string "z", .null)] }
  registers := #[⟨"fun", .pointer (.pair 1)⟩, ⟨"argl", .pointer (.pair 6)⟩]
  stack := {}
  operations := .standard
  journal := #[]

theorem called_opens_frame :
    called.heap.available < 11 ∧ (called.reserve 11 [.pair 1, .pair 6]).outcome = .ok () ∧
    OpensFrame called (.pair 1) (.pair 6) [.string "x", .string "y"] [.string "y", .string "z"] [.bool true, .pair 5]
      (.pair 5) := by
  have closed : called.Closed := by
    refine ⟨⟨⟨rfl, by simp [called, PairHeap.empty, Region.blank], by decide⟩, ?_⟩, ?_, ?_⟩
    · exact PairHeap.check_eq_ok_iff.mp rfl
    · simp [called, Contents.Below, Pointer.Below]
    · simp [called]
  have calling : Calling called (.pair 1) (.pair 6) [.string "x", .string "y"] [.string "y", .string "z"]
      [.bool true, .pair 5] (.pair 5) := by
    have name (a b : Nat) (symbol : String) (first : called.program.cells[a]? = some (.string "name", .program b))
        (second : called.program.cells[b]? = some (.string symbol, .null)) :
        called.program.NameNode (.program a) (.string symbol) :=
      .cons first (.cons second .nil)
    have constant {statement node symbol : Pointer}
        (lists : called.program.Lists statement [.string "constant_declaration", node])
        (named : called.program.NameNode node symbol) : called.program.Declaring statement (some symbol) :=
      have isDeclaration : ExpressionKind.constantDeclaration.isDeclaration = true := rfl
      .declaration isDeclaration (.head _) lists named
    exact ⟨⟨.program 4, [.program 0, .program 2], .program 6,
      .cons ⟨by decide, rfl⟩ (.cons ⟨by decide, rfl⟩ (.cons ⟨by decide, rfl⟩ (.cons ⟨by decide, rfl⟩ .nil))),
      .cons rfl (.cons rfl .nil), .cons (name 0 1 _ rfl rfl) (.cons (name 2 3 _ rfl rfl) .nil),
      .sequence (.cons rfl (.cons rfl .nil)) (.cons rfl (.cons rfl .nil))
        (.cons (constant (.cons rfl (.cons rfl .nil)) (name 2 3 _ rfl rfl))
          (.cons (constant (.cons rfl (.cons rfl .nil)) (name 14 15 _ rfl rfl)) .nil))⟩,
      .cons ⟨by decide, rfl⟩ (.cons ⟨by decide, rfl⟩ .nil)⟩
  exact ⟨by decide, by rfl, extendCall_opens_frame calling closed⟩

end HeapOperation

end ExplicitControl
