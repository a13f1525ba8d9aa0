import ExplicitControl.Proofs.Evaluator.Calls
import ExplicitControl.Proofs.Evaluator.Census
import ExplicitControl.Proofs.Memory.Allotment

namespace ExplicitControl

open Float.Model in
/-- Doubles are compared alike from both sides. NaN is different from itself
either way. -/
theorem float_beq_comm (x y : Float) : (x == y) = (y == x) := by
  change x.toModel.unpack.beq y.toModel.unpack = y.toModel.unpack.beq x.toModel.unpack
  generalize x.toModel.unpack = a
  generalize y.toModel.unpack = b
  have finite (m m' : Nat) (e e' : Int) :
      (compare e e').then (compare m m') = .eq ↔ (compare e' e).then (compare m' m) = .eq := by
    rw [Ordering.then_eq_eq, Ordering.then_eq_eq, Int.compare_eq_eq, Int.compare_eq_eq, Nat.compare_eq_eq,
      Nat.compare_eq_eq, eq_comm, @eq_comm _ m]
  cases a with
  | notANumber => cases b <;> rfl
  | infinity s =>
    cases b with
    | infinity t => cases s <;> cases t <;> rfl
    | _ => cases s <;> rfl
  | zero s =>
    cases b with
    | notANumber => rfl
    | zero t => rfl
    | infinity t => cases t <;> rfl
    | finite t m e h => cases t <;> rfl
  | finite s m e h =>
    cases b with
    | notANumber => cases s <;> rfl
    | zero t => cases s <;> rfl
    | infinity t => cases s <;> cases t <;> rfl
    | finite t m' e' h' =>
      rw [Bool.eq_iff_iff]
      cases s with
      | positive =>
        cases t with
        | negative => rfl
        | positive =>
          change (some _ == some _) = true ↔ (some _ == some _) = true
          rw [beq_iff_eq, beq_iff_eq, Option.some_inj, Option.some_inj, finite]
      | negative =>
        cases t with
        | positive => rfl
        | negative =>
          change (some _ == some _) = true ↔ (some _ == some _) = true
          rw [beq_iff_eq, beq_iff_eq, Option.some_inj, Option.some_inj, Ordering.swap_eq_eq,
            Ordering.swap_eq_eq, finite]

/-- Pointers are compared alike from both sides. -/
theorem Pointer.beq_comm (p q : Pointer) : (p == q) = (q == p) := by
  change same p q = same q p
  cases p with
  | pair a =>
    cases q with
    | pair b => exact BEq.comm
    | _ => rfl
  | program a =>
    cases q with
    | program b => exact BEq.comm
    | _ => rfl
  | scalar s =>
    cases q with
    | scalar t =>
      change Scalar.same s t = Scalar.same t s
      cases s <;> cases t <;> first | rfl | exact float_beq_comm _ _ | exact BEq.comm
    | _ => rfl

theorem Pointer.ne_of_not_contains {names : List Pointer} {p q : Pointer} (absent : names.contains q = false)
    (member : p ∈ names) : (p == q) = false := by
  rw [Pointer.beq_comm]
  by_contra same
  have present := List.contains_iff_exists_mem_beq.mpr ⟨p, member, by simpa using same⟩
  rw [absent] at present
  cases present

/-- What every step keeps is kept by all of them, one after the other. -/
theorem Read.foldlM_keeps {α β : Type} {f : β → α → Except Error β} {keeps : β → Prop}
    (step : ∀ b a b', keeps b → f b a = .ok b' → keeps b') {items : List α} {b b' : β} (start : keeps b)
    (done : items.foldlM f b = .ok b') : keeps b' := by
  induction items generalizing b with
  | nil =>
    cases done
    exact start
  | cons a items ih =>
    obtain ⟨next, first, rest⟩ := Read.bind_eq_ok_iff.mp done
    exact ih (step b a next start first) rest

namespace Environment

variable {memory : Memory} {p : Pointer} {found names : List Pointer}

theorem addSymbol_distinct (distinct : found.Pairwise fun p q => (p == q) = false)
    (added : addSymbol found p = .ok names) : names.Pairwise fun p q => (p == q) = false := by
  unfold addSymbol at added
  split at added
  · cases added
  · rename_i absent
    cases added
    refine List.pairwise_append.mpr ⟨distinct, List.pairwise_singleton _ _, fun q member r isNew => ?_⟩
    cases List.mem_singleton.mp isNew
    exact Pointer.ne_of_not_contains (by simpa using absent) member

theorem declaredNames_distinct (declared : declaredNames memory p = .ok names) :
    names.Pairwise fun p q => (p == q) = false := by
  obtain ⟨statements, _, folded⟩ := Read.bind_eq_ok_iff.mp declared
  refine Read.foldlM_keeps (fun found statement found' distinct step => ?_) .nil folded
  split at step
  · obtain ⟨symbol, _, added⟩ := Read.bind_eq_ok_iff.mp step
    exact addSymbol_distinct distinct added
  · cases step
    exact distinct

theorem parameterNames_distinct (parameters : parameterNames memory p = .ok names) :
    names.Pairwise fun p q => (p == q) = false := by
  obtain ⟨items, _, folded⟩ := Read.bind_eq_ok_iff.mp parameters
  refine Read.foldlM_keeps (fun found item found' distinct step => ?_) .nil folded
  obtain ⟨symbol, _, added⟩ := Read.bind_eq_ok_iff.mp step
  exact addSymbol_distinct distinct added

end Environment

namespace Evaluator

open Interpreter (Node Law)

namespace Census

/-- A census that has grown by pairs only, and the heap that it fits. -/
structure Grows (layout : Layout) (law : Law) (census later : Census) (cells : Cells) : Prop where
  roles : census.roles <+: later.roles
  frames : later.frames = census.frames
  declared : later.declared = census.declared
  fits : later.Fits layout law cells

variable {layout : Layout} {law : Law} {census later last : Census} {cells cells' : Cells} {role : Role}
  {head tail : Pointer}

theorem Grows.extends (grows : census.Grows layout law later cells) : census.Extends later :=
  ⟨grows.roles, grows.frames ▸ List.prefix_refl _, grows.declared ▸ List.Subset.refl _⟩

theorem Grows.trans (one : census.Grows layout law later cells) (other : later.Grows layout law last cells') :
    census.Grows layout law last cells' :=
  ⟨one.roles.trans other.roles, other.frames.trans one.frames, other.declared.trans one.declared, other.fits⟩

theorem Fits.grows_refl (fits : census.Fits layout law cells) : census.Grows layout law census cells :=
  ⟨List.prefix_refl _, rfl, rfl, fits⟩

/-- A pair is allocated for a role, if what it is to hold is what the role
allows. -/
theorem Fits.allocReserved (fits : census.Fits layout law cells) (allows : census.Allows layout law role head tail) :
    Action.Brings layout.program table (Action.allocReserved head tail) cells fun p cells' =>
      ∃ later, census.Grows layout law later cells' ∧ ∃ a, p = .pair a ∧ later.Has a role :=
  .allocReserved ⟨census.grow role, ⟨(census.extends_grow role).roles, rfl, rfl, fits.grow allows⟩,
    cells.length, rfl, fits.has_new⟩

theorem Fits.buildNames (fits : census.Fits layout law cells) (names : List Pointer) :
    Action.Brings layout.program table (Action.buildList names) cells fun p cells' =>
      ∃ later, census.Grows layout law later cells' ∧ later.Names names p := by
  induction names with
  | nil => exact .pure ⟨census, fits.grows_refl, rfl⟩
  | cons name names ih =>
    refine ih.bind ?_ fun _ => .allocReserved _ _
    rintro tail cells' ⟨later, grows, rest⟩
    refine (grows.fits.allocReserved (.names rest)).mono ?_
    rintro p cells'' ⟨last, grows', pair⟩
    exact ⟨last, grows.trans grows', pair⟩

theorem Fits.buildBindings (fits : census.Fits layout law cells) (addresses : List Nat)
    (roles : ∀ a ∈ addresses, ∃ frame place, census.Has a (.binding frame place)) :
    Action.Brings layout.program table (Action.buildList (addresses.map .pair)) cells fun p cells' =>
      ∃ later, census.Grows layout law later cells' ∧ later.Bindings addresses p := by
  induction addresses with
  | nil => exact .pure ⟨census, fits.grows_refl, rfl⟩
  | cons a addresses ih =>
    obtain ⟨⟨frame, place, isBinding⟩, others⟩ := List.forall_mem_cons.mp roles
    refine (ih others).bind ?_ fun _ => .allocReserved _ _
    rintro tail cells' ⟨later, grows, rest⟩
    refine (grows.fits.allocReserved (.bindings (grows.extends.has isBinding) rest)).mono ?_
    rintro p cells'' ⟨last, grows', pair⟩
    exact ⟨last, grows.trans grows', pair⟩

/-- What a binding may start with in a frame. -/
structure Starts (law : Law) (census : Census) (frame : Nat) (binding : Binding) : Prop where
  value : census.Value law.strict false binding.value
  flag : IsFlag binding.flag
  open' : frame ≠ 0 → binding.flag ≠ .bool false

theorem Starts.mono {frame : Nat} {binding : Binding} (starts : census.Starts law frame binding)
    (ext : census.Extends later) : later.Starts law frame binding :=
  { starts with value := ext.value starts.value }

theorem Fits.allocBindings {frame : Nat} (fits : census.Fits layout law cells) (first : Nat) {bindings : List Binding}
    (starts : ∀ binding ∈ bindings, census.Starts law frame binding) :
    Action.Brings layout.program table (Environment.allocBindings bindings) cells fun ps cells' =>
      ∃ (later : Census) (addresses : List Nat), census.Grows layout law later cells' ∧
        ps = addresses.map .pair ∧
        addresses.length = bindings.length ∧
        ∀ place a, addresses[place]? = some a → later.Has a (.binding frame (first + place)) := by
  induction bindings generalizing census cells first with
  | nil => exact .pure ⟨census, [], fits.grows_refl, rfl, rfl, by simp⟩
  | cons binding bindings ih =>
    obtain ⟨here, others⟩ := List.forall_mem_cons.mp starts
    have allows : census.Allows layout law (.binding frame first) binding.value binding.flag :=
      .binding here.value here.flag fun _ inner _ => here.open' inner
    refine (fits.allocReserved allows).bind ?_ fun _ => (Action.Quiet.allocBindings _).bind fun _ => .pure _
    rintro _ cells' ⟨later, grows, a, rfl, isBinding⟩
    refine (ih grows.fits (first + 1) fun b member => (others b member).mono grows.extends).bind ?_ fun _ => .pure _
    rintro _ cells'' ⟨last, addresses, grows', rfl, count, roles⟩
    refine .pure ⟨last, a :: addresses, grows.trans grows', rfl, by simp [count], fun place b found => ?_⟩
    cases place with
    | zero =>
      cases found
      exact grows'.extends.has isBinding
    | succ place =>
      have role := roles place b found
      rwa [show first + 1 + place = first + (place + 1) by omega] at role

/-- What a new frame is put before: nothing, if it is the first one, or the
environment of a frame. -/
def Encloses (census : Census) (enclosing : Option Nat) (p : Pointer) : Prop :=
  match enclosing with
  | none => census.frames = [] ∧ p = .null
  | some frame => census.Environment frame p

theorem Fits.frame_of_environment {frame : Nat} {p : Pointer} (fits : census.Fits layout law cells)
    (environment : census.Environment frame p) : census.Known frame := by
  obtain ⟨a, rfl, role⟩ := environment
  obtain ⟨head, tail, _, allows⟩ := fits.exists_pair role
  cases allows with
  | outermost known _ => exact ⟨_, known⟩
  | environment known _ _ => exact ⟨_, known⟩

/-- A census that has grown by a frame with given names. -/
structure Opens (layout : Layout) (law : Law) (census later : Census) (cells : Cells) (names : List Pointer)
    (p : Pointer) : Prop where
  extends' : census.Extends later
  fits : later.Fits layout law cells
  environment : later.Environment census.frames.length p
  record : ∃ record, later.frames = census.frames ++ [record] ∧ record.names = names
  declared : later.declared = census.declared

/-- A frame is put before an environment: its pairs are allocated for the
roles of a frame, and the census has the new frame for its last. -/
theorem Fits.push {enclosing : Option Nat} {p : Pointer} {bindings : List Binding}
    (fits : census.Fits layout law cells)
    (starts : ∀ binding ∈ bindings, census.Starts law census.frames.length binding)
    (distinct : (bindings.map Binding.name).Pairwise fun p q => (p == q) = false)
    (encloses : census.Encloses enclosing p) :
    Action.Brings layout.program table (Environment.push bindings p) cells fun q cells' =>
      ∃ later, census.Opens layout law later cells' (bindings.map Binding.name) q := by
  refine (fits.allocBindings 0 starts).bind ?_ fun _ => (Action.Quiet.buildList _).bind fun _ =>
    (Action.Quiet.buildList _).bind fun _ => (Action.Quiet.allocReserved _ _).bind fun _ => .allocReserved _ _
  rintro _ cells₁ ⟨census₁, addresses, grows₁, rfl, count, roles⟩
  refine (grows₁.fits.buildNames _).bind ?_ fun _ => (Action.Quiet.buildList _).bind fun _ =>
    (Action.Quiet.allocReserved _ _).bind fun _ => .allocReserved _ _
  rintro namesList cells₂ ⟨census₂, grows₂, isNames⟩
  have cellRoles : ∀ place a, addresses[place]? = some a →
      census₂.Has a (.binding census.frames.length place) := by
    intro place a found
    have role := roles place a found
    rw [Nat.zero_add] at role
    exact grows₂.extends.has role
  refine (grows₂.fits.buildBindings addresses ?_).bind ?_ fun _ =>
    (Action.Quiet.allocReserved _ _).bind fun _ => .allocReserved _ _
  · intro a member
    obtain ⟨place, found⟩ := List.mem_iff_getElem?.mp member
    exact ⟨_, _, cellRoles place a found⟩
  rintro bindingsList cells₃ ⟨census₃, grows₃, isBindings⟩
  have ext₃ : census.Extends census₃ := (grows₁.trans (grows₂.trans grows₃)).extends
  have frames₃ : census₃.frames = census.frames := (grows₁.trans (grows₂.trans grows₃)).frames
  let record : FrameRecord := ⟨bindings.map Binding.name, addresses, enclosing, cells₃.length⟩
  have ext₄ := census₃.extends_enter record
  have last : (census₃.enter record).frames[census.frames.length]? = some record := by
    rw [← frames₃]
    exact List.getElem?_concat_length
  have orderly : (census₃.enter record).Orderly census₃.frames.length record := by
    refine ⟨by simp [record, count], distinct, fun place a found => ?_, ?_, ?_⟩
    · rw [frames₃]
      exact (grows₃.extends.trans ext₄).has (cellRoles place a found)
    · rw [Census.Has, show record.address = census₃.roles.length from grows₃.fits.count]
      exact List.getElem?_concat_length
    · rw [frames₃]
      cases enclosing with
      | none => simp [record, encloses.1]
      | some outer =>
        obtain ⟨_, known⟩ := fits.frame_of_environment encloses
        exact (List.getElem?_eq_some_iff.mp known).1
  have entered := grows₃.fits.enter (grows₃.extends.names isNames) isBindings orderly
  have framed : Action.Brings layout.program table (Action.allocReserved namesList bindingsList) cells₃
      fun frame cells₄ => frame = .pair cells₃.length ∧ (census₃.enter record).Fits layout law cells₄ :=
    .allocReserved ⟨rfl, entered⟩
  refine framed.bind ?_ fun _ => .allocReserved _ _
  rintro _ cells₄ ⟨rfl, fits₄⟩
  have allows : (census₃.enter record).Allows layout law (.environment census.frames.length)
      (.pair record.address) p := by
    cases enclosing with
    | none =>
      obtain ⟨_, rfl⟩ := encloses
      exact .outermost last rfl
    | some outer => exact .environment last rfl ((ext₃.trans ext₄).environment encloses)
  refine (fits₄.allocReserved allows).mono ?_
  rintro q cells₅ ⟨census₅, grows₅, a, rfl, isEnvironment⟩
  refine ⟨census₅, (ext₃.trans ext₄).trans grows₅.extends, grows₅.fits, ⟨a, rfl, isEnvironment⟩, ⟨record, ?_, rfl⟩, ?_⟩
  · rw [grows₅.frames, ← frames₃]
    rfl
  · rw [grows₅.declared]
    exact (grows₁.trans (grows₂.trans grows₃)).declared

/-- The names of the first frame. -/
def globalNames : List Pointer :=
  (Environment.primitiveNames ++ Environment.constants.map Prod.fst).map .string

theorem globalNames_distinct : globalNames.Pairwise fun p q => (p == q) = false := by
  decide

theorem Fits.allocPrimitives (fits : census.Fits layout law cells) {names : List String}
    (known : ∀ name ∈ names, name ∈ Environment.primitiveNames) :
    Action.Brings layout.program table (Environment.allocPrimitives names) cells fun bindings cells' =>
      ∃ later, census.Grows layout law later cells' ∧ bindings.map Binding.name = names.map .string ∧
        ∀ binding ∈ bindings, later.Starts law 0 binding := by
  induction names generalizing census cells with
  | nil => exact .pure ⟨census, fits.grows_refl, rfl, by simp⟩
  | cons name names ih =>
    obtain ⟨here, others⟩ := List.forall_mem_cons.mp known
    refine (fits.allocReserved (.primitive here)).bind ?_ fun _ =>
      (Action.Quiet.allocPrimitives _).bind fun _ => .pure _
    rintro _ cells' ⟨later, grows, a, rfl, role⟩
    refine (ih grows.fits others).bind ?_ fun _ => .pure _
    rintro bindings cells'' ⟨last, grows', named, starts⟩
    refine .pure ⟨last, grows.trans grows', by simp [Binding.constant, named], ?_⟩
    refine List.forall_mem_cons.mpr ⟨⟨.primitive (grows'.extends.has role), .inr (.inl rfl), ?_⟩, starts⟩
    exact fun inner => absurd rfl inner

/-- The first frame is made, with the names that every program can use. -/
theorem Fits.global (fits : census.Fits layout law cells) (first : census.frames = []) :
    Action.Brings layout.program table Environment.global cells fun p cells' =>
      ∃ later, census.Opens layout law later cells' globalNames p := by
  refine .reserve_bind ?_ fun _ => (Action.Quiet.allocPrimitives _).bind fun _ => .push _ _
  refine (fits.allocPrimitives fun _ => id).bind ?_ fun _ => .push _ _
  rintro functions cells' ⟨census', grows, named, starts⟩
  let rest := Environment.constants.map fun entry => Binding.constant (.string entry.1) entry.2
  have names : (functions ++ rest).map Binding.name = globalNames := by
    rw [List.map_append, named]
    rfl
  have frames : census'.frames = [] := grows.frames.trans first
  have all : ∀ binding ∈ functions ++ rest, census'.Starts law census'.frames.length binding := by
    rw [frames]
    refine List.forall_mem_append.mpr ⟨starts, fun binding member => ?_⟩
    obtain ⟨⟨name, value⟩, isConstant, rfl⟩ := List.mem_map.mp member
    have scalar : ∃ s, value = .scalar s := by
      simp only [Environment.constants, List.mem_cons, Prod.mk.injEq, List.not_mem_nil, or_false] at isConstant
      rcases isConstant with ⟨_, rfl⟩ | ⟨_, rfl⟩ | ⟨_, rfl⟩ <;> exact ⟨_, rfl⟩
    obtain ⟨s, rfl⟩ := scalar
    exact ⟨.scalar s, .inr (.inl rfl), fun inner => absurd rfl inner⟩
  have encloses : census'.Encloses none .null := ⟨frames, rfl⟩
  refine (grows.fits.push all (names ▸ globalNames_distinct) encloses).mono ?_
  rintro p cells'' ⟨later, opens⟩
  exact ⟨later, grows.extends.trans opens.extends', opens.fits, by simpa only [grows.frames] using opens.environment,
    by simpa only [grows.frames, names] using opens.record, opens.declared.trans grows.declared⟩

/-- What a body owes to a frame with given names can be met, each name being
owed at most once. -/
def Admits (law : Law) (names : List Pointer) (node : Node) : Prop :=
  law.scanned = true → ∃ owed, Interpreter.Duty names .body node owed ∧ owed.Nodup

theorem declaredNames_node {memory : Memory} {node : Node} {p : Pointer} {names : List Pointer}
    (placed : node.At layout.program layout.locate p) (bears : memory.Bears layout.program table cells)
    (declared : Environment.declaredNames memory p = .ok names) :
    ∃ found, node.declaredNames = .ok found ∧ names = found.map (Node.point layout.locate) := by
  obtain ⟨rfl, placed⟩ := placed
  have reads := Interpreter.declaredNames_reads layout.injective (bears.program.symm ▸ placed)
  rw [declared] at reads
  cases isFound : node.declaredNames with
  | error m =>
    rw [isFound] at reads
    cases reads
  | ok found =>
    rw [isFound] at reads
    cases reads with
    | ok row => exact ⟨found, rfl, Node.At.row_eq row⟩

theorem mem_names_of_found {found : List Node} {symbol : String} (member : .leaf (.string symbol) ∈ found) :
    Pointer.string symbol ∈ found.map (Node.point layout.locate) :=
  List.mem_map.mpr ⟨_, member, rfl⟩

theorem starts_declared {frame : Nat} {p : Pointer} : census.Starts law frame (.declared p) :=
  ⟨.scalar _, .inr (.inr rfl), fun _ => nofun⟩

/-- A frame is made for a block, with the names that its body declares, none
of which is initialized yet. -/
theorem Fits.extendBlock {node : Node} {returns : Bool} {p q : Pointer} {frame : Nat}
    (fits : census.Fits layout law cells) (placed : node.At layout.program layout.locate p)
    (good : law.good .body returns node) (environment : census.Environment frame q) :
    Action.Brings layout.program table (Environment.extendBlock p q) cells fun extended cells' =>
      ∃ later names, census.Opens layout law later cells' names extended.1 ∧ Admits law names node := by
  refine .inspect_bind fun memory names bears declared => ?_
  refine .reserve_bind ?_ fun _ => (Action.Quiet.push _ _).bind fun _ => .pure _
  have named : (names.map Binding.declared).map Binding.name = names := by
    rw [List.map_map]
    exact List.map_id _
  have starts : ∀ binding ∈ names.map Binding.declared, census.Starts law census.frames.length binding := by
    intro binding member
    obtain ⟨name, _, rfl⟩ := List.mem_map.mp member
    exact starts_declared
  have encloses : census.Encloses (some frame) q := environment
  have distinct := Environment.declaredNames_distinct declared
  refine (fits.push starts (named.symm ▸ distinct) encloses).bind ?_ fun _ => .pure _
  rintro extended cells' ⟨later, opens⟩
  rw [named] at opens
  refine .pure ⟨later, names, opens, fun scanned => ?_⟩
  obtain ⟨found, isFound, rfl⟩ := declaredNames_node placed bears declared
  exact law.exists_duty scanned good isFound fun symbol member => mem_names_of_found member

/-- The pairs of a function, and what they hold. -/
structure Closure (layout : Layout) (law : Law) (census : Census) (cells : Cells) (a : Nat)
    (parameters body scope : Pointer)
    (node : Node) (frame : Nat) : Prop where
  pairs : ∃ b c d, cells[a]? = some (.string Tag.compound.text, .pair b) ∧ cells[b]? = some (parameters, .pair c) ∧
    cells[c]? = some (body, .pair d) ∧ cells[d]? = some (scope, .null)
  placed : node.At layout.program layout.locate body
  good : law.good .body true node
  environment : census.Environment frame scope

theorem Fits.closure {a : Nat} {body : Pointer} (fits : census.Fits layout law cells)
    (role : census.Has a (.closure 0 body)) :
    ∃ parameters scope node frame, Closure layout law census cells a parameters body scope node frame := by
  obtain ⟨_, _, atTag, allows⟩ := fits.exists_pair role
  cases allows with
  | tag role =>
    obtain ⟨parameters, _, atParameters, allows⟩ := fits.exists_pair role
    cases allows with
    | parameters _ role =>
      obtain ⟨_, _, atBody, allows⟩ := fits.exists_pair role
      cases allows with
      | body placed good role =>
        obtain ⟨scope, _, atScope, allows⟩ := fits.exists_pair role
        cases allows with
        | scope environment =>
          exact ⟨parameters, scope, _, _, ⟨_, _, _, atTag, atParameters, atBody, atScope⟩, placed, good,
            environment⟩

section

variable {a : Nat} {parameters body scope : Pointer} {node : Node} {frame : Nat} {memory : Memory}
  (closure : Closure layout law census cells a parameters body scope node frame)
  (bears : memory.Bears layout.program table cells)
include closure bears

theorem Closure.item_two : memory.item (.pair a) 2 = .ok body := by
  obtain ⟨b, c, d, atTag, atParameters, atBody, _⟩ := closure.pairs
  simp only [Memory.item, listRef, bears.tail_eq atTag]
  change (memory.tail (.pair b) >>= memory.head) = _
  rw [bears.tail_eq atParameters]
  exact bears.head_eq atBody

theorem Closure.item_three : memory.item (.pair a) 3 = .ok scope := by
  obtain ⟨b, c, d, atTag, atParameters, atBody, atScope⟩ := closure.pairs
  simp only [Memory.item, listRef, bears.tail_eq atTag]
  change (memory.tail (.pair b) >>= fun tail => memory.tail tail >>= memory.head) = _
  rw [bears.tail_eq atParameters]
  change (memory.tail (.pair c) >>= memory.head) = _
  rw [bears.tail_eq atBody]
  exact bears.head_eq atScope

end

/-- The items of a list of arguments are values, return values only where the
program is not known to keep them away from there. -/
theorem Fits.items {memory : Memory} {p : Pointer} {values : List Pointer} (fits : census.Fits layout law cells)
    (bears : memory.Bears layout.program table cells) (arguments : census.Arguments p)
    (listed : memory.items p = .ok values) : ∀ value ∈ values, census.Value law.strict false value := by
  have lists : memory.heap.Lists p values := Memory.lists_of_listItems listed
  clear listed
  induction lists with
  | nil =>
    intro value member
    cases member
  | cons holds _ ih =>
    rcases arguments with isNull | ⟨a, same, role⟩
    · cases isNull
    · cases same
      cases fits.allowed (bears.heap.getElem?_of_holds holds) role with
      | argument value others => exact List.forall_mem_cons.mpr ⟨value, ih others⟩

/-- The pairs alone decide what is listed, not the memory that they are read
in. -/
theorem items_unique {memory memory' : Memory} {p : Pointer} {values values' : List Pointer}
    (bears : memory.Bears layout.program table cells) (bears' : memory'.Bears layout.program table cells)
    (listed : memory.items p = .ok values) (listed' : memory'.items p = .ok values') : values = values' := by
  have lists : memory.heap.Lists p values := Memory.lists_of_listItems listed
  have lists' : memory'.heap.Lists p values' := Memory.lists_of_listItems listed'
  have kept (a : Nat) (head tail : Pointer) (holds : memory.heap.Holds a head tail) : memory'.heap.Holds a head tail :=
    bears'.heap.holds a _ _ (bears.heap.getElem?_of_holds holds)
  exact (lists.kept kept).unique lists'

/-- A frame is made for a call, with the parameters bound to values and the
other names of the body not initialized. -/
theorem Fits.extendCall {a : Nat} {body q : Pointer} (fits : census.Fits layout law cells)
    (role : census.Has a (.closure 0 body)) (arguments : census.Arguments q) :
    Action.Brings layout.program table (Environment.extendCall (.pair a) q) cells fun extended cells' =>
      ∃ later names node, census.Opens layout law later cells' names extended.1 ∧
        node.At layout.program layout.locate body ∧ law.good .body true node ∧ Admits law names node := by
  obtain ⟨parameters, scope, node, frame, closure⟩ := fits.closure role
  refine .inspect_bind fun memory found bears called => ?_
  obtain ⟨names, locals⟩ := found
  refine .reserve_bind ?_ fun _ => (Action.Quiet.inspect _).bind fun _ => (Action.Quiet.inspect _).bind fun _ =>
    (Action.Quiet.push _ _).bind fun _ => .pure _
  refine .inspect_bind fun memory' values bears' listed => ?_
  refine .inspect_bind fun memory'' scope' bears'' isScope => ?_
  simp only [List.getD_cons_zero, List.getD_cons_succ] at listed isScope ⊢
  rw [closure.item_three bears''] at isScope
  cases isScope
  -- what was found before room was set aside
  obtain ⟨_, isParameters, called⟩ := Read.bind_eq_ok_iff.mp called
  obtain ⟨_, isBody, called⟩ := Read.bind_eq_ok_iff.mp called
  obtain ⟨names', isNames, called⟩ := Read.bind_eq_ok_iff.mp called
  obtain ⟨values', listed', called⟩ := Read.bind_eq_ok_iff.mp called
  obtain ⟨_, counted, called⟩ := Read.bind_eq_ok_iff.mp called
  obtain ⟨declared, isDeclared, same⟩ := Read.bind_eq_ok_iff.mp called
  rw [closure.item_two bears] at isBody
  cases isBody
  cases same
  cases items_unique bears bears' listed' listed
  have isValue := fits.items bears' arguments listed
  have count := Environment.checkCount_eq counted
  let bindings := List.zipWith Binding.mutable names values ++
    (declared.filter fun symbol => !names.contains symbol).map Binding.declared
  have named : bindings.map Binding.name = names ++ declared.filter fun symbol => !names.contains symbol := by
    rw [List.map_append, Environment.map_name_zipWith count, List.map_map]
    exact congrArg _ (List.map_id _)
  have starts : ∀ binding ∈ bindings, census.Starts law census.frames.length binding := by
    refine List.forall_mem_append.mpr ⟨fun binding member => ?_, fun binding member => ?_⟩
    · obtain ⟨name, value, isArgument, rfl⟩ : ∃ name value, value ∈ values ∧ binding = .mutable name value := by
        rw [← List.map_uncurry_zip_eq_zipWith] at member
        obtain ⟨⟨name, value⟩, paired, rfl⟩ := List.mem_map.mp member
        exact ⟨name, value, (List.of_mem_zip paired).2, rfl⟩
      exact ⟨isValue value isArgument, .inl rfl, fun _ => nofun⟩
    · obtain ⟨name, _, rfl⟩ := List.mem_map.mp member
      exact starts_declared
  have distinct : (bindings.map Binding.name).Pairwise fun p q => (p == q) = false := by
    rw [named]
    refine List.pairwise_append.mpr ⟨Environment.parameterNames_distinct isNames,
      (Environment.declaredNames_distinct isDeclared).filter _, fun p member q isLocal => ?_⟩
    exact Pointer.ne_of_not_contains (by simpa using (List.mem_filter.mp isLocal).2) member
  have encloses : census.Encloses (some frame) scope := closure.environment
  refine (fits.push starts distinct encloses).bind ?_ fun _ => .pure _
  rintro extended cells' ⟨later, opens⟩
  rw [named] at opens
  refine .pure ⟨later, _, node, opens, closure.placed, closure.good, fun scanned => ?_⟩
  obtain ⟨found, isFound, rfl⟩ := declaredNames_node closure.placed bears isDeclared
  refine law.exists_duty scanned closure.good isFound fun symbol member => ?_
  by_cases taken : names.contains (.string symbol) = true
  · obtain ⟨name, isName, same⟩ := List.contains_iff_exists_mem_beq.mp taken
    rw [Pointer.beq_comm] at same
    exact List.mem_append_left _ (Interpreter.pointer_same.mp same ▸ isName)
  · exact List.mem_append_right _ (List.mem_filter.mpr ⟨mem_names_of_found member, by simpa using taken⟩)

/-- An action leads to a new pair of a role. -/
def Makes (layout : Layout) (law : Law) (census : Census) (action : Action Pointer) (cells : Cells)
    (role : Role) : Prop :=
  Action.Brings layout.program table action cells fun p cells' =>
    ∃ later, census.Grows layout law later cells' ∧ ∃ a, p = .pair a ∧ later.Has a role

theorem Makes.cons {items : List Pointer} {item : Pointer} {inner : Role}
    (makes : census.Makes layout law (Action.buildList items) cells inner)
    (allows : ∀ later : Census, ∀ a, census.Extends later → later.Has a inner →
      later.Allows layout law role item (.pair a)) :
    census.Makes layout law (Action.buildList (item :: items)) cells role := by
  refine Action.Brings.bind makes ?_ fun _ => .allocReserved _ _
  rintro _ cells' ⟨later, grows, a, rfl, known⟩
  refine (grows.fits.allocReserved (allows later a grows.extends known)).mono ?_
  rintro p cells'' ⟨last, grows', made⟩
  exact ⟨last, grows.trans grows', made⟩

/-- A function is made of a body that the program has, and of the environment
of a frame that there is. -/
theorem Fits.buildClosure {node : Node} {body scope : Pointer} {frame : Nat}
    (fits : census.Fits layout law cells) (parameters : Pointer) (placed : node.At layout.program layout.locate body)
    (good : law.good .body true node) (environment : census.Environment frame scope) :
    census.Makes layout law (Action.buildList [.string Tag.compound.text, parameters, body, scope]) cells
      (.closure 0 body) := by
  have last : census.Makes layout law (Action.buildList [scope]) cells (.closure 3 body) :=
    fits.allocReserved (.scope environment)
  have withBody : census.Makes layout law (Action.buildList [body, scope]) cells (.closure 2 body) :=
    last.cons fun _ _ _ known => .body placed good known
  have withParameters : census.Makes layout law (Action.buildList [parameters, body, scope]) cells (.closure 1 body) :=
    withBody.cons fun _ _ _ known => .parameters parameters known
  exact withParameters.cons fun _ _ _ known => .tag known

/-- The last pair of a list of arguments is one of its pairs, so it may be
written without harm to anything else. -/
theorem Fits.lastPair {memory : Memory} {start p last : Pointer} {fuel : Nat} (fits : census.Fits layout law cells)
    (bears : memory.Bears layout.program table cells) (arguments : census.Arguments p)
    (found : memory.lastPair start fuel p = .ok last) : ∃ a, last = .pair a ∧ census.Has a .argument := by
  induction fuel generalizing p with
  | zero => cases found
  | succ fuel ih =>
    obtain ⟨rest, isRest, found⟩ := Read.bind_eq_ok_iff.mp found
    rcases arguments with rfl | ⟨a, rfl, role⟩
    · cases isRest
    · split at found
      · cases found
        exact ⟨a, rfl, role⟩
      · obtain ⟨head, tail, held, allows⟩ := fits.exists_pair role
        rw [bears.tail_eq held] at isRest
        cases isRest
        cases allows with
        | argument _ others => exact ih others found

/-- A list of arguments takes one more, in its own last pair. -/
theorem Fits.appendArgument {p q : Pointer} (fits : census.Fits layout law cells)
    (value : census.Value law.strict false p) (arguments : census.Arguments q) :
    Action.Brings layout.program table (ExplicitControl.appendArgument p q) cells fun applied cells' =>
      ∃ later, census.Grows layout law later cells' ∧ later.Arguments applied.value := by
  refine .reserve_bind ?_ fun _ => (Action.Quiet.allocReserved _ _).bind fun _ => .appendTo _ _ _
  refine (fits.allocReserved (.argument value (.inl rfl))).bind ?_ fun _ => .appendTo _ _ _
  rintro _ cells' ⟨later, grows, a, rfl, role⟩
  simp only [List.getD_cons_zero, List.getD_cons_succ]
  split
  · exact .pure ⟨later, grows, .inr ⟨a, rfl, role⟩⟩
  · refine .inspect_bind fun memory last bears found => ?_
    obtain ⟨b, rfl, role'⟩ := grows.fits.lastPair bears (grows.extends.arguments arguments) found
    have linked : Action.Brings layout.program table (Action.setTail (.pair b) (.pair a)) cells' fun _ cells'' =>
        census.Grows layout law later cells'' := by
      refine .setTail fun b' head tail same held => ?_
      cases same
      cases grows.fits.allowed held role' with
      | argument value' _ =>
        exact { grows with fits := grows.fits.set role' (.argument value' (.inr ⟨a, rfl, role⟩)) }
    refine linked.bind (fun _ cells'' grows' => .pure ?_) fun _ => .pure _
    exact ⟨later, grows', grows'.extends.arguments arguments⟩

theorem primitive_call_scalar {name : String} {primitive : Primitive} {ps : List Pointer} {p : Pointer}
    (called : primitive.call name ps = .ok p) : ∃ s, p = .scalar s := by
  obtain ⟨scalars, _, applied⟩ := Read.bind_eq_ok_iff.mp called
  split at applied
  · cases applied
    exact ⟨_, rfl⟩
  · cases applied

/-- A function of every program gives a scalar and changes nothing. -/
theorem Fits.applyPrimitive {a : Nat} (fits : census.Fits layout law cells) (role : census.Has a .primitive)
    (q : Pointer) :
    Action.Brings layout.program table
      (Operation.call HeapOperation.applyPrimitive.name (.addressAware .applyPrimitive) [.pair a, q]) cells
      fun applied cells' => cells' = cells ∧ ∃ s, applied.value = .scalar s := by
  obtain ⟨_, _, held, allows⟩ := fits.exists_pair role
  cases allows with
  | primitive member =>
    obtain ⟨function, _, rfl⟩ :=
      List.mem_map.mp (show _ ∈ Interpreter.builtins.map Interpreter.Builtin.name from member)
    intro memory
    refine (?_ : Action.Brings layout.program table (Operation.callFuel (memory.heap.free + 1) _ _ _) cells _) memory
    refine .inspect_bind fun memory symbol bears isSymbol => ?_
    rw [bears.tail_eq held] at isSymbol
    cases isSymbol
    refine .inspect_bind fun memory inputs bears _ => .inspect_bind fun memory operation bears found => ?_
    have named : memory.operations.find? (Pointer.string function.name).display =
        some (builtinOperation function) := by
      rw [bears.operations]
      exact find_builtin function
    rw [named] at found
    cases found
    have once : ¬ Operation.Repeats (builtinOperation function) inputs := by
      rintro ⟨same, _⟩
      cases function <;> cases same
    rw [Operation.callFuel_eq_zero once]
    have brings : Action.Brings layout.program table
        (Operation.callFuel 0 function.name (builtinOperation function) inputs) cells fun applied cells' =>
          cells' = cells ∧ ∃ s, applied.value = .scalar s := by
      cases function with
      | scalar operation =>
        refine .inspect_bind fun memory value _ called => .pure ⟨rfl, primitive_call_scalar called⟩
      | identical =>
        rcases inputs with _ | ⟨p, _ | ⟨q, _ | ⟨r, more⟩⟩⟩
        · exact .throw _
        · exact .throw _
        · exact .pure ⟨rfl, _, rfl⟩
        · exact .throw _
      | different =>
        rcases inputs with _ | ⟨p, _ | ⟨q, _ | ⟨r, more⟩⟩⟩
        · exact .throw _
        · exact .throw _
        · exact .pure ⟨rfl, _, rfl⟩
        · exact .throw _
    exact brings.mapError.bind (fun _ _ holds => .pure holds) fun _ => .pure _

end Census

end Evaluator

end ExplicitControl
