import ExplicitControl.Proofs.Evaluator.Instructions
import ExplicitControl.Proofs.Memory.Quiet
import ExplicitControl.Proofs.Program.Law

namespace ExplicitControl.Evaluator

open Interpreter (Node Law)

/-- What a pair is for: a part of an environment, of a function, of a list of
arguments or of a return value. The pairs of a list know what is listed from
there on; a binding knows its frame and its place there. -/
inductive Role where
  | environment (frame : Nat)
  | frame (frame : Nat)
  | names (items : List Pointer)
  | bindings (cells : List Nat)
  | binding (frame place : Nat)
  | closure (index : Nat) (body : Pointer)
  | primitive
  | argument
  | returned

/-- A frame: its names, its bindings in the same order, the frame around it, if
any, and the pair that it is. -/
structure FrameRecord where
  names : List Pointer
  cells : List Nat
  enclosing : Option Nat
  address : Nat

/-- The roles of all pairs, all frames, and the bindings whose declaration has
been carried out, in a heap where nothing is collected. A census only grows,
so what was known of a pair once can be used ever after. -/
structure Census where
  roles : List Role
  frames : List FrameRecord
  declared : List (Nat × Nat)

/-- What the tail of a binding can be. -/
def IsFlag (p : Pointer) : Prop :=
  p = .bool true ∨ p = .bool false ∨ p = .null

namespace Census

/-- A pair has a role. -/
def Has (census : Census) (a : Nat) (role : Role) : Prop :=
  census.roles[a]? = some role

/-- There is a frame of a number. -/
def Known (census : Census) (frame : Nat) : Prop :=
  ∃ record, census.frames[frame]? = some record

/-- The environment that begins with a frame. -/
def Environment (census : Census) (frame : Nat) (p : Pointer) : Prop :=
  ∃ a, p = .pair a ∧ census.Has a (.environment frame)

/-- A list of names. -/
def Names (census : Census) : List Pointer → Pointer → Prop
  | [], p => p = .null
  | name :: items, p => ∃ a, p = .pair a ∧ census.Has a (.names (name :: items))

/-- A list of bindings. -/
def Bindings (census : Census) : List Nat → Pointer → Prop
  | [], p => p = .null
  | cell :: cells, p => ∃ a, p = .pair a ∧ census.Has a (.bindings (cell :: cells))

/-- A list of arguments. -/
def Arguments (census : Census) (p : Pointer) : Prop :=
  p = .null ∨ ∃ a, p = .pair a ∧ census.Has a .argument

/-- A value: a scalar or a function, or a return value where that may be. -/
inductive Value (census : Census) (strict returns : Bool) : Pointer → Prop
  | scalar (value : Scalar) : Value census strict returns (.scalar value)
  | primitive {a : Nat} : census.Has a .primitive → Value census strict returns (.pair a)
  | closure {a : Nat} {body : Pointer} : census.Has a (.closure 0 body) → Value census strict returns (.pair a)
  | returned {a : Nat} : census.Has a .returned → (strict = true → returns = true) →
      Value census strict returns (.pair a)

/-- What a pair of a role may hold. -/
inductive Allows (layout : Layout) (law : Law) (census : Census) : Role → Pointer → Pointer → Prop
  | outermost {frame : Nat} {record : FrameRecord} : census.frames[frame]? = some record →
      record.enclosing = none → Allows layout law census (.environment frame) (.pair record.address) .null
  | environment {frame outer : Nat} {record : FrameRecord} {tail : Pointer} :
      census.frames[frame]? = some record → record.enclosing = some outer → census.Environment outer tail →
      Allows layout law census (.environment frame) (.pair record.address) tail
  | frame {frame : Nat} {record : FrameRecord} {head tail : Pointer} : census.frames[frame]? = some record →
      census.Names record.names head → census.Bindings record.cells tail →
      Allows layout law census (.frame frame) head tail
  | names {name : Pointer} {items : List Pointer} {tail : Pointer} : census.Names items tail →
      Allows layout law census (.names (name :: items)) name tail
  | bindings {cell frame place : Nat} {cells : List Nat} {tail : Pointer} :
      census.Has cell (.binding frame place) → census.Bindings cells tail →
      Allows layout law census (.bindings (cell :: cells)) (.pair cell) tail
  | binding {frame place : Nat} {head tail : Pointer} : census.Value law.strict false head → IsFlag tail →
      (law.scanned = true → frame ≠ 0 → (frame, place) ∉ census.declared → tail ≠ .bool false) →
      Allows layout law census (.binding frame place) head tail
  | tag {a : Nat} {body : Pointer} : census.Has a (.closure 1 body) →
      Allows layout law census (.closure 0 body) (.string Tag.compound.text) (.pair a)
  | parameters (head : Pointer) {a : Nat} {body : Pointer} : census.Has a (.closure 2 body) →
      Allows layout law census (.closure 1 body) head (.pair a)
  | body {node : Node} {a : Nat} {body : Pointer} : node.At layout.program layout.locate body →
      law.good .body true node → census.Has a (.closure 3 body) →
      Allows layout law census (.closure 2 body) body (.pair a)
  | scope {frame : Nat} {head body : Pointer} : census.Environment frame head →
      Allows layout law census (.closure 3 body) head .null
  | primitive {name : String} : name ∈ Environment.primitiveNames →
      Allows layout law census .primitive (.string Tag.primitive.text) (.string name)
  | argument {head tail : Pointer} : census.Value law.strict false head → census.Arguments tail →
      Allows layout law census .argument head tail
  | returned {tail : Pointer} : census.Value law.strict false tail →
      Allows layout law census .returned (.string Tag.returnValue.text) tail

/-- A frame with as many bindings as names, which are all different, inside a
frame that is older. -/
structure Orderly (census : Census) (frame : Nat) (record : FrameRecord) : Prop where
  counted : record.names.length = record.cells.length
  distinct : record.names.Pairwise fun p q => (p == q) = false
  cells : ∀ place a, record.cells[place]? = some a → census.Has a (.binding frame place)
  address : census.Has record.address (.frame frame)
  enclosing : match record.enclosing with
    | none => frame = 0
    | some outer => outer < frame

/-- Every pair has a role and holds what that allows. Nothing that the
evaluator does gives a pair another role. -/
structure Fits (layout : Layout) (law : Law) (census : Census) (cells : Cells) : Prop where
  count : cells.length = census.roles.length
  pairs : ∀ a head tail, cells[a]? = some (head, tail) →
    ∃ role, census.Has a role ∧ census.Allows layout law role head tail
  frames : ∀ frame record, census.frames[frame]? = some record → census.Orderly frame record
  declared : ∀ token ∈ census.declared, token.1 < census.frames.length

/-- A census that has grown: what was known of pairs and frames is known
still. -/
structure Extends (census later : Census) : Prop where
  roles : census.roles <+: later.roles
  frames : census.frames <+: later.frames
  declared : census.declared ⊆ later.declared

namespace Extends

variable {census later last : Census} {frame a : Nat} {p : Pointer} {role : Role}

theorem refl (census : Census) : census.Extends census :=
  ⟨List.prefix_refl _, List.prefix_refl _, List.Subset.refl _⟩

theorem trans (one : census.Extends later) (other : later.Extends last) : census.Extends last :=
  ⟨one.roles.trans other.roles, one.frames.trans other.frames, List.Subset.trans one.declared other.declared⟩

theorem has (ext : census.Extends later) (known : census.Has a role) : later.Has a role := by
  obtain ⟨inside, rfl⟩ := List.getElem?_eq_some_iff.mp known
  exact List.prefix_iff_getElem?.mp ext.roles a inside

theorem record (ext : census.Extends later) {record : FrameRecord} (known : census.frames[frame]? = some record) :
    later.frames[frame]? = some record := by
  obtain ⟨inside, rfl⟩ := List.getElem?_eq_some_iff.mp known
  exact List.prefix_iff_getElem?.mp ext.frames frame inside

theorem known (ext : census.Extends later) (known : census.Known frame) : later.Known frame := by
  obtain ⟨record, found⟩ := known
  exact ⟨record, ext.record found⟩

theorem environment (ext : census.Extends later) (known : census.Environment frame p) :
    later.Environment frame p := by
  obtain ⟨a, rfl, role⟩ := known
  exact ⟨a, rfl, ext.has role⟩

theorem names (ext : census.Extends later) {items : List Pointer} (known : census.Names items p) :
    later.Names items p := by
  cases items with
  | nil => exact known
  | cons _ _ =>
    obtain ⟨a, rfl, role⟩ := known
    exact ⟨a, rfl, ext.has role⟩

theorem bindings (ext : census.Extends later) {cells : List Nat} (known : census.Bindings cells p) :
    later.Bindings cells p := by
  cases cells with
  | nil => exact known
  | cons _ _ =>
    obtain ⟨a, rfl, role⟩ := known
    exact ⟨a, rfl, ext.has role⟩

theorem arguments (ext : census.Extends later) (known : census.Arguments p) : later.Arguments p := by
  rcases known with rfl | ⟨a, rfl, role⟩
  · exact .inl rfl
  · exact .inr ⟨a, rfl, ext.has role⟩

theorem value (ext : census.Extends later) {strict returns : Bool} (known : census.Value strict returns p) :
    later.Value strict returns p := by
  cases known with
  | scalar value => exact .scalar value
  | primitive role => exact .primitive (ext.has role)
  | closure role => exact .closure (ext.has role)
  | returned role allowed => exact .returned (ext.has role) allowed

theorem allows (ext : census.Extends later) {layout : Layout} {law : Law} {head tail : Pointer}
    (allowed : census.Allows layout law role head tail) : later.Allows layout law role head tail := by
  cases allowed with
  | outermost known none => exact .outermost (ext.record known) none
  | environment known some outer => exact .environment (ext.record known) some (ext.environment outer)
  | frame known names bindings => exact .frame (ext.record known) (ext.names names) (ext.bindings bindings)
  | names rest => exact .names (ext.names rest)
  | bindings role rest => exact .bindings (ext.has role) (ext.bindings rest)
  | binding value flag open_ =>
    exact .binding (ext.value value) flag fun scanned inner new =>
      open_ scanned inner fun old => new (ext.declared old)
  | tag role => exact .tag (ext.has role)
  | parameters head role => exact .parameters head (ext.has role)
  | body placed good role => exact .body placed good (ext.has role)
  | scope environment => exact .scope (ext.environment environment)
  | primitive member => exact .primitive member
  | argument value rest => exact .argument (ext.value value) (ext.arguments rest)
  | returned value => exact .returned (ext.value value)

theorem orderly (ext : census.Extends later) {record : FrameRecord} (known : census.Orderly frame record) :
    later.Orderly frame record :=
  { known with
    cells := fun place a found => ext.has (known.cells place a found)
    address := ext.has known.address }

end Extends

/-- A pair more. -/
def grow (census : Census) (role : Role) : Census :=
  { census with roles := census.roles ++ [role] }

/-- A frame more, with the pair that it is. -/
def enter (census : Census) (record : FrameRecord) : Census :=
  { census with
    roles := census.roles ++ [.frame census.frames.length]
    frames := census.frames ++ [record] }

/-- A declaration more that has been carried out. -/
def declare (census : Census) (token : Nat × Nat) : Census :=
  { census with declared := token :: census.declared }

theorem extends_grow (census : Census) (role : Role) : census.Extends (census.grow role) :=
  ⟨List.prefix_append _ _, List.prefix_refl _, List.Subset.refl _⟩

theorem extends_enter (census : Census) (record : FrameRecord) : census.Extends (census.enter record) :=
  ⟨List.prefix_append _ _, List.prefix_append _ _, List.Subset.refl _⟩

theorem extends_declare (census : Census) (token : Nat × Nat) : census.Extends (census.declare token) :=
  ⟨List.prefix_refl _, List.prefix_refl _, List.subset_cons_self _ _⟩

namespace Fits

variable {layout : Layout} {law : Law} {census : Census} {cells : Cells} {a : Nat} {role : Role}
  {head tail : Pointer}

theorem has_new (fits : census.Fits layout law cells) : (census.grow role).Has cells.length role := by
  rw [Has, grow, fits.count]
  exact List.getElem?_concat_length

theorem allowed (fits : census.Fits layout law cells) (found : cells[a]? = some (head, tail))
    (known : census.Has a role) : census.Allows layout law role head tail := by
  obtain ⟨role', known', allows⟩ := fits.pairs a head tail found
  cases known.symm.trans known'
  exact allows

theorem exists_pair (fits : census.Fits layout law cells) (known : census.Has a role) :
    ∃ head tail, cells[a]? = some (head, tail) ∧ census.Allows layout law role head tail := by
  have inside : a < cells.length := fits.count ▸ (List.getElem?_eq_some_iff.mp known).1
  exact ⟨_, _, List.getElem?_eq_getElem inside, fits.allowed (List.getElem?_eq_getElem inside) known⟩

/-- A heap that has grown by a pair fits a census that has, if the pair holds
what its role allows. -/
theorem extended (fits : census.Fits layout law cells) {later : Census} (ext : census.Extends later)
    (roles : later.roles = census.roles ++ [role]) (allows : later.Allows layout law role head tail)
    (frames : ∀ frame record, later.frames[frame]? = some record → later.Orderly frame record)
    (declared : later.declared = census.declared) : later.Fits layout law (cells ++ [(head, tail)]) where
  count := by rw [List.length_append, fits.count, roles, List.length_append]; rfl
  pairs := by
    intro a head' tail' found
    rcases Nat.lt_or_ge a cells.length with old | new
    · rw [List.getElem?_append_left old] at found
      obtain ⟨role', known, allowed⟩ := fits.pairs a head' tail' found
      exact ⟨role', ext.has known, ext.allows allowed⟩
    · have last := (List.getElem?_eq_some_iff.mp found).1
      simp only [List.length_append, List.length_singleton] at last
      obtain rfl : a = cells.length := by omega
      rw [List.getElem?_concat_length] at found
      cases found
      refine ⟨role, ?_, allows⟩
      rw [Has, roles, fits.count]
      exact List.getElem?_concat_length
  frames := frames
  declared := by
    rw [declared]
    exact fun token member => (fits.declared token member).trans_le ext.frames.length_le

/-- A new pair may have any role that allows what it holds. -/
theorem grow (fits : census.Fits layout law cells) (allows : census.Allows layout law role head tail) :
    (census.grow role).Fits layout law (cells ++ [(head, tail)]) :=
  fits.extended (census.extends_grow role) rfl ((census.extends_grow role).allows allows)
    (fun frame record known => (census.extends_grow role).orderly (fits.frames frame record known)) rfl

/-- A frame may be entered in the census once its names and bindings are
there, all different and as many. -/
theorem enter (fits : census.Fits layout law cells) {record : FrameRecord}
    (names : census.Names record.names head) (bindings : census.Bindings record.cells tail)
    (orderly : (census.enter record).Orderly census.frames.length record) :
    (census.enter record).Fits layout law (cells ++ [(head, tail)]) := by
  have ext := census.extends_enter record
  have last : (census.enter record).frames[census.frames.length]? = some record := List.getElem?_concat_length
  refine fits.extended ext rfl (.frame last (ext.names names) (ext.bindings bindings)) ?_ rfl
  intro frame record' known
  rcases Nat.lt_or_ge frame census.frames.length with old | new
  · rw [Census.enter, List.getElem?_append_left old] at known
    exact ext.orderly (fits.frames frame record' known)
  · have inside := (List.getElem?_eq_some_iff.mp known).1
    simp only [Census.enter, List.length_append, List.length_singleton] at inside
    obtain rfl : frame = census.frames.length := by omega
    cases last.symm.trans known
    exact orderly

/-- A pair may be written with what its role allows, which makes no difference
to any other pair. -/
theorem set (fits : census.Fits layout law cells) (known : census.Has a role)
    (allows : census.Allows layout law role head tail) : census.Fits layout law (cells.set a (head, tail)) where
  count := by rw [List.length_set, fits.count]
  pairs := by
    intro b head' tail' found
    by_cases same : a = b
    · subst same
      have inside : a < cells.length := fits.count ▸ (List.getElem?_eq_some_iff.mp known).1
      rw [List.getElem?_set_self inside] at found
      cases found
      exact ⟨role, known, allows⟩
    · rw [List.getElem?_set_ne same] at found
      exact fits.pairs b head' tail' found
  frames := fits.frames
  declared := fits.declared

theorem declare (fits : census.Fits layout law cells) {token : Nat × Nat} (inside : token.1 < census.frames.length) :
    (census.declare token).Fits layout law cells := by
  have ext := census.extends_declare token
  refine ⟨fits.count, fun a head tail found => ?_, fun frame record known =>
    ext.orderly (fits.frames frame record known),
    List.forall_mem_cons.mpr ⟨inside, fits.declared⟩⟩
  obtain ⟨role, known, allowed⟩ := fits.pairs a head tail found
  exact ⟨role, ext.has known, ext.allows allowed⟩

end Fits

end Census

end ExplicitControl.Evaluator
