import ExplicitControl.Proofs.Evaluator.Allocation

namespace ExplicitControl.Evaluator

open Interpreter (Node Law Duty DutyEach)

/-- What a continuation takes: no return values, those that the context allows,
or all. -/
inductive Grade where
  | plain
  | bound
  | free
  deriving DecidableEq

/-- What is known of the contents of a register or of a slot of the stack, in
terms of a context. Kinds are finitely many for a given listing, so what is
known can be computed and checked. -/
inductive Kind where
  | any
  | label (position : Nat)
  | continuation
  /-- A continuation that takes return values. -/
  | exit
  /-- Nothing yet, or an environment. -/
  | scope
  /-- An environment, the one of the context if it is its own. -/
  | environment (own : Bool)
  /-- The end of an environment, or a part of it. -/
  | chain
  | frame (own : Bool)
  | names (own : Bool) (ahead : Nat)
  | name
  | bindings (own : Bool)
  | binding (own : Bool)
  /-- The name of a declaration that is being looked up, with a bound on how far
  the lookup is still from it. -/
  | wanted (ahead : Option Nat)
  /-- The name of a declaration that was found. -/
  | hit
  /-- The name of a declaration that is not in its frame. -/
  | stray
  | truth
  | value (grade : Grade)
  | primitive
  | closure
  /-- A function for whose body a frame has been made. -/
  | called
  | returned
  /-- Nothing yet, or a value. -/
  | held
  | arguments
  /-- Nothing yet, or arguments. -/
  | list
  | node (grade : Grade)
  /-- A body for which no frame has been made. -/
  | code (grade : Grade)
  | form (kind : ExpressionKind)
  /-- A form of which only the parts inside are of interest. -/
  | core (kind : ExpressionKind)
  | declaring
  /-- A declaration whose name is dealt with elsewhere. -/
  | spent
  | sequence
  | statements
  /-- Statements the first of which is dealt with elsewhere. -/
  | pending
  | operands
  deriving DecidableEq

/-- Places of frames, each of them owed to one declaration. -/
abbrev Tokens := Multiset (Nat × Nat)

/-- What kinds are about: the frame that expressions are evaluated in, how far
the lookup of a name has come there, where to go on, and whether a return
value may be taken there. -/
structure Context where
  frame : Nat
  cursor : Nat
  back : Nat
  returns : Bool

/-- Whether return values are taken. -/
def Grade.returns (σ : Context) : Grade → Bool
  | .plain => false
  | .bound => σ.returns
  | .free => true

def Grade.le : Grade → Grade → Bool
  | .plain, _ => true
  | _, .free => true
  | .bound, .bound => true
  | _, _ => false

namespace Kind

/-- Weaker kinds, other than knowing nothing. -/
def weaker : Kind → List Kind
  | .exit => [.continuation]
  | .environment _ => [.environment false, .scope, .chain]
  | .value .plain => [.value .bound, .value .free, .held]
  | .value .bound => [.value .free]
  | .primitive => [.value .plain, .value .bound, .value .free, .held]
  | .closure => [.value .plain, .value .bound, .value .free, .held]
  | .called => [.closure, .value .plain, .value .bound, .value .free, .held]
  | .returned => [.value .free]
  | .arguments => [.list]
  | .node .plain => [.node .bound, .node .free]
  | .node .bound => [.node .free]
  | .form .selfEvaluating => [.core .selfEvaluating, .value .plain, .value .bound, .value .free]
  | .form kind => [.core kind]
  | _ => []

/-- Whether one kind is at least as strong as another. -/
def le (kind other : Kind) : Bool :=
  other = .any ∨ kind = other ∨ other ∈ kind.weaker

/-- What is known of a copy, which has no tokens. -/
def copied : Kind → Kind
  | .node _ | .sequence | .statements | .pending | .wanted _ | .hit => .any
  | .called => .closure
  | .declaring => .spent
  | kind => kind

/-- Whether it makes no difference how far a lookup has come. -/
def steady : Kind → Bool
  | .frame own | .names own _ | .bindings own | .binding own => !own
  | .name | .wanted (some _) | .hit => false
  | _ => true

/-- What is known once the lookup starts at the first name of the frame. -/
def rewound : Kind → Kind
  | .wanted _ => .wanted (some 0)
  | kind => if kind.steady then kind else .any

/-- What is known once the lookup goes on to the next name. -/
def shifted : Kind → Kind
  | .wanted (some (n + 1)) => .wanted (some n)
  | .names true (n + 1) => .names true n
  | kind => if kind.steady then kind else .any

/-- What is known of an expression once it has a continuation of its own. -/
def entered (grade : Grade) : Kind → Kind
  | .node grade' => if grade'.le grade then .node .bound else .any
  | .form kind => .core kind
  | _ => .any

end Kind

/-- What is owed to a frame is among the tokens in hand. -/
def Covers (law : Law) (census : Census) (frame : Nat) (duty : List Pointer → Multiset Nat → Prop)
    (tokens : Tokens) : Prop :=
  law.scanned = true → ∃ record owed, census.frames[frame]? = some record ∧ duty record.names owed ∧
    owed.map (Prod.mk frame) ≤ tokens

/-- The name of a declaration, with its place in the frame of the context. -/
def Wants (law : Law) (census : Census) (σ : Context) (ahead : Option Nat) (contents : Contents)
    (tokens : Tokens) : Prop :=
  law.scanned = true → ∃ record symbol place, census.frames[σ.frame]? = some record ∧
    record.names[place]? = some (.string symbol) ∧ contents = .pointer (.string symbol) ∧
    (σ.frame, place) ∈ tokens ∧ ∀ n ∈ ahead, σ.cursor + n ≤ place

/-- That contents are of a kind, with the places of frames that they owe. -/
inductive Holds (layout : Layout) (law : Law) (census : Census) (σ : Context) :
    Kind → Contents → Tokens → Prop
  | any (contents : Contents) {tokens : Tokens} : Holds layout law census σ .any contents tokens
  | label (position : Nat) {tokens : Tokens} :
      Holds layout law census σ (.label position) (.label position) tokens
  | continuation {tokens : Tokens} : Holds layout law census σ .continuation (.label σ.back) tokens
  | exit {tokens : Tokens} : (law.strict = true → σ.returns = true) →
      Holds layout law census σ .exit (.label σ.back) tokens
  | unscoped {tokens : Tokens} : Holds layout law census σ .scope .unassigned tokens
  | scope {f : Nat} {p : Pointer} {tokens : Tokens} : census.Environment f p →
      Holds layout law census σ .scope (.pointer p) tokens
  | environment {own : Bool} {f : Nat} {p : Pointer} {tokens : Tokens} : census.Environment f p →
      (own = true → f = σ.frame) → Holds layout law census σ (.environment own) (.pointer p) tokens
  | outside {tokens : Tokens} : Holds layout law census σ .chain (.pointer .null) tokens
  | chain {f : Nat} {p : Pointer} {tokens : Tokens} : census.Environment f p →
      Holds layout law census σ .chain (.pointer p) tokens
  | frame {own : Bool} {f : Nat} {record : FrameRecord} {tokens : Tokens} :
      census.frames[f]? = some record → (own = true → f = σ.frame ∧ σ.cursor = 0) →
      Holds layout law census σ (.frame own) (.pointer (.pair record.address)) tokens
  | names {own : Bool} {ahead f k : Nat} {record : FrameRecord} {p : Pointer} {tokens : Tokens} :
      census.frames[f]? = some record → census.Names (record.names.drop k) p →
      (own = true → f = σ.frame ∧ k = σ.cursor + ahead) →
      Holds layout law census σ (.names own ahead) (.pointer p) tokens
  | name {record : FrameRecord} {p : Pointer} {tokens : Tokens} :
      census.frames[σ.frame]? = some record → record.names[σ.cursor]? = some p →
      Holds layout law census σ .name (.pointer p) tokens
  | bindings {own : Bool} {f k : Nat} {record : FrameRecord} {p : Pointer} {tokens : Tokens} :
      census.frames[f]? = some record → census.Bindings (record.cells.drop k) p →
      (own = true → f = σ.frame ∧ k = σ.cursor) →
      Holds layout law census σ (.bindings own) (.pointer p) tokens
  | binding {own : Bool} {f k a : Nat} {record : FrameRecord} {tokens : Tokens} :
      census.frames[f]? = some record → record.cells[k]? = some a →
      (own = true → f = σ.frame ∧ k = σ.cursor) →
      Holds layout law census σ (.binding own) (.pointer (.pair a)) tokens
  | wanted {ahead : Option Nat} {contents : Contents} {tokens : Tokens} :
      Wants law census σ ahead contents tokens → Holds layout law census σ (.wanted ahead) contents tokens
  | hit (contents : Contents) {tokens : Tokens} :
      (law.scanned = true → (σ.frame, σ.cursor) ∈ tokens) → Holds layout law census σ .hit contents tokens
  | stray (contents : Contents) {tokens : Tokens} : law.scanned = false →
      Holds layout law census σ .stray contents tokens
  | truth (b : Bool) {tokens : Tokens} : Holds layout law census σ .truth (.pointer (.bool b)) tokens
  | value {grade : Grade} {p : Pointer} {tokens : Tokens} :
      census.Value law.strict (grade.returns σ) p → Holds layout law census σ (.value grade) (.pointer p) tokens
  | primitive {a : Nat} {tokens : Tokens} : census.Has a .primitive →
      Holds layout law census σ .primitive (.pointer (.pair a)) tokens
  | closure {a : Nat} {body : Pointer} {tokens : Tokens} : census.Has a (.closure 0 body) →
      Holds layout law census σ .closure (.pointer (.pair a)) tokens
  | called {a : Nat} {body : Pointer} {node : Node} {tokens : Tokens} :
      census.Has a (.closure 0 body) → node.At layout.program layout.locate body → law.good .body true node →
      Covers law census σ.frame (Duty · .body node) tokens →
      Holds layout law census σ .called (.pointer (.pair a)) tokens
  | returned {a : Nat} {tokens : Tokens} : census.Has a .returned →
      Holds layout law census σ .returned (.pointer (.pair a)) tokens
  | unheld {tokens : Tokens} : Holds layout law census σ .held .unassigned tokens
  | held {p : Pointer} {tokens : Tokens} : census.Value law.strict false p →
      Holds layout law census σ .held (.pointer p) tokens
  | arguments {p : Pointer} {tokens : Tokens} : census.Arguments p →
      Holds layout law census σ .arguments (.pointer p) tokens
  | unlisted {tokens : Tokens} : Holds layout law census σ .list .unassigned tokens
  | list {p : Pointer} {tokens : Tokens} : census.Arguments p →
      Holds layout law census σ .list (.pointer p) tokens
  | node {grade : Grade} {site : Site} {node : Node} {p : Pointer} {tokens : Tokens} :
      node.At layout.program layout.locate p → law.good site (grade.returns σ) node →
      Covers law census σ.frame (Duty · site node) tokens →
      Holds layout law census σ (.node grade) (.pointer p) tokens
  | code {grade : Grade} {node : Node} {p : Pointer} {tokens : Tokens} :
      node.At layout.program layout.locate p → law.good .body (grade.returns σ) node →
      Holds layout law census σ (.code grade) (.pointer p) tokens
  | form {kind : ExpressionKind} {site : Site} {node : Node} {p : Pointer} {tokens : Tokens} :
      node.At layout.program layout.locate p → node.kind = some kind → law.good site σ.returns node →
      Holds layout law census σ (.form kind) (.pointer p) tokens
  | core {kind : ExpressionKind} {site : Site} {returns : Bool} {node : Node} {p : Pointer}
      {tokens : Tokens} :
      node.At layout.program layout.locate p → node.kind = some kind → law.good site returns node →
      Holds layout law census σ (.core kind) (.pointer p) tokens
  | declaring {site : Site} {node : Node} {p : Pointer} {tokens : Tokens} :
      node.At layout.program layout.locate p → node.declares = true → law.good site σ.returns node →
      Covers law census σ.frame (Duty · site node) tokens →
      Holds layout law census σ .declaring (.pointer p) tokens
  | spent {site : Site} {node : Node} {p : Pointer} {tokens : Tokens} :
      node.At layout.program layout.locate p → node.declares = true → law.good site σ.returns node →
      Holds layout law census σ .spent (.pointer p) tokens
  | sequence {site : Site} {node : Node} {p : Pointer} {tokens : Tokens} :
      node.At layout.program layout.locate p → node.kind = some .sequence → law.good site σ.returns node →
      Covers law census σ.frame (Duty · site node) tokens →
      Holds layout law census σ .sequence (.pointer p) tokens
  | statements {site : Site} {list : Node} {p : Pointer} {tokens : Tokens} :
      list.At layout.program layout.locate p → list.Each (law.good site.element σ.returns) →
      Covers law census σ.frame (DutyEach · site.element list) tokens →
      Holds layout law census σ .statements (.pointer p) tokens
  | pending {site : Site} {place : List Bool} {first rest : Node} {p : Pointer} {tokens : Tokens} :
      (Node.pair place first rest).At layout.program layout.locate p →
      rest.Each (law.good site.element σ.returns) →
      Covers law census σ.frame (DutyEach · site.element rest) tokens →
      Holds layout law census σ .pending (.pointer p) tokens
  | operands {list : Node} {p : Pointer} {tokens : Tokens} :
      list.At layout.program layout.locate p → list.Each (law.good .inner false) →
      Holds layout law census σ .operands (.pointer p) tokens

section

variable {layout : Layout} {law : Law} {census later : Census} {σ : Context} {kind : Kind} {contents : Contents}
  {tokens tokens' : Tokens}

theorem Covers.mono {frame : Nat} {duty : List Pointer → Multiset Nat → Prop}
    (covers : Covers law census frame duty tokens) (ext : census.Extends later) (le : tokens ≤ tokens') :
    Covers law later frame duty tokens' := by
  intro scanned
  obtain ⟨record, owed, known, owes, covered⟩ := covers scanned
  exact ⟨record, owed, ext.record known, owes, covered.trans le⟩

theorem Wants.mono {ahead : Option Nat} (wants : Wants law census σ ahead contents tokens)
    (ext : census.Extends later) (le : tokens ≤ tokens') : Wants law later σ ahead contents tokens' := by
  intro scanned
  obtain ⟨record, symbol, place, known, named, same, owed, near⟩ := wants scanned
  exact ⟨record, symbol, place, ext.record known, named, same, Multiset.mem_of_le le owed, near⟩

/-- What is known stays known, and holding more tokens than are owed is no
harm. -/
theorem Holds.mono (holds : Holds layout law census σ kind contents tokens) (ext : census.Extends later)
    (le : tokens ≤ tokens') : Holds layout law later σ kind contents tokens' := by
  cases holds with
  | any => exact .any _
  | label => exact .label _
  | continuation => exact .continuation
  | exit allowed => exact .exit allowed
  | unscoped => exact .unscoped
  | scope environment => exact .scope (ext.environment environment)
  | environment environment own => exact .environment (ext.environment environment) own
  | outside => exact .outside
  | chain environment => exact .chain (ext.environment environment)
  | frame known own => exact .frame (ext.record known) own
  | names known names own => exact .names (ext.record known) (ext.names names) own
  | name known named => exact .name (ext.record known) named
  | bindings known bindings own => exact .bindings (ext.record known) (ext.bindings bindings) own
  | binding known listed own => exact .binding (ext.record known) listed own
  | wanted wants => exact .wanted (wants.mono ext le)
  | hit _ owed => exact .hit _ fun scanned => Multiset.mem_of_le le (owed scanned)
  | stray _ unscanned => exact .stray _ unscanned
  | truth b => exact .truth b
  | value value => exact .value (ext.value value)
  | primitive role => exact .primitive (ext.has role)
  | closure role => exact .closure (ext.has role)
  | called role placed good covers => exact .called (ext.has role) placed good (covers.mono ext le)
  | returned role => exact .returned (ext.has role)
  | unheld => exact .unheld
  | held value => exact .held (ext.value value)
  | arguments arguments => exact .arguments (ext.arguments arguments)
  | unlisted => exact .unlisted
  | list arguments => exact .list (ext.arguments arguments)
  | node placed good covers => exact .node placed good (covers.mono ext le)
  | code placed good => exact .code placed good
  | form placed isKind good => exact .form placed isKind good
  | core placed isKind good => exact .core placed isKind good
  | declaring placed declares good covers => exact .declaring placed declares good (covers.mono ext le)
  | spent placed declares good => exact .spent placed declares good
  | sequence placed isKind good covers => exact .sequence placed isKind good (covers.mono ext le)
  | statements placed each covers => exact .statements placed each (covers.mono ext le)
  | pending placed each covers => exact .pending placed each (covers.mono ext le)
  | operands placed each => exact .operands placed each

theorem Holds.extend (holds : Holds layout law census σ kind contents tokens) (ext : census.Extends later) :
    Holds layout law later σ kind contents tokens :=
  holds.mono ext (le_refl _)

theorem Grade.returns_of_le {grade grade' : Grade} (le : grade.le grade' = true)
    (returns : grade.returns σ = true) : grade'.returns σ = true := by
  revert le returns
  cases grade <;> cases grade' <;> simp [Grade.le, Grade.returns]

theorem good_of_le {site : Site} {node : Node} {returns returns' : Bool} (good : law.good site returns node)
    (le : returns = true → returns' = true) : law.good site returns' node := by
  cases returns with
  | true => exact le rfl ▸ good
  | false =>
    cases returns' with
    | true => exact law.widen good
    | false => exact good

theorem value_of_le {p : Pointer} {strict returns returns' : Bool} (value : census.Value strict returns p)
    (le : returns = true → returns' = true) : census.Value strict returns' p := by
  cases value with
  | scalar value => exact .scalar value
  | primitive role => exact .primitive role
  | closure role => exact .closure role
  | returned role allowed => exact .returned role fun isStrict => le (allowed isStrict)

theorem value_of_form {node : Node} {p : Pointer} {strict returns : Bool}
    (placed : node.At layout.program layout.locate p) (isKind : node.kind = some .selfEvaluating) :
    census.Value strict returns p := by
  obtain ⟨rfl, _⟩ := placed
  cases node with
  | leaf value => exact .scalar value
  | pair place head tail =>
    cases head with
    | leaf value =>
      cases value with
      | string tag => cases List.find?_some isKind
      | _ => cases isKind
    | pair _ _ _ => cases isKind

theorem Holds.of_plain {other : Kind} {p : Pointer} (value : census.Value law.strict false p)
    (member : other ∈ [Kind.value .plain, .value .bound, .value .free, .held]) :
    Holds layout law census σ other (.pointer p) tokens := by
  simp only [List.mem_cons, List.not_mem_nil, or_false] at member
  rcases member with rfl | rfl | rfl | rfl
  · exact .value value
  · exact .value (value_of_le value nofun)
  · exact .value (value_of_le value nofun)
  · exact .held value

/-- A stronger kind implies a weaker one. -/
theorem Holds.le {other : Kind} (holds : Holds layout law census σ kind contents tokens)
    (le : kind.le other = true) : Holds layout law census σ other contents tokens := by
  rw [Kind.le, decide_eq_true_eq] at le
  rcases le with rfl | rfl | weaker
  · exact .any _
  · exact holds
  · cases holds with
    | exit allowed =>
      cases List.mem_singleton.mp weaker
      exact .continuation
    | environment environment own =>
      simp only [Kind.weaker, List.mem_cons, List.not_mem_nil, or_false] at weaker
      rcases weaker with rfl | rfl | rfl
      · exact .environment environment nofun
      · exact .scope environment
      · exact .chain environment
    | @value grade p _ value =>
      cases grade with
      | plain => exact of_plain value (List.mem_cons_of_mem _ weaker)
      | bound =>
        cases List.mem_singleton.mp weaker
        exact .value (value_of_le value fun _ => rfl)
      | free => cases weaker
    | primitive role => exact of_plain (.primitive role) weaker
    | closure role => exact of_plain (.closure role) weaker
    | called role placed good covers =>
      rcases List.mem_cons.mp weaker with rfl | weaker
      · exact .closure role
      · exact of_plain (.closure role) weaker
    | returned role =>
      cases List.mem_singleton.mp weaker
      exact .value (.returned role fun _ => rfl)
    | arguments arguments =>
      cases List.mem_singleton.mp weaker
      exact .list arguments
    | @node grade _ _ _ _ placed good covers =>
      cases grade with
      | plain =>
        simp only [Kind.weaker, List.mem_cons, List.not_mem_nil, or_false] at weaker
        rcases weaker with rfl | rfl
        · exact .node placed (good_of_le good nofun) covers
        · exact .node placed (good_of_le good nofun) covers
      | bound =>
        cases List.mem_singleton.mp weaker
        exact .node placed (good_of_le good fun _ => rfl) covers
      | free => cases weaker
    | @form form _ _ _ _ placed isKind good =>
      by_cases simple : form = .selfEvaluating
      · subst simple
        simp only [Kind.weaker, List.mem_cons, List.not_mem_nil, or_false] at weaker
        rcases weaker with rfl | rfl | rfl | rfl
        · exact .core placed isKind good
        all_goals exact .value (value_of_form placed isKind)
      · rw [Kind.weaker] at weaker
        · cases List.mem_singleton.mp weaker
          exact .core placed isKind good
        · exact simple
    | _ => cases weaker

theorem Holds.copied (holds : Holds layout law census σ kind contents tokens) :
    Holds layout law census σ kind.copied contents tokens' := by
  cases holds with
  | node | sequence | statements | pending | wanted | hit => exact .any _
  | called role placed good covers => exact .closure role
  | declaring placed declares good covers => exact .spent placed declares good
  | any => exact .any _
  | label => exact .label _
  | continuation => exact .continuation
  | exit allowed => exact .exit allowed
  | unscoped => exact .unscoped
  | scope environment => exact .scope environment
  | environment environment own => exact .environment environment own
  | outside => exact .outside
  | chain environment => exact .chain environment
  | frame known own => exact .frame known own
  | names known names own => exact .names known names own
  | name known named => exact .name known named
  | bindings known bindings own => exact .bindings known bindings own
  | binding known listed own => exact .binding known listed own
  | stray _ unscanned => exact .stray _ unscanned
  | truth b => exact .truth b
  | value value => exact .value value
  | primitive role => exact .primitive role
  | closure role => exact .closure role
  | returned role => exact .returned role
  | unheld => exact .unheld
  | held value => exact .held value
  | arguments arguments => exact .arguments arguments
  | unlisted => exact .unlisted
  | list arguments => exact .list arguments
  | code placed good => exact .code placed good
  | form placed isKind good => exact .form placed isKind good
  | core placed isKind good => exact .core placed isKind good
  | spent placed declares good => exact .spent placed declares good
  | operands placed each => exact .operands placed each

theorem Holds.steady (holds : Holds layout law census σ kind contents tokens) (steady : kind.steady = true)
    (cursor : Nat) : Holds layout law census { σ with cursor } kind contents tokens := by
  cases holds with
  | any => exact .any _
  | label => exact .label _
  | continuation => exact .continuation
  | exit allowed => exact .exit allowed
  | unscoped => exact .unscoped
  | scope environment => exact .scope environment
  | environment environment own => exact .environment environment own
  | outside => exact .outside
  | chain environment => exact .chain environment
  | frame known own => exact .frame known fun isOwn => by subst isOwn; cases steady
  | names known names own => exact .names known names fun isOwn => by subst isOwn; cases steady
  | name known named => cases steady
  | bindings known bindings own => exact .bindings known bindings fun isOwn => by subst isOwn; cases steady
  | binding known listed own => exact .binding known listed fun isOwn => by subst isOwn; cases steady
  | @wanted ahead _ _ wants =>
    cases ahead with
    | some n => cases steady
    | none =>
      refine .wanted fun scanned => ?_
      obtain ⟨record, symbol, place, known, named, same, owed, _⟩ := wants scanned
      exact ⟨record, symbol, place, known, named, same, owed, by simp⟩
  | hit => cases steady
  | stray _ unscanned => exact .stray _ unscanned
  | truth b => exact .truth b
  | @value grade _ _ value => cases grade <;> exact .value value
  | primitive role => exact .primitive role
  | closure role => exact .closure role
  | called role placed good covers => exact .called role placed good covers
  | returned role => exact .returned role
  | unheld => exact .unheld
  | held value => exact .held value
  | arguments arguments => exact .arguments arguments
  | unlisted => exact .unlisted
  | list arguments => exact .list arguments
  | @node grade _ _ _ _ placed good covers => cases grade <;> exact .node placed good covers
  | @code grade _ _ _ placed good => cases grade <;> exact .code placed good
  | form placed isKind good => exact .form placed isKind good
  | core placed isKind good => exact .core placed isKind good
  | declaring placed declares good covers => exact .declaring placed declares good covers
  | spent placed declares good => exact .spent placed declares good
  | sequence placed isKind good covers => exact .sequence placed isKind good covers
  | statements placed each covers => exact .statements placed each covers
  | pending placed each covers => exact .pending placed each covers
  | operands placed each => exact .operands placed each

theorem Holds.steady_or_any (holds : Holds layout law census σ kind contents tokens) (cursor : Nat) :
    Holds layout law census { σ with cursor } (if kind.steady then kind else .any) contents tokens := by
  split
  · exact holds.steady ‹_› cursor
  · exact .any _

theorem Holds.rewound (holds : Holds layout law census σ kind contents tokens) :
    Holds layout law census { σ with cursor := 0 } kind.rewound contents tokens := by
  unfold Kind.rewound
  split
  · cases holds with
    | wanted wants =>
      refine .wanted fun scanned => ?_
      obtain ⟨record, symbol, place, known, named, same, owed, _⟩ := wants scanned
      exact ⟨record, symbol, place, known, named, same, owed, by simp⟩
  · exact holds.steady_or_any 0

theorem Holds.shifted (holds : Holds layout law census σ kind contents tokens) :
    Holds layout law census { σ with cursor := σ.cursor + 1 } kind.shifted contents tokens := by
  unfold Kind.shifted
  split
  · cases holds with
    | wanted wants =>
      refine .wanted fun scanned => ?_
      obtain ⟨record, symbol, place, known, named, same, owed, near⟩ := wants scanned
      refine ⟨record, symbol, place, known, named, same, owed, fun n isAhead => ?_⟩
      cases isAhead
      have bound := near _ rfl
      dsimp only
      omega
  · cases holds with
    | names known names own =>
      refine .names known names fun isOwn => ?_
      obtain ⟨isFrame, isPlace⟩ := own isOwn
      exact ⟨isFrame, by dsimp only; omega⟩
  · exact holds.steady_or_any _

/-- An expression that is given a continuation of its own. -/
theorem Holds.entered (holds : Holds layout law census σ kind contents tokens) (grade : Grade) (back : Nat) :
    Holds layout law census { σ with back, returns := grade.returns σ } (kind.entered grade) contents tokens := by
  cases holds with
  | node placed good covers =>
    simp only [Kind.entered]
    split
    · exact .node placed (good_of_le good (Grade.returns_of_le ‹_›)) covers
    · exact .any _
  | form placed isKind good => exact .core placed isKind good
  | _ => exact .any _

end

end ExplicitControl.Evaluator
