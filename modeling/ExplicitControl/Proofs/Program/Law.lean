import ExplicitControl.Proofs.Program.Composed
import ExplicitControl.Proofs.Program.Reading
import Mathlib.Data.Multiset.AddSub
import Mathlib.Data.Multiset.UnionInter

namespace ExplicitControl.Interpreter

open Node

/-- What is said of each item, as far as a node is a list. -/
def Node.Each (good : Node → Prop) : Node → Prop
  | .leaf _ => True
  | .pair _ head tail => good head ∧ tail.Each good

/-- The parts of the forms that are evaluated by themselves, none of which is a
statement. -/
def innerParts : List (ExpressionKind × Nat) :=
  [(.returnStatement, 1), (.constantDeclaration, 2), (.variableDeclaration, 2), (.assignment, 2),
    (.conditional, 1), (.application, 1)]

/-- How a node and its parts are good, given what that means. A part may
return if it stands where statements stand; operands, tests and values that
are bound never do. -/
structure Parts (strict scanned : Bool) (good : Site → Bool → Node → Prop) (site : Site) (returns : Bool)
    (node : Node) : Prop where
  returnStatement : node.kind = some .returnStatement → strict = true → returns = true
  declaration : node.declares = true → scanned = true →
    site ≠ .inner ∧ ∃ symbol, node.declarationSymbol = .ok (.leaf (.string symbol))
  inner : ∀ kind index part, (kind, index) ∈ innerParts → node.kind = some kind →
    node.item index = .ok part → good .inner false part
  branch : ∀ index part, index = 2 ∨ index = 3 → node.kind = some .conditional →
    node.item index = .ok part → good .inner returns part
  function : ∀ part, node.kind = some .functionDefinition → node.item 2 = .ok part → good .body true part
  block : ∀ part, node.kind = some .block → node.item 1 = .ok part → good .body returns part
  elements : ∀ part, node.kind = some .sequence → node.item 1 = .ok part →
    part.Each (good site.element returns)
  operands : ∀ part, node.kind = some .application ∨ node.kind = some .booleanOperation →
    node.item 2 = .ok part → part.Each (good .inner false)

/-- What is known of a program: whether it returns only where statements
stand, whether it declares only what is scanned out, and which of its nodes
are good at which site, where a return is allowed or not. Parts of good nodes
are good, so the law goes with the evaluation down to every part. -/
structure Law where
  strict : Bool
  scanned : Bool
  good : Site → Bool → Node → Prop
  widen : ∀ {site node}, good site false node → good site true node
  parts : ∀ {site returns node}, good site returns node → Parts strict scanned good site returns node

/-- Nothing need be known of a program. -/
def Law.none : Law where
  strict := false
  scanned := false
  good := fun _ _ _ => True
  widen := id
  parts := by
    intro site returns node _
    have each (list : Node) : list.Each fun _ => True := by
      induction list with
      | leaf _ => trivial
      | pair _ _ _ _ ih => exact ⟨trivial, ih⟩
    exact ⟨nofun, nofun, fun _ _ _ _ _ _ => trivial, fun _ _ _ _ _ => trivial, fun _ _ _ => trivial,
      fun _ _ _ => trivial, fun part _ _ => each part, fun part _ _ => each part⟩

theorem Node.Each.item {good : Node → Prop} {node part : Node} (each : node.Each good) {index : Nat}
    (found : node.item index = .ok part) : good part := by
  induction index generalizing node with
  | zero =>
    cases node with
    | leaf _ => cases found
    | pair _ _ _ =>
      cases found
      exact each.1
  | succ index ih =>
    cases node with
    | leaf _ => cases found
    | pair _ _ _ => exact ih each.2 found

theorem Node.Each.items {good : Node → Prop} {node : Node} {nodes : List Node} (each : node.Each good)
    (listed : node.items = .ok nodes) : ∀ item ∈ nodes, good item := by
  induction node generalizing nodes with
  | leaf value =>
    cases value with
    | null => cases listed; simp
    | _ => cases listed
  | pair place head tail _ ih =>
    obtain ⟨rest, listedRest, same⟩ := Read.bind_eq_ok_iff.mp listed
    cases same
    exact List.forall_mem_cons.mpr ⟨each.1, ih each.2 listedRest⟩

/-- What a statement owes to a frame with given names: if it is a declaration,
the place of its name. -/
def Node.Owes (names : List Pointer) (node : Node) (owed : Multiset Nat) : Prop :=
  if node.declares then
    ∃ symbol place, node.declarationSymbol = .ok (.leaf (.string symbol)) ∧
      names[place]? = some (.string symbol) ∧ owed = {place}
  else owed = 0

@[inherit_doc Node.Owes]
def Node.OwesEach (names : List Pointer) : Node → Multiset Nat → Prop
  | .leaf _, owed => owed = 0
  | .pair _ head tail, owed =>
    ∃ first rest, head.Owes names first ∧ tail.OwesEach names rest ∧ owed = first + rest

/-- What a list of statements owes, at the site of its statements. -/
def DutyEach (names : List Pointer) (site : Site) (list : Node) (owed : Multiset Nat) : Prop :=
  if site = .statement then list.OwesEach names owed else owed = 0

/-- What a node owes to its frame. Only statements right in a body owe
anything: each declaration there owes the place of its name, and pays it when
it is evaluated. -/
def Duty (names : List Pointer) (site : Site) (node : Node) (owed : Multiset Nat) : Prop :=
  match site with
  | .inner => owed = 0
  | .statement => node.Owes names owed
  | .body =>
    if node.kind = some .sequence then ∃ list, node.item 1 = .ok list ∧ list.OwesEach names owed
    else node.Owes names owed

section

variable {names : List Pointer} {site : Site} {node : Node} {owed : Multiset Nat}

theorem Node.declares_eq_false {kind : ExpressionKind} (isKind : node.kind = some kind)
    (other : kind.isDeclaration = false) : node.declares = false := by
  simp only [Node.declares, isKind, other]

/-- A sequence owes what its statements do. -/
theorem Duty.elements {list : Node} (duty : Duty names site node owed) (isKind : node.kind = some .sequence)
    (isList : node.item 1 = .ok list) : DutyEach names site.element list owed := by
  cases site with
  | inner => exact duty
  | statement =>
    simp only [Duty, Node.Owes, Node.declares_eq_false isKind rfl] at duty
    exact duty
  | body =>
    simp only [Duty, if_pos isKind] at duty
    obtain ⟨list', isList', owes⟩ := duty
    cases isList.symm.trans isList'
    exact owes

/-- A declaration owes the place of its name, unless it lies inside another
form. -/
theorem Duty.declaration (duty : Duty names site node owed) (declares : node.declares = true)
    (outer : site ≠ .inner) :
    ∃ symbol place, node.declarationSymbol = .ok (.leaf (.string symbol)) ∧
      names[place]? = some (.string symbol) ∧ owed = {place} := by
  have one : node.Owes names owed := by
    cases site with
    | inner => exact absurd rfl outer
    | statement => exact duty
    | body =>
      have single : node.kind ≠ some .sequence := by
        intro isKind
        rw [Node.declares_eq_false isKind rfl] at declares
        cases declares
      simp only [Duty, if_neg single] at duty
      exact duty
  rwa [Node.Owes, if_pos declares] at one

/-- What a list of statements owes is owed by the first and the others, apart
from each other. -/
theorem DutyEach.parts {place : List Bool} {head tail : Node}
    (duty : DutyEach names site.element (.pair place head tail) owed) :
    ∃ first rest, Duty names site.element head first ∧ DutyEach names site.element tail rest ∧
      owed = first + rest := by
  cases site with
  | body => exact duty
  | inner => exact ⟨0, 0, rfl, rfl, by simpa [DutyEach, Site.element] using duty⟩
  | statement => exact ⟨0, 0, rfl, rfl, by simpa [DutyEach, Site.element] using duty⟩

end

/-- Statements with the names that those of them declare which are declarations. -/
inductive Declaring : List Node → List String → Prop
  | nil : Declaring [] []
  | other {node : Node} {nodes : List Node} {symbols : List String} : node.declares = false →
      Declaring nodes symbols → Declaring (node :: nodes) symbols
  | declaration {node : Node} {nodes : List Node} {symbol : String} {symbols : List String} :
      node.declares = true → node.declarationSymbol = .ok (.leaf (.string symbol)) →
      Declaring nodes symbols → Declaring (node :: nodes) (symbol :: symbols)

theorem string_same {symbol : String} {node : Node} :
    (node == .leaf (.string symbol)) = true ↔ node = .leaf (.string symbol) := by
  cases node with
  | pair place head tail => exact ⟨nofun, nofun⟩
  | leaf value =>
    cases value with
    | string s =>
      change (s == symbol) = true ↔ _
      rw [beq_iff_eq]
      exact ⟨fun same => same ▸ rfl, fun same => by cases same; rfl⟩
    | _ => exact ⟨nofun, nofun⟩

/-- What is scanned out is what the statements declare, each name once. A name
that is declared twice is a mistake, found before anything is evaluated. -/
theorem exists_declaring {nodes found result : List Node}
    (named : ∀ node ∈ nodes, node.declares = true →
      ∃ symbol, node.declarationSymbol = .ok (.leaf (.string symbol)))
    (scanned : nodes.foldlM (fun found node =>
      if node.declares then do addSymbol found (← node.declarationSymbol) else .ok found) found = .ok result) :
    ∃ symbols, Declaring nodes symbols ∧ symbols.Nodup ∧
      (∀ symbol ∈ symbols, .leaf (.string symbol) ∉ found ∧ .leaf (.string symbol) ∈ result) ∧
      ∀ node ∈ found, node ∈ result := by
  induction nodes generalizing found with
  | nil =>
    cases scanned
    exact ⟨[], .nil, .nil, by simp, fun _ => id⟩
  | cons node nodes ih =>
    rw [List.foldlM_cons] at scanned
    obtain ⟨next, first, rest⟩ := Read.bind_eq_ok_iff.mp scanned
    obtain ⟨namedHere, namedRest⟩ := List.forall_mem_cons.mp named
    obtain ⟨symbols, declaring, nodup, new, kept⟩ := ih namedRest rest
    by_cases declares : node.declares = true
    · obtain ⟨symbol, isSymbol⟩ := namedHere declares
      rw [if_pos declares, isSymbol] at first
      change addSymbol found (.leaf (.string symbol)) = .ok next at first
      unfold addSymbol at first
      split at first
      · cases first
      · rename_i absent
        cases first
        have notFound : .leaf (.string symbol) ∉ found := by
          intro member
          refine absent (List.contains_iff_exists_mem_beq.mpr ⟨_, member, ?_⟩)
          exact string_same.mpr rfl
        have inNext : .leaf (.string symbol) ∈ found ++ [.leaf (.string symbol)] := by simp
        refine ⟨symbol :: symbols, .declaration declares isSymbol declaring, ?_, ?_, ?_⟩
        · exact List.nodup_cons.mpr ⟨fun member => (new symbol member).1 inNext, nodup⟩
        · intro symbol' member
          rcases List.mem_cons.mp member with rfl | member
          · exact ⟨notFound, kept _ inNext⟩
          · obtain ⟨notNext, inResult⟩ := new symbol' member
            exact ⟨fun member => notNext (List.mem_append_left _ member), inResult⟩
        · exact fun node member => kept node (List.mem_append_left _ member)
    · rw [if_neg declares] at first
      cases first
      exact ⟨symbols, .other (by simpa using declares) declaring, nodup, new, kept⟩

theorem pointer_same {symbol : String} {p : Pointer} :
    (p == .string symbol) = true ↔ p = .string symbol := by
  cases p with
  | pair address => exact ⟨nofun, nofun⟩
  | program address => exact ⟨nofun, nofun⟩
  | scalar value =>
    cases value with
    | string s =>
      change (s == symbol) = true ↔ _
      rw [beq_iff_eq]
      exact ⟨fun same => same ▸ rfl, fun same => by cases same; rfl⟩
    | _ => exact ⟨nofun, nofun⟩

/-- The place of a name in a frame. -/
def placeOf (names : List Pointer) (symbol : String) : Nat :=
  names.findIdx fun name => name == .string symbol

theorem getElem?_placeOf {names : List Pointer} {symbol : String} (member : .string symbol ∈ names) :
    names[placeOf names symbol]? = some (.string symbol) := by
  have inside : placeOf names symbol < names.length :=
    List.findIdx_lt_length_of_exists ⟨_, member, pointer_same.mpr rfl⟩
  rw [List.getElem?_eq_getElem inside]
  exact congrArg some (pointer_same.mp (List.findIdx_getElem (w := inside)))

/-- Different names have different places. -/
theorem nodup_places {names : List Pointer} {symbols : List String} (nodup : symbols.Nodup)
    (named : ∀ symbol ∈ symbols, .string symbol ∈ names) : (symbols.map (placeOf names)).Nodup := by
  refine List.Nodup.map_on ?_ nodup
  intro one isOne other isOther same
  have first := getElem?_placeOf (named one isOne)
  rw [same, getElem?_placeOf (named other isOther)] at first
  cases first
  rfl

section

variable {names : List Pointer}

/-- A statement that is a declaration owes the place of its name in any frame
that has the name. -/
theorem Declaring.owes {node : Node} {symbols : List String} (declaring : Declaring [node] symbols)
    (named : ∀ symbol ∈ symbols, .string symbol ∈ names) :
    node.Owes names (symbols.map (placeOf names) : List Nat) := by
  unfold Node.Owes
  cases declaring with
  | other declares rest =>
    cases rest
    rw [if_neg (by simp [declares])]
    rfl
  | declaration declares isSymbol rest =>
    cases rest
    rw [if_pos declares]
    exact ⟨_, _, isSymbol, getElem?_placeOf (named _ List.mem_cons_self), rfl⟩

theorem Declaring.owesEach {nodes : List Node} {list : Node} {symbols : List String}
    (declaring : Declaring nodes symbols) (listed : list.items = .ok nodes)
    (named : ∀ symbol ∈ symbols, .string symbol ∈ names) :
    list.OwesEach names (symbols.map (placeOf names) : List Nat) := by
  induction list generalizing nodes symbols with
  | leaf value =>
    have none : nodes = [] := by
      cases value with
      | null => cases listed; rfl
      | _ => cases listed
    subst none
    cases declaring
    rfl
  | pair place head tail _ ih =>
    obtain ⟨rest, listedRest, same⟩ := Read.bind_eq_ok_iff.mp listed
    cases same
    cases declaring with
    | other declares rest =>
      exact ⟨0, _, Declaring.owes (.other declares .nil) (by simp), ih rest listedRest named, by simp⟩
    | declaration declares isSymbol rest =>
      obtain ⟨here, named⟩ := List.forall_mem_cons.mp named
      refine ⟨_, _, Declaring.owes (.declaration declares isSymbol .nil) (by simpa using here),
        ih rest listedRest named, ?_⟩
      rfl

/-- A body whose names are all in a frame owes it each of them once. That is
why no cell of a frame is written by two of its declarations. -/
theorem Law.exists_duty {law : Law} {node : Node} {returns : Bool} {found : List Node}
    (scanned : law.scanned = true) (good : law.good .body returns node) (declared : node.declaredNames = .ok found)
    (named : ∀ symbol, .leaf (.string symbol) ∈ found → .string symbol ∈ names) :
    ∃ owed, Duty names .body node owed ∧ owed.Nodup := by
  obtain ⟨nodes, listed, folded⟩ := Read.bind_eq_ok_iff.mp declared
  have symbols {site : Site} {returns : Bool} {statement : Node} (good : law.good site returns statement)
      (declares : statement.declares = true) :
      ∃ symbol, statement.declarationSymbol = .ok (.leaf (.string symbol)) :=
    ((law.parts good).declaration declares scanned).2
  unfold Node.statements at listed
  simp only [Duty]
  split at listed <;> rename_i isSequence
  · obtain ⟨list, isList, isItems⟩ := Read.bind_eq_ok_iff.mp listed
    have goods := ((law.parts good).elements list isSequence isList).items isItems
    obtain ⟨ss, declaring, nodup, present, _⟩ :=
      exists_declaring (fun statement member => symbols (goods statement member)) folded
    have inNames : ∀ symbol ∈ ss, .string symbol ∈ names := fun symbol member => named symbol (present symbol member).2
    refine ⟨_, ?_, Multiset.coe_nodup.mpr (nodup_places nodup inNames)⟩
    rw [if_pos isSequence]
    exact ⟨list, isList, declaring.owesEach isItems inNames⟩
  · cases listed
    obtain ⟨ss, declaring, nodup, present, _⟩ := exists_declaring (by simpa using symbols good) folded
    have inNames : ∀ symbol ∈ ss, .string symbol ∈ names := fun symbol member => named symbol (present symbol member).2
    refine ⟨_, ?_, Multiset.coe_nodup.mpr (nodup_places nodup inNames)⟩
    rw [if_neg isSequence]
    exact declaring.owes inNames

end

end ExplicitControl.Interpreter
