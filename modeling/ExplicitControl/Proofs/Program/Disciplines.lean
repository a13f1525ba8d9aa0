import ExplicitControl.Proofs.Program.Law

namespace ExplicitControl

namespace Tree

/-- A tree composed of the forms of programs that returns only where statements
stand, given whether it stands there itself: as a whole program, as the body of
a function, or where the block, the sequence or the conditional stands that it
is the body, an element or a branch of. -/
inductive Returning : (statement : Bool) → Tree → Prop
  | atom {statement : Bool} (value : Scalar) : Returning statement (.atom value)
  | name {statement : Bool} (symbol : String) : Returning statement (name symbol)
  | application {statement : Bool} {function : Tree} {arguments : List Tree} : Returning false function →
      (∀ argument ∈ arguments, Returning false argument) → Returning statement (application function arguments)
  | constantDeclaration {statement : Bool} (symbol : String) {value : Tree} : Returning false value →
      Returning statement (constantDeclaration symbol value)
  | variableDeclaration {statement : Bool} (symbol : String) {value : Tree} : Returning false value →
      Returning statement (variableDeclaration symbol value)
  | assignment {statement : Bool} (symbol : String) {value : Tree} : Returning false value →
      Returning statement (assignment symbol value)
  | conditionalExpression {statement : Bool} {predicate consequent alternative : Tree} :
      Returning false predicate → Returning statement consequent → Returning statement alternative →
      Returning statement (conditionalExpression predicate consequent alternative)
  | conditionalStatement {statement : Bool} {predicate consequent alternative : Tree} :
      Returning false predicate → Returning statement consequent → Returning statement alternative →
      Returning statement (conditionalStatement predicate consequent alternative)
  | functionDefinition {statement : Bool} (parameters : List String) {body : Tree} : Returning true body →
      Returning statement (functionDefinition parameters body)
  | sequence {statement : Bool} {statements : List Tree} : (∀ tree ∈ statements, Returning statement tree) →
      Returning statement (sequence statements)
  | returnStatement {value : Tree} : Returning false value → Returning true (returnStatement value)
  | block {statement : Bool} {body : Tree} : Returning statement body → Returning statement (block body)
  | booleanOperation {statement : Bool} (operator : String) {first second : Tree} : Returning false first →
      Returning false second → Returning statement (booleanOperation operator first second)

/-- What returns nowhere may stand anywhere. -/
theorem Returning.widen {statement : Bool} {tree : Tree} (returning : Returning statement tree) :
    Returning true tree := by
  induction returning with
  | atom value => exact .atom value
  | name symbol => exact .name symbol
  | application function arguments => exact .application function arguments
  | constantDeclaration symbol value => exact .constantDeclaration symbol value
  | variableDeclaration symbol value => exact .variableDeclaration symbol value
  | assignment symbol value => exact .assignment symbol value
  | conditionalExpression predicate _ _ _ ihConsequent ihAlternative =>
    exact .conditionalExpression predicate ihConsequent ihAlternative
  | conditionalStatement predicate _ _ _ ihConsequent ihAlternative =>
    exact .conditionalStatement predicate ihConsequent ihAlternative
  | functionDefinition parameters body => exact .functionDefinition parameters body
  | sequence _ ih => exact .sequence ih
  | returnStatement value => exact .returnStatement value
  | block _ ih => exact .block ih
  | booleanOperation operator first second => exact .booleanOperation operator first second

end Tree

namespace Interpreter

open Node

/-- A part that is there and good. -/
def Node.Part (node : Node) (index : Nat) (good : Node → Prop) : Prop :=
  ∃ part, node.item index = .ok part ∧ good part

theorem Node.Part.good {node part : Node} {index : Nat} {good : Node → Prop} (given : node.Part index good)
    (isPart : node.item index = .ok part) : good part := by
  obtain ⟨part', isPart', good⟩ := given
  cases isPart.symm.trans isPart'
  exact good

/-- The parts of a node of a form that has them all. -/
theorem Parts.of_kind {strict scanned : Bool} {good : Site → Bool → Node → Prop} {site : Site} {returns : Bool}
    {node : Node} {form : ExpressionKind} (isKind : node.kind = some form)
    (returnStatement : form = .returnStatement → strict = true → returns = true)
    (declaration : form.isDeclaration = true → scanned = true →
      site ≠ .inner ∧ ∃ symbol, node.declarationSymbol = .ok (.leaf (.string symbol)))
    (inner : ∀ index, (form, index) ∈ innerParts → node.Part index (good .inner false))
    (branch : form = .conditional → node.Part 2 (good .inner returns) ∧ node.Part 3 (good .inner returns))
    (function : form = .functionDefinition → node.Part 2 (good .body true))
    (block : form = .block → node.Part 1 (good .body returns))
    (elements : form = .sequence → node.Part 1 (·.Each (good site.element returns)))
    (operands : form = .application ∨ form = .booleanOperation → node.Part 2 (·.Each (good .inner false))) :
    Parts strict scanned good site returns node := by
  have same {kind : ExpressionKind} (isKind' : node.kind = some kind) : form = kind :=
    Option.some.inj (isKind.symm.trans isKind')
  constructor
  · exact fun isKind' => returnStatement (same isKind')
  · intro declares
    refine declaration ?_
    simpa only [Node.declares, isKind] using declares
  · exact fun kind index part member isKind' => (inner index (same isKind' ▸ member)).good
  · rintro index part (rfl | rfl) isKind'
    · exact (branch (same isKind')).1.good
    · exact (branch (same isKind')).2.good
  · exact fun part isKind' => (function (same isKind')).good
  · exact fun part isKind' => (block (same isKind')).good
  · exact fun part isKind' => (elements (same isKind')).good
  · exact fun part isKind' => (operands (isKind'.imp same same)).good

/-- A tree is good wherever it is marked. -/
def Marked (good : Node → Prop) (tree : Tree) : Prop :=
  ∀ place, good (mark place tree)

theorem each_of_list {good : Node → Prop} {trees : List Tree} (marked : ∀ tree ∈ trees, Marked good tree)
    (place : List Bool) : (mark place (.ofList trees)).Each good := by
  induction trees generalizing place with
  | nil => trivial
  | cons tree trees ih =>
    obtain ⟨first, rest⟩ := List.forall_mem_cons.mp marked
    exact ⟨first _, ih rest _⟩

namespace Parts

variable {strict scanned : Bool} {good : Site → Bool → Node → Prop} {site : Site} {returns : Bool} {place : List Bool}

theorem of_atom (value : Scalar) : Parts strict scanned good site returns (mark place (.atom value)) :=
  .of_kind rfl nofun nofun (by simp [innerParts]) nofun nofun nofun nofun (by simp)

theorem of_name (symbol : String) : Parts strict scanned good site returns (mark place (.name symbol)) :=
  .of_kind rfl nofun nofun (by simp [innerParts]) nofun nofun nofun nofun (by simp)

theorem of_application {function : Tree} {arguments : List Tree} (isFunction : Marked (good .inner false) function)
    (areArguments : ∀ argument ∈ arguments, Marked (good .inner false) argument) :
    Parts strict scanned good site returns (mark place (.application function arguments)) :=
  .of_kind rfl nofun nofun (by simpa [innerParts] using ⟨_, rfl, isFunction _⟩) nofun nofun nofun nofun
    fun _ => ⟨_, rfl, each_of_list areArguments _⟩

theorem of_constantDeclaration {symbol : String} {value : Tree} (isValue : Marked (good .inner false) value)
    (permitted : scanned = true → site ≠ .inner) :
    Parts strict scanned good site returns (mark place (.constantDeclaration symbol value)) :=
  .of_kind rfl nofun (fun _ isScanned => ⟨permitted isScanned, symbol, rfl⟩)
    (by simpa [innerParts] using ⟨_, rfl, isValue _⟩) nofun nofun nofun nofun (by simp)

theorem of_variableDeclaration {symbol : String} {value : Tree} (isValue : Marked (good .inner false) value)
    (permitted : scanned = true → site ≠ .inner) :
    Parts strict scanned good site returns (mark place (.variableDeclaration symbol value)) :=
  .of_kind rfl nofun (fun _ isScanned => ⟨permitted isScanned, symbol, rfl⟩)
    (by simpa [innerParts] using ⟨_, rfl, isValue _⟩) nofun nofun nofun nofun (by simp)

theorem of_assignment {symbol : String} {value : Tree} (isValue : Marked (good .inner false) value) :
    Parts strict scanned good site returns (mark place (.assignment symbol value)) :=
  .of_kind rfl nofun nofun (by simpa [innerParts] using ⟨_, rfl, isValue _⟩) nofun nofun nofun nofun (by simp)

section

variable {predicate consequent alternative : Tree} (isPredicate : Marked (good .inner false) predicate)
  (isConsequent : Marked (good .inner returns) consequent) (isAlternative : Marked (good .inner returns) alternative)
include isPredicate isConsequent isAlternative

theorem of_conditionalExpression : Parts strict scanned good site returns
    (mark place (.conditionalExpression predicate consequent alternative)) :=
  .of_kind rfl nofun nofun (by simpa [innerParts] using ⟨_, rfl, isPredicate _⟩)
    (fun _ => ⟨⟨_, rfl, isConsequent _⟩, _, rfl, isAlternative _⟩) nofun nofun nofun (by simp)

theorem of_conditionalStatement : Parts strict scanned good site returns
    (mark place (.conditionalStatement predicate consequent alternative)) :=
  .of_kind rfl nofun nofun (by simpa [innerParts] using ⟨_, rfl, isPredicate _⟩)
    (fun _ => ⟨⟨_, rfl, isConsequent _⟩, _, rfl, isAlternative _⟩) nofun nofun nofun (by simp)

end

theorem of_functionDefinition {parameters : List String} {body : Tree} (isBody : Marked (good .body true) body) :
    Parts strict scanned good site returns (mark place (.functionDefinition parameters body)) :=
  .of_kind rfl nofun nofun (by simp [innerParts]) nofun (fun _ => ⟨_, rfl, isBody _⟩) nofun nofun (by simp)

theorem of_sequence {statements : List Tree}
    (areStatements : ∀ tree ∈ statements, Marked (good site.element returns) tree) :
    Parts strict scanned good site returns (mark place (.sequence statements)) :=
  .of_kind rfl nofun nofun (by simp [innerParts]) nofun nofun nofun
    (fun _ => ⟨_, rfl, each_of_list areStatements _⟩) (by simp)

theorem of_returnStatement {value : Tree} (isValue : Marked (good .inner false) value)
    (allowed : strict = true → returns = true) :
    Parts strict scanned good site returns (mark place (.returnStatement value)) :=
  .of_kind rfl (fun _ => allowed) nofun (by simpa [innerParts] using ⟨_, rfl, isValue _⟩) nofun nofun nofun nofun
    (by simp)

theorem of_block {body : Tree} (isBody : Marked (good .body returns) body) :
    Parts strict scanned good site returns (mark place (.block body)) :=
  .of_kind rfl nofun nofun (by simp [innerParts]) nofun nofun (fun _ => ⟨_, rfl, isBody _⟩) nofun (by simp)

theorem of_booleanOperation {operator : String} {first second : Tree} (isFirst : Marked (good .inner false) first)
    (isSecond : Marked (good .inner false) second) :
    Parts strict scanned good site returns (mark place (.booleanOperation operator first second)) :=
  .of_kind rfl nofun nofun (by simp [innerParts]) nofun nofun nofun nofun
    fun _ => ⟨_, rfl, isFirst _, isSecond _, trivial⟩

end Parts

/-- Programs that declare names only where they are scanned out. -/
def Law.scannedOut : Law where
  strict := false
  scanned := true
  good := fun site _ node => node.Composed (· ≠ .inner) site
  widen := id
  parts := by
    intro site returns node composed
    obtain ⟨place, tree, built, rfl⟩ := composed
    have marked {site : Site} {tree : Tree} (built : Tree.Built (· ≠ .inner) site tree) :
        Marked (Node.Composed (· ≠ .inner) site) tree := fun place => ⟨place, tree, built, rfl⟩
    cases built with
    | atom _ value => exact .of_atom value
    | name _ symbol => exact .of_name symbol
    | application _ function arguments =>
      exact .of_application (marked function) fun argument member => marked (arguments argument member)
    | constantDeclaration _ permitted value => exact .of_constantDeclaration (marked value) fun _ => permitted
    | variableDeclaration _ permitted value => exact .of_variableDeclaration (marked value) fun _ => permitted
    | assignment _ _ value => exact .of_assignment (marked value)
    | conditionalExpression _ predicate consequent alternative =>
      exact .of_conditionalExpression (marked predicate) (marked consequent) (marked alternative)
    | conditionalStatement _ predicate consequent alternative =>
      exact .of_conditionalStatement (marked predicate) (marked consequent) (marked alternative)
    | functionDefinition _ _ body => exact .of_functionDefinition (marked body)
    | sequence _ statements => exact .of_sequence fun tree member => marked (statements tree member)
    | returnStatement _ value => exact .of_returnStatement (marked value) nofun
    | block _ body => exact .of_block (marked body)
    | booleanOperation _ _ first second => exact .of_booleanOperation (marked first) (marked second)

/-- A node for a tree that returns only where statements stand. -/
def Node.Returning (returns : Bool) (node : Node) : Prop :=
  ∃ place tree, Tree.Returning returns tree ∧ node = mark place tree

/-- Programs that return only where statements stand. -/
def Law.returning : Law where
  strict := true
  scanned := false
  good := fun _ returns node => node.Returning returns
  widen := by
    rintro site node ⟨place, tree, returning, same⟩
    exact ⟨place, tree, returning.widen, same⟩
  parts := by
    intro site returns node returning
    obtain ⟨place, tree, returning, rfl⟩ := returning
    have marked {returns : Bool} {tree : Tree} (returning : Tree.Returning returns tree) :
        Marked (Node.Returning returns) tree := fun place => ⟨place, tree, returning, rfl⟩
    cases returning with
    | atom value => exact .of_atom value
    | name symbol => exact .of_name symbol
    | application function arguments =>
      exact .of_application (marked function) fun argument member => marked (arguments argument member)
    | constantDeclaration _ value => exact .of_constantDeclaration (marked value) nofun
    | variableDeclaration _ value => exact .of_variableDeclaration (marked value) nofun
    | assignment _ value => exact .of_assignment (marked value)
    | conditionalExpression predicate consequent alternative =>
      exact .of_conditionalExpression (marked predicate) (marked consequent) (marked alternative)
    | conditionalStatement predicate consequent alternative =>
      exact .of_conditionalStatement (marked predicate) (marked consequent) (marked alternative)
    | functionDefinition _ body => exact .of_functionDefinition (marked body)
    | sequence statements => exact .of_sequence fun tree member => marked (statements tree member)
    | returnStatement value => exact .of_returnStatement (marked value) fun _ => rfl
    | block body => exact .of_block (marked body)
    | booleanOperation _ first second => exact .of_booleanOperation (marked first) (marked second)

end Interpreter

end ExplicitControl
