import ExplicitControl.Proofs.Interpreter.Evaluate
import ExplicitControl.Tree.Build

namespace ExplicitControl

/-- Where a tree stands: it is a whole body, or a statement right in a body,
or it lies inside another form. The names that a body declares are scanned out
of the first two places only. -/
inductive Site where
  | body
  | statement
  | inner
  deriving DecidableEq

/-- Where the statements of a sequence stand. -/
def Site.element : Site → Site
  | .body => .statement
  | _ => .inner

namespace Tree

/-- A tree composed of the forms of programs, with its declarations only where
they are permitted. -/
inductive Built (permitted : Site → Prop) : Site → Tree → Prop
  | atom (site : Site) (value : Scalar) : Built permitted site (.atom value)
  | name (site : Site) (symbol : String) : Built permitted site (name symbol)
  | application (site : Site) {function : Tree} {arguments : List Tree} :
      Built permitted .inner function → (∀ argument ∈ arguments, Built permitted .inner argument) →
      Built permitted site (application function arguments)
  | constantDeclaration {site : Site} (symbol : String) {value : Tree} :
      permitted site → Built permitted .inner value →
      Built permitted site (constantDeclaration symbol value)
  | variableDeclaration {site : Site} (symbol : String) {value : Tree} :
      permitted site → Built permitted .inner value →
      Built permitted site (variableDeclaration symbol value)
  | assignment (site : Site) (symbol : String) {value : Tree} :
      Built permitted .inner value → Built permitted site (assignment symbol value)
  | conditionalExpression (site : Site) {predicate consequent alternative : Tree} :
      Built permitted .inner predicate → Built permitted .inner consequent →
      Built permitted .inner alternative →
      Built permitted site (conditionalExpression predicate consequent alternative)
  | conditionalStatement (site : Site) {predicate consequent alternative : Tree} :
      Built permitted .inner predicate → Built permitted .inner consequent →
      Built permitted .inner alternative →
      Built permitted site (conditionalStatement predicate consequent alternative)
  | functionDefinition (site : Site) (parameters : List String) {body : Tree} :
      Built permitted .body body → Built permitted site (functionDefinition parameters body)
  | sequence (site : Site) {statements : List Tree} :
      (∀ statement ∈ statements, Built permitted site.element statement) →
      Built permitted site (sequence statements)
  | returnStatement (site : Site) {value : Tree} :
      Built permitted .inner value → Built permitted site (returnStatement value)
  | block (site : Site) {body : Tree} :
      Built permitted .body body → Built permitted site (block body)
  | booleanOperation (site : Site) (operator : String) {first second : Tree} :
      Built permitted .inner first → Built permitted .inner second →
      Built permitted site (booleanOperation operator first second)

/-- A tree composed of the forms of programs. -/
abbrev Composed (tree : Tree) : Prop :=
  Built (fun _ => True) .body tree

/-- A composed tree that declares names only where they are scanned out: as a
body, or as a statement right in the sequence that is a body. -/
abbrev ScannedOut (tree : Tree) : Prop :=
  Built (· ≠ .inner) .body tree

end Tree

namespace Interpreter

/-- A node for a composed tree. -/
def Node.Composed (permitted : Site → Prop) (site : Site) (node : Node) : Prop :=
  ∃ place tree, Tree.Built permitted site tree ∧ node = mark place tree

/-- A node for a proper list, with what is said of each item. -/
inductive Node.Row (each : Node → Prop) : Node → Prop
  | nil : Row each (.leaf .null)
  | cons {place : List Bool} {first rest : Node} :
      each first → Row each rest → Row each (.pair place first rest)

/-- A node for a name. -/
def Node.Named (node : Node) : Prop :=
  ∃ symbol, node.item 1 = .ok (.leaf (.string symbol))

/-- The parts of a declaration or an assignment: a name and an expression. -/
structure Node.Binds (permitted : Site → Prop) (node : Node) : Prop where
  name : ∃ name, node.item 1 = .ok name ∧ name.Named
  value : ∃ value, node.item 2 = .ok value ∧ value.Composed permitted .inner

/-- The parts of a composed tree, by its form. -/
inductive Node.Form (permitted : Site → Prop) (site : Site) : Option ExpressionKind → Node → Prop
  | selfEvaluating (value : Scalar) : Form permitted site (some .selfEvaluating) (.leaf value)
  | name {node : Node} : node.Named → Form permitted site (some .name) node
  | constantDeclaration {node : Node} : permitted site → node.Binds permitted →
      Form permitted site (some .constantDeclaration) node
  | variableDeclaration {node : Node} : permitted site → node.Binds permitted →
      Form permitted site (some .variableDeclaration) node
  | assignment {node : Node} : node.Binds permitted → Form permitted site (some .assignment) node
  | conditional {node predicate consequent alternative : Node} :
      node.item 1 = .ok predicate → node.item 2 = .ok consequent → node.item 3 = .ok alternative →
      predicate.Composed permitted .inner → consequent.Composed permitted .inner →
      alternative.Composed permitted .inner → Form permitted site (some .conditional) node
  | functionDefinition {node parameters body : Node} :
      node.item 1 = .ok parameters → node.item 2 = .ok body → parameters.Row Named →
      body.Composed permitted .body → Form permitted site (some .functionDefinition) node
  | sequence {node list : Node} : node.item 1 = .ok list → list.Row (Composed permitted site.element) →
      Form permitted site (some .sequence) node
  | application {node function list : Node} : node.item 1 = .ok function → node.item 2 = .ok list →
      function.Composed permitted .inner → list.Row (Composed permitted .inner) →
      Form permitted site (some .application) node
  | returnStatement {node value : Node} : node.item 1 = .ok value → value.Composed permitted .inner →
      Form permitted site (some .returnStatement) node
  | block {node body : Node} : node.item 1 = .ok body → body.Composed permitted .body →
      Form permitted site (some .block) node
  | booleanOperation {node operator operands first second : Node} :
      node.item 1 = .ok operator → operator.Named →
      node.item 2 = .ok operands → operands.item 0 = .ok first → operands.item 1 = .ok second →
      first.Composed permitted .inner → second.Composed permitted .inner →
      Form permitted site (some .booleanOperation) node

/-- The parts of functions are composed. -/
def Value.Sound (permitted : Site → Prop) : Value → Prop
  | .closure _ parameters body _ => parameters.Row Node.Named ∧ body.Composed permitted .body
  | .returned _ content => content.Sound permitted
  | _ => True

/-- All values in the store are sound. -/
def Store.Sound (permitted : Site → Prop) (store : Store) : Prop :=
  ∀ cell ∈ store.cells, cell.value.Sound permitted

variable {permitted : Site → Prop} {site : Site} {node : Node}

theorem Node.Row.mono {each each' : Node → Prop} (row : node.Row each) (le : ∀ item, each item → each' item) :
    node.Row each' := by
  induction row with
  | nil => exact .nil
  | cons first _ ih => exact .cons (le _ first) ih

theorem Node.Row.parts {each : Node → Prop} {place : List Bool} {first rest : Node}
    (row : (Node.pair place first rest).Row each) : each first ∧ rest.Row each := by
  cases row with
  | cons first rest => exact ⟨first, rest⟩

theorem Node.Row.of_list {trees : List Tree} (built : ∀ tree ∈ trees, Tree.Built permitted site tree)
    (place : List Bool) : (mark place (.ofList trees)).Row (Composed permitted site) := by
  induction trees generalizing place with
  | nil => exact .nil
  | cons tree trees ih =>
    obtain ⟨first, rest⟩ := List.forall_mem_cons.mp built
    exact .cons ⟨_, tree, first, rfl⟩ (ih rest _)

theorem Node.Row.of_names (symbols : List String) (place : List Bool) :
    (mark place (.ofList (symbols.map Tree.name))).Row Named := by
  induction symbols generalizing place with
  | nil => exact .nil
  | cons symbol symbols ih => exact .cons ⟨symbol, rfl⟩ (ih _)

/-- A node for a composed tree has the parts that its form asks for, each of
them composed again and at its own site. -/
theorem Node.Composed.form (composed : node.Composed permitted site) :
    node.Form permitted site node.kind := by
  obtain ⟨place, tree, built, rfl⟩ := composed
  cases built with
  | atom _ value => exact .selfEvaluating value
  | name _ symbol => exact .name ⟨symbol, rfl⟩
  | application _ function arguments =>
    exact .application rfl rfl ⟨_, _, function, rfl⟩ (.of_list arguments _)
  | constantDeclaration symbol allowed value =>
    exact .constantDeclaration allowed ⟨⟨_, rfl, symbol, rfl⟩, _, rfl, _, _, value, rfl⟩
  | variableDeclaration symbol allowed value =>
    exact .variableDeclaration allowed ⟨⟨_, rfl, symbol, rfl⟩, _, rfl, _, _, value, rfl⟩
  | assignment _ symbol value => exact .assignment ⟨⟨_, rfl, symbol, rfl⟩, _, rfl, _, _, value, rfl⟩
  | conditionalExpression _ predicate consequent alternative =>
    exact .conditional rfl rfl rfl ⟨_, _, predicate, rfl⟩ ⟨_, _, consequent, rfl⟩ ⟨_, _, alternative, rfl⟩
  | conditionalStatement _ predicate consequent alternative =>
    exact .conditional rfl rfl rfl ⟨_, _, predicate, rfl⟩ ⟨_, _, consequent, rfl⟩ ⟨_, _, alternative, rfl⟩
  | functionDefinition _ parameters body =>
    exact .functionDefinition rfl rfl (.of_names parameters _) ⟨_, _, body, rfl⟩
  | sequence _ statements => exact .sequence rfl (.of_list statements _)
  | returnStatement _ value => exact .returnStatement rfl ⟨_, _, value, rfl⟩
  | block _ body => exact .block rfl ⟨_, _, body, rfl⟩
  | booleanOperation _ operator first second =>
    exact .booleanOperation rfl ⟨operator, rfl⟩ rfl rfl rfl ⟨_, _, first, rfl⟩ ⟨_, _, second, rfl⟩

end Interpreter

end ExplicitControl
