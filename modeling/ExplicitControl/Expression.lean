import ExplicitControl.ProgramHeap

namespace ExplicitControl

/-- The forms of a program, in the order in which they are tried. -/
inductive ExpressionKind where
  | selfEvaluating
  | name
  | constantDeclaration
  | variableDeclaration
  | assignment
  | conditional
  | functionDefinition
  | sequence
  | application
  | returnStatement
  | block
  | booleanOperation
  deriving DecidableEq, Repr

namespace ExpressionKind

/-- All forms, in order. -/
def all : List ExpressionKind :=
  [.selfEvaluating, .name, .constantDeclaration, .variableDeclaration, .assignment, .conditional,
    .functionDefinition, .sequence, .application, .returnStatement, .block, .booleanOperation]

/-- The tags that trees of a form start with. What evaluates to itself has
none. -/
def tags : ExpressionKind → List String
  | .selfEvaluating => []
  | .name => ["name"]
  | .constantDeclaration => ["constant_declaration"]
  | .variableDeclaration => ["variable_declaration"]
  | .assignment => ["assignment"]
  | .conditional => ["conditional_expression", "conditional_statement"]
  | .functionDefinition => ["function_definition"]
  | .sequence => ["sequence"]
  | .application => ["application"]
  | .returnStatement => ["return_statement"]
  | .block => ["block"]
  | .booleanOperation => ["boolean_operation"]

/-- The name the evaluator dispatches on. -/
def text : ExpressionKind → String
  | .selfEvaluating => "self_evaluating"
  | .name => "name"
  | .constantDeclaration => "constant_declaration"
  | .variableDeclaration => "variable_declaration"
  | .assignment => "assignment"
  | .conditional => "conditional"
  | .functionDefinition => "function_definition"
  | .sequence => "sequence"
  | .application => "application"
  | .returnStatement => "return_statement"
  | .block => "block"
  | .booleanOperation => "boolean_operation"

/-- The label of the evaluator's instructions for a form. -/
def handler : ExpressionKind → String
  | .selfEvaluating => "ev_self_eval"
  | .name => "ev_name"
  | .constantDeclaration => "ev_constant_declaration"
  | .variableDeclaration => "ev_variable_declaration"
  | .assignment => "ev_assignment"
  | .conditional => "ev_conditional"
  | .functionDefinition => "ev_function_definition"
  | .sequence => "ev_sequence"
  | .application => "ev_application"
  | .returnStatement => "ev_return"
  | .block => "ev_block"
  | .booleanOperation => "ev_boolean_operation"

/-- The form that a tag announces. -/
def ofTag? (tag : String) : Option ExpressionKind :=
  all.find? fun kind => kind.tags.contains tag

/-- The form of an expression: what is no pair of the program evaluates to
itself, and a pair is what its tag says, if anything. -/
def classify (program : ProgramHeap) : Pointer → Option ExpressionKind
  | .program address =>
    match program.head address with
    | .ok (.string tag) => ofTag? tag
    | _ => none
  | _ => some .selfEvaluating

/-- Whether a form declares a name. -/
def isDeclaration : ExpressionKind → Bool
  | .constantDeclaration => true
  | .variableDeclaration => true
  | _ => false

end ExpressionKind

end ExplicitControl
