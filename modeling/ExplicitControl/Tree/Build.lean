import ExplicitControl.Tree.Basic

namespace ExplicitControl.Tree

/-- A list that starts with the name of its form. -/
def tagged (tag : String) (parts : List Tree) : Tree :=
  ofList (.atom (.string tag) :: parts)

/-- A name. -/
def name (symbol : String) : Tree :=
  tagged "name" [.atom (.string symbol)]

/-- A call of a function with arguments. -/
def application (function : Tree) (arguments : List Tree) : Tree :=
  tagged "application" [function, ofList arguments]

/-- An operator between two operands is a call of the operator's name. -/
def binary (operator : String) (left right : Tree) : Tree :=
  application (name operator) [left, right]

/-- An operator before one operand is a call of the operator's name. -/
def unary (operator : String) (operand : Tree) : Tree :=
  application (name operator) [operand]

/-- The declaration of a constant. -/
def constantDeclaration (symbol : String) (value : Tree) : Tree :=
  tagged "constant_declaration" [name symbol, value]

/-- The declaration of a variable. -/
def variableDeclaration (symbol : String) (value : Tree) : Tree :=
  tagged "variable_declaration" [name symbol, value]

/-- An assignment to a declared name. -/
def assignment (symbol : String) (value : Tree) : Tree :=
  tagged "assignment" [name symbol, value]

/-- A choice between two expressions. -/
def conditionalExpression (predicate consequent alternative : Tree) : Tree :=
  tagged "conditional_expression" [predicate, consequent, alternative]

/-- A choice between two statements. -/
def conditionalStatement (predicate consequent alternative : Tree) : Tree :=
  tagged "conditional_statement" [predicate, consequent, alternative]

/-- A function of named parameters. -/
def functionDefinition (parameters : List String) (body : Tree) : Tree :=
  tagged "function_definition" [ofList (parameters.map name), body]

/-- A named function is a constant that holds the function. -/
def functionDeclaration (symbol : String) (parameters : List String) (body : Tree) : Tree :=
  constantDeclaration symbol (functionDefinition parameters body)

/-- Statements one after the other. -/
def sequence (statements : List Tree) : Tree :=
  tagged "sequence" [ofList statements]

/-- The return from a function. -/
def returnStatement (value : Tree) : Tree :=
  tagged "return_statement" [value]

/-- A body with a scope of its own. -/
def block (body : Tree) : Tree :=
  tagged "block" [body]

/-- An operation that may leave its second operand alone. -/
def booleanOperation (operator : String) (first second : Tree) : Tree :=
  tagged "boolean_operation" [name operator, ofList [first, second]]

end ExplicitControl.Tree
