namespace ExplicitControl

/-- Operations on scalars, which never see a heap. -/
inductive Primitive where
  | add
  | subtract
  | multiply
  | divide
  | remainder
  | equal
  | less
  | greater
  | atMost
  | atLeast
  | not
  deriving DecidableEq, Repr

/-- The kinds of pointer that can be tested for. -/
inductive PointerKind where
  | number
  | string
  | boolean
  | undefined
  | null
  | pair
  | program
  deriving DecidableEq, Repr

/-- The parts of a program form that stand at a fixed position. -/
inductive Selector where
  | nameSymbol
  | declarationValue
  | conditionalPredicate
  | conditionalConsequent
  | conditionalAlternative
  | functionParameters
  | functionBody
  | sequenceStatements
  | functionExpression
  | argumentExpressions
  | returnExpression
  | blockBody
  deriving DecidableEq, Repr

/-- The tags of run-time structures. -/
inductive Tag where
  | primitive
  | compound
  | returnValue
  deriving DecidableEq, Repr

/-- Operations that do nothing but report a mistake in the program. -/
inductive Signal where
  | unboundName
  | useBeforeDeclaration
  | assignToConstant
  | unknownExpression
  | unknownFunction
  | nonBooleanPredicate
  deriving DecidableEq, Repr

/-- Operations that take pointers as they are and may use the heaps. -/
inductive HeapOperation where
  | identical
  | different
  | isKind (kind : PointerKind)
  | pair
  | head
  | tail
  | setHead
  | setTail
  | programHead
  | programTail
  | programRoot
  | clearStack
  | expressionKind
  | select (part : Selector)
  | declarationSymbol
  | booleanFirst
  | booleanSecond
  | shortCircuitValue
  | globalEnvironment
  | extendBlock
  | extendCall
  | makeCompound
  | adjoinArgument
  | applyPrimitive
  | isTagged (tag : Tag)
  | compoundBody
  | makeReturn
  | returnContent
  | signal (cause : Signal)
  deriving DecidableEq, Repr

/-- An operation of the machine, by the way it takes its operands: one of the
standard operations or of those of the evaluator. A table may hold them under
any names. Operations that a host writes itself are not among them. -/
inductive Operation where
  | primitive (operation : Primitive)
  | addressAware (operation : HeapOperation)
  deriving DecidableEq, Repr

/-- How an operation is called, in words. -/
def Operation.convention : Operation → String
  | .primitive _ => "<primitive>"
  | .addressAware _ => "<address-aware>"

/-- The name of a type test. -/
def PointerKind.testName : PointerKind → String
  | .number => "is_number"
  | .string => "is_string"
  | .boolean => "is_boolean"
  | .undefined => "is_undefined"
  | .null => "is_null"
  | .pair => "is_pair"
  | .program => "is_program_pair"

namespace Selector

/-- The name of a selector. -/
def name : Selector → String
  | .nameSymbol => "name_symbol"
  | .declarationValue => "declaration_value"
  | .conditionalPredicate => "conditional_predicate"
  | .conditionalConsequent => "conditional_consequent"
  | .conditionalAlternative => "conditional_alternative"
  | .functionParameters => "function_definition_parameters"
  | .functionBody => "function_definition_body"
  | .sequenceStatements => "sequence_statements"
  | .functionExpression => "function_expression"
  | .argumentExpressions => "arg_expressions"
  | .returnExpression => "return_expression"
  | .blockBody => "block_body"

/-- The position selected, the tag of the form being at position zero. -/
def index : Selector → Nat
  | .nameSymbol => 1
  | .declarationValue => 2
  | .conditionalPredicate => 1
  | .conditionalConsequent => 2
  | .conditionalAlternative => 3
  | .functionParameters => 1
  | .functionBody => 2
  | .sequenceStatements => 1
  | .functionExpression => 1
  | .argumentExpressions => 2
  | .returnExpression => 1
  | .blockBody => 1

end Selector

namespace Tag

/-- The text at the head of a tagged structure. -/
def text : Tag → String
  | .primitive => "primitive"
  | .compound => "compound"
  | .returnValue => "return_value"

/-- The name of the test for a tag. -/
def testName : Tag → String
  | .primitive => "is_primitive_function"
  | .compound => "is_compound_function"
  | .returnValue => "is_return_value"

end Tag

/-- The name of an operation that reports a mistake. -/
def Signal.name : Signal → String
  | .unboundName => "signal_unbound_name"
  | .useBeforeDeclaration => "signal_use_before_declaration"
  | .assignToConstant => "signal_assign_to_constant"
  | .unknownExpression => "signal_unknown_expression_type"
  | .unknownFunction => "signal_unknown_function_type"
  | .nonBooleanPredicate => "signal_non_boolean_predicate"

namespace HeapOperation

/-- The name an operation goes by, whatever name it was found under. -/
def name : HeapOperation → String
  | .identical => "==="
  | .different => "!=="
  | .isKind kind => kind.testName
  | .pair => "pair"
  | .head => "head"
  | .tail => "tail"
  | .setHead => "set_head"
  | .setTail => "set_tail"
  | .programHead => "program_head"
  | .programTail => "program_tail"
  | .programRoot => "program_root"
  | .clearStack => "initialize_stack"
  | .expressionKind => "expression_kind"
  | .select part => part.name
  | .declarationSymbol => "declaration_symbol"
  | .booleanFirst => "boolean_first"
  | .booleanSecond => "boolean_second"
  | .shortCircuitValue => "boolean_short_circuit_value"
  | .globalEnvironment => "make_global_environment"
  | .extendBlock => "extend_block_environment"
  | .extendCall => "extend_environment"
  | .makeCompound => "make_compound_function"
  | .adjoinArgument => "adjoin_arg"
  | .applyPrimitive => "apply_primitive_function"
  | .isTagged tag => tag.testName
  | .compoundBody => "function_body"
  | .makeReturn => "make_return_value"
  | .returnContent => "return_value_content"
  | .signal cause => cause.name

/-- How many operands an operation takes. -/
def arity : HeapOperation → Nat
  | .globalEnvironment | .programRoot | .clearStack => 0
  | .identical | .different | .pair | .setHead | .setTail => 2
  | .extendBlock | .extendCall | .adjoinArgument | .applyPrimitive => 2
  | .makeCompound => 3
  | _ => 1

end HeapOperation

/-- Operations by name. The first entry for a name counts. -/
abbrev OperationTable := List (String × Operation)

namespace OperationTable

/-- The operation a name stands for. -/
def find? (table : OperationTable) (name : String) : Option Operation :=
  table.lookup name

/-- Adds operations one after the other, each taking the place of what its
name stood for before. -/
def install (table : OperationTable) (operations : List (String × Operation)) : OperationTable :=
  operations.foldl (fun table entry => entry :: table) table

/-- Operations on scalars with the names they are known by. -/
def primitives : OperationTable :=
  [("+", .primitive .add), ("-", .primitive .subtract), ("*", .primitive .multiply),
    ("/", .primitive .divide), ("%", .primitive .remainder), ("rem", .primitive .remainder),
    ("=", .primitive .equal), ("<", .primitive .less), (">", .primitive .greater),
    ("<=", .primitive .atMost), (">=", .primitive .atLeast), ("!", .primitive .not)]

/-- Heap operations under their own names. -/
def named (operations : List HeapOperation) : OperationTable :=
  operations.map fun operation => (operation.name, .addressAware operation)

/-- The operations every machine starts with: primitives, tests of pointers,
and access to the heaps and the stack. -/
def standard : OperationTable :=
  primitives ++ named
    [.identical, .different, .isKind .number, .isKind .string, .isKind .boolean,
      .isKind .undefined, .isKind .null, .isKind .pair, .isKind .program, .pair, .head, .tail,
      .setHead, .setTail, .programHead, .programTail, .programRoot, .clearStack]

/-- The operations the evaluator needs besides. -/
def evaluator : OperationTable :=
  named
    [.expressionKind, .select .nameSymbol, .declarationSymbol, .select .declarationValue,
      .select .conditionalPredicate, .select .conditionalConsequent,
      .select .conditionalAlternative, .select .functionParameters, .select .functionBody,
      .select .sequenceStatements, .select .functionExpression, .select .argumentExpressions,
      .select .returnExpression, .select .blockBody, .booleanFirst, .booleanSecond,
      .shortCircuitValue, .globalEnvironment, .extendBlock, .extendCall, .makeCompound,
      .adjoinArgument, .applyPrimitive, .isTagged .primitive, .isTagged .compound,
      .isTagged .returnValue, .compoundBody, .makeReturn, .returnContent, .signal .unboundName,
      .signal .useBeforeDeclaration, .signal .assignToConstant, .signal .unknownExpression,
      .signal .unknownFunction, .signal .nonBooleanPredicate]

end OperationTable

end ExplicitControl
