import ExplicitControl.Controller.Basic
import ExplicitControl.Expression
import ExplicitControl.Operation.Basic

namespace ExplicitControl.Evaluator

open Entry

/-- The registers, in the order in which a collection visits them. `exp`,
`env`, `val`, `continue`, `fun`, `argl` and `unev` hold the expression, its
environment, its value, where to go on, the function and arguments of a call,
and what is still to be evaluated. The lookup of a name takes the name in `a`,
the environment in `b` and where to go on in `d`; it leaves the binding in
`res` and uses `c` and `e`. -/
def registers : List String :=
  ["exp", "env", "val", "continue", "fun", "argl", "unev", "a", "b", "c", "d", "e", "res"]

/-- A register as an operand. -/
def reg (name : String) : Operand := .register name

/-- An operation as an operand. -/
def op (operation : HeapOperation) : Operand := .operation operation.name

/-- A part of a form. -/
def part (selector : Selector) : Operand := op (.select selector)

/-- A text as an operand. -/
def text (s : String) : Operand := .constant (.string s)

/-- A truth value as an operand. -/
def truth (b : Bool) : Operand := .constant (.bool b)

/-- Goes on at a label. -/
def goTo (label : String) : Entry := goto (.label label)

/-- Goes on where a register says. -/
def goBack (register : String) : Entry := goto (.register register)

/-- Puts the position of a label into a register. -/
def assignLabel (register label : String) : Entry := assign register [.label label]

/-- Finds the form of the expression and goes on at its handler. -/
def dispatch : Controller :=
  [.label "eval_dispatch", assign "e" [op .expressionKind, reg "exp"]]
    ++ ExpressionKind.all.flatMap (fun kind =>
      [test [op .identical, reg "e", text kind.text], branch kind.handler])
    ++ [goTo "unknown_expression_type"]

/-- Looks a name up, frame by frame from the innermost, name by name. -/
def lookup : Controller :=
  [.label "find_binding",
    test [op (.isKind .null), reg "b"],
    branch "unbound_name",
    assign "c" [op .head, reg "b"],
    assign "res" [op .tail, reg "c"],
    assign "c" [op .head, reg "c"],
    .label "find_binding_scan",
    test [op (.isKind .null), reg "c"],
    branch "find_binding_next_frame",
    assign "e" [op .head, reg "c"],
    test [op .identical, reg "e", reg "a"],
    branch "find_binding_found",
    assign "c" [op .tail, reg "c"],
    assign "res" [op .tail, reg "res"],
    goTo "find_binding_scan",
    .label "find_binding_next_frame",
    assign "b" [op .tail, reg "b"],
    goTo "find_binding",
    .label "find_binding_found",
    assign "res" [op .head, reg "res"],
    goBack "d"]

/-- Literals, names, functions, blocks and returns. -/
def simpleForms : Controller :=
  [.label "ev_self_eval",
    assign "val" [reg "exp"],
    goBack "continue",

    .label "ev_name",
    assign "a" [part .nameSymbol, reg "exp"],
    assign "b" [reg "env"],
    assignLabel "d" "ev_name_found",
    goTo "find_binding",
    .label "ev_name_found",
    assign "e" [op .tail, reg "res"],
    test [op (.isKind .null), reg "e"],
    branch "use_before_declaration",
    assign "val" [op .head, reg "res"],
    goBack "continue",

    .label "ev_function_definition",
    assign "unev" [part .functionParameters, reg "exp"],
    assign "exp" [part .functionBody, reg "exp"],
    assign "val" [op .makeCompound, reg "unev", reg "exp", reg "env"],
    goBack "continue",

    .label "ev_block",
    assign "exp" [part .blockBody, reg "exp"],
    assign "env" [op .extendBlock, reg "exp", reg "env"],
    goTo "eval_dispatch",

    .label "ev_return",
    save "continue",
    assign "exp" [part .returnExpression, reg "exp"],
    assignLabel "continue" "ev_return_wrap",
    goTo "eval_dispatch",
    .label "ev_return_wrap",
    restore "continue",
    assign "val" [op .makeReturn, reg "val"],
    goBack "continue"]

/-- Declarations and assignments. Both kinds of declaration fill the binding
that was set up with the frame; `unev` carries its flag. -/
def bindingForms : Controller :=
  [.label "ev_constant_declaration",
    assign "unev" [truth false],
    goTo "ev_declaration",
    .label "ev_variable_declaration",
    assign "unev" [truth true],
    .label "ev_declaration",
    save "exp",
    save "env",
    save "unev",
    save "continue",
    assign "exp" [part .declarationValue, reg "exp"],
    assignLabel "continue" "ev_declaration_bind",
    goTo "eval_dispatch",
    .label "ev_declaration_bind",
    restore "continue",
    restore "unev",
    restore "env",
    restore "exp",
    assign "a" [op .declarationSymbol, reg "exp"],
    assign "b" [reg "env"],
    assignLabel "d" "ev_declaration_found",
    goTo "find_binding",
    .label "ev_declaration_found",
    perform [op .setHead, reg "res", reg "val"],
    perform [op .setTail, reg "res", reg "unev"],
    assign "val" [.constant .undefined],
    goBack "continue",

    .label "ev_assignment",
    save "exp",
    save "env",
    save "continue",
    assign "exp" [part .declarationValue, reg "exp"],
    assignLabel "continue" "ev_assignment_bind",
    goTo "eval_dispatch",
    .label "ev_assignment_bind",
    restore "continue",
    restore "env",
    restore "exp",
    assign "a" [op .declarationSymbol, reg "exp"],
    assign "b" [reg "env"],
    assignLabel "d" "ev_assignment_found",
    goTo "find_binding",
    .label "ev_assignment_found",
    assign "e" [op .tail, reg "res"],
    test [op (.isKind .null), reg "e"],
    branch "use_before_declaration",
    test [op .identical, reg "e", truth false],
    branch "assign_to_constant",
    perform [op .setHead, reg "res", reg "val"],
    goBack "continue"]

/-- Conditionals and boolean operations. The branch that is chosen and the
second operand are evaluated in place of the whole. -/
def choiceForms : Controller :=
  [.label "ev_conditional",
    save "exp",
    save "env",
    save "continue",
    assignLabel "continue" "ev_conditional_decide",
    assign "exp" [part .conditionalPredicate, reg "exp"],
    goTo "eval_dispatch",
    .label "ev_conditional_decide",
    restore "continue",
    restore "env",
    restore "exp",
    test [op (.isKind .boolean), reg "val"],
    branch "ev_conditional_choose",
    goTo "non_boolean_predicate",
    .label "ev_conditional_choose",
    test [op .identical, reg "val", truth true],
    branch "ev_conditional_consequent",
    assign "exp" [part .conditionalAlternative, reg "exp"],
    goTo "eval_dispatch",
    .label "ev_conditional_consequent",
    assign "exp" [part .conditionalConsequent, reg "exp"],
    goTo "eval_dispatch",

    .label "ev_boolean_operation",
    save "exp",
    save "env",
    save "continue",
    assignLabel "continue" "ev_boolean_decide",
    assign "exp" [op .booleanFirst, reg "exp"],
    goTo "eval_dispatch",
    .label "ev_boolean_decide",
    restore "continue",
    restore "env",
    restore "exp",
    test [op (.isKind .boolean), reg "val"],
    branch "ev_boolean_check",
    goTo "non_boolean_predicate",
    .label "ev_boolean_check",
    assign "a" [op .shortCircuitValue, reg "exp"],
    test [op .identical, reg "val", reg "a"],
    branch "ev_boolean_short_circuit",
    assign "exp" [op .booleanSecond, reg "exp"],
    goTo "eval_dispatch",
    .label "ev_boolean_short_circuit",
    goBack "continue"]

/-- Sequences. A return value ends one early and is handed on as it is; the
last statement is evaluated in place of the whole. -/
def sequences : Controller :=
  [.label "ev_sequence",
    assign "unev" [part .sequenceStatements, reg "exp"],
    test [op (.isKind .null), reg "unev"],
    branch "ev_sequence_empty",
    save "continue",
    .label "ev_sequence_loop",
    assign "exp" [op .programHead, reg "unev"],
    assign "a" [op .programTail, reg "unev"],
    test [op (.isKind .null), reg "a"],
    branch "ev_sequence_last",
    save "unev",
    save "env",
    assignLabel "continue" "ev_sequence_next",
    goTo "eval_dispatch",
    .label "ev_sequence_next",
    restore "env",
    restore "unev",
    test [op (.isTagged .returnValue), reg "val"],
    branch "ev_sequence_return",
    assign "unev" [op .programTail, reg "unev"],
    goTo "ev_sequence_loop",
    .label "ev_sequence_last",
    restore "continue",
    goTo "eval_dispatch",
    .label "ev_sequence_return",
    restore "continue",
    goBack "continue",
    .label "ev_sequence_empty",
    assign "val" [.constant .undefined],
    goBack "continue"]

/-- Calls. The function is evaluated first, then the arguments from left to
right into `argl`; `continue` stays on the stack until the call returns. -/
def applications : Controller :=
  [.label "ev_application",
    save "continue",
    save "env",
    assign "unev" [part .argumentExpressions, reg "exp"],
    save "unev",
    assign "exp" [part .functionExpression, reg "exp"],
    assignLabel "continue" "ev_appl_did_function_expression",
    goTo "eval_dispatch",
    .label "ev_appl_did_function_expression",
    restore "unev",
    restore "env",
    assign "argl" [.constant .null],
    assign "fun" [reg "val"],
    test [op (.isKind .null), reg "unev"],
    branch "apply_dispatch",
    save "fun",
    .label "ev_appl_argument_expression_loop",
    save "argl",
    assign "exp" [op .programHead, reg "unev"],
    assign "a" [op .programTail, reg "unev"],
    test [op (.isKind .null), reg "a"],
    branch "ev_appl_last_arg",
    save "env",
    save "unev",
    assignLabel "continue" "ev_appl_accumulate_arg",
    goTo "eval_dispatch",
    .label "ev_appl_accumulate_arg",
    restore "unev",
    restore "env",
    restore "argl",
    assign "argl" [op .adjoinArgument, reg "val", reg "argl"],
    assign "unev" [op .programTail, reg "unev"],
    goTo "ev_appl_argument_expression_loop",
    .label "ev_appl_last_arg",
    assignLabel "continue" "ev_appl_accum_last_arg",
    goTo "eval_dispatch",
    .label "ev_appl_accum_last_arg",
    restore "argl",
    assign "argl" [op .adjoinArgument, reg "val", reg "argl"],
    restore "fun",

    .label "apply_dispatch",
    test [op (.isTagged .primitive), reg "fun"],
    branch "primitive_apply",
    test [op (.isTagged .compound), reg "fun"],
    branch "compound_apply",
    goTo "unknown_function_type",

    .label "primitive_apply",
    assign "val" [op .applyPrimitive, reg "fun", reg "argl"],
    restore "continue",
    goBack "continue",

    .label "compound_apply",
    assign "env" [op .extendCall, reg "fun", reg "argl"],
    assign "exp" [op .compoundBody, reg "fun"],
    assignLabel "continue" "compound_return",
    goTo "eval_dispatch",
    .label "compound_return",
    test [op (.isTagged .returnValue), reg "val"],
    branch "compound_return_value",
    assign "val" [.constant .undefined],
    restore "continue",
    goBack "continue",
    .label "compound_return_value",
    assign "val" [op .returnContent, reg "val"],
    restore "continue",
    goBack "continue"]

/-- The end of a program, which may be a return at its top. -/
def topLevel : Controller :=
  [.label "top_level_done",
    test [op (.isTagged .returnValue), reg "val"],
    branch "top_level_return",
    goTo "evaluation_done",
    .label "top_level_return",
    assign "val" [op .returnContent, reg "val"],
    goTo "evaluation_done"]

/-- Mistakes. Each is reported by an operation that fails, so that none of
them runs into the next. -/
def mistakes : Controller :=
  [.label "unbound_name",
    perform [op (.signal .unboundName), reg "a"],
    .label "use_before_declaration",
    perform [op (.signal .useBeforeDeclaration), reg "a"],
    .label "assign_to_constant",
    perform [op (.signal .assignToConstant), reg "a"],
    .label "non_boolean_predicate",
    perform [op (.signal .nonBooleanPredicate), reg "val"],
    .label "unknown_expression_type",
    perform [op (.signal .unknownExpression), reg "exp"],
    .label "unknown_function_type",
    perform [op (.signal .unknownFunction), reg "fun"],
    goTo "evaluation_done"]

/-- Sets the evaluation of the installed program up. -/
def entrance : Controller :=
  [perform [op .clearStack],
    assign "exp" [op .programRoot],
    assign "env" [op .globalEnvironment],
    assign "env" [op .extendBlock, reg "exp", reg "env"],
    assignLabel "continue" "top_level_done"]

/-- The whole evaluator. -/
def controller : Controller :=
  entrance ++ dispatch ++ lookup ++ simpleForms ++ bindingForms ++ choiceForms ++ sequences
    ++ applications ++ topLevel ++ mistakes ++ [.label "evaluation_done"]

end ExplicitControl.Evaluator
