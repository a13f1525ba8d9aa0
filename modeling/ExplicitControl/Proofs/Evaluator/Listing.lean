import ExplicitControl.Evaluator.Controller
import ExplicitControl.Machine.Assembler

namespace ExplicitControl.Evaluator

namespace Listing

abbrev exp : Nat := 0
abbrev env : Nat := 1
abbrev val : Nat := 2
abbrev cont : Nat := 3
abbrev fn : Nat := 4
abbrev argl : Nat := 5
abbrev unev : Nat := 6
abbrev a : Nat := 7
abbrev b : Nat := 8
abbrev c : Nat := 9
abbrev d : Nat := 10
abbrev e : Nat := 11
abbrev res : Nat := 12

end Listing

open Listing

/-- An operation applied to registers, or to whatever else. -/
abbrev use (operation : HeapOperation) (inputs : List Input) : Application :=
  ⟨operation.name, .addressAware operation, inputs⟩

/-- Puts the result of an operation on registers into a register. -/
abbrev put (target : Nat) (operation : HeapOperation) (inputs : List Nat) : Code :=
  .assign target (.application (use operation (inputs.map .register)))

/-- Sets the flag by an operation on registers. -/
abbrev ask (operation : HeapOperation) (inputs : List Nat) : Code :=
  .test (use operation (inputs.map .register))

/-- Sets the flag by whether a register holds a constant. -/
abbrev askIs (register : Nat) (value : Scalar) : Code :=
  .test (use .identical [.register register, .constant (.scalar value)])

/-- Applies an operation on registers for its effect. -/
abbrev act (operation : HeapOperation) (inputs : List Nat) : Code :=
  .perform (use operation (inputs.map .register))

/-- The labels of the evaluator, and its beginning, in order. -/
inductive Label where
  | entrance
  | evalDispatch
  | findBinding
  | scan
  | nextFrame
  | found
  | selfEval
  | name
  | nameFound
  | functionDefinition
  | block
  | return
  | returnWrap
  | constantDeclaration
  | variableDeclaration
  | declaration
  | declarationBind
  | declarationFound
  | assignment
  | assignmentBind
  | assignmentFound
  | conditional
  | conditionalDecide
  | conditionalChoose
  | conditionalConsequent
  | booleanOperation
  | booleanDecide
  | booleanCheck
  | booleanShortCircuit
  | sequence
  | sequenceLoop
  | sequenceNext
  | sequenceLast
  | sequenceReturn
  | sequenceEmpty
  | application
  | didFunction
  | argumentLoop
  | accumulate
  | lastArgument
  | accumulateLast
  | applyDispatch
  | primitiveApply
  | compoundApply
  | compoundReturn
  | compoundReturnValue
  | topLevelDone
  | topLevelReturn
  | unboundName
  | useBeforeDeclaration
  | assignToConstant
  | nonBooleanPredicate
  | unknownExpression
  | unknownFunction
  | done

namespace Label

/-- Where a label stands. -/
def position : Label → Nat
  | .entrance => 0
  | .evalDispatch => 5
  | .findBinding => 31
  | .scan => 36
  | .nextFrame => 44
  | .found => 46
  | .selfEval => 48
  | .name => 50
  | .nameFound => 54
  | .functionDefinition => 59
  | .block => 63
  | .return => 66
  | .returnWrap => 70
  | .constantDeclaration => 73
  | .variableDeclaration => 75
  | .declaration => 76
  | .declarationBind => 83
  | .declarationFound => 91
  | .assignment => 95
  | .assignmentBind => 101
  | .assignmentFound => 108
  | .conditional => 115
  | .conditionalDecide => 121
  | .conditionalChoose => 127
  | .conditionalConsequent => 131
  | .booleanOperation => 133
  | .booleanDecide => 139
  | .booleanCheck => 145
  | .booleanShortCircuit => 150
  | .sequence => 151
  | .sequenceLoop => 155
  | .sequenceNext => 163
  | .sequenceLast => 169
  | .sequenceReturn => 171
  | .sequenceEmpty => 173
  | .application => 175
  | .didFunction => 182
  | .argumentLoop => 189
  | .accumulate => 198
  | .lastArgument => 204
  | .accumulateLast => 206
  | .applyDispatch => 209
  | .primitiveApply => 214
  | .compoundApply => 217
  | .compoundReturn => 221
  | .compoundReturnValue => 226
  | .topLevelDone => 229
  | .topLevelReturn => 232
  | .unboundName => 234
  | .useBeforeDeclaration => 235
  | .assignToConstant => 236
  | .nonBooleanPredicate => 237
  | .unknownExpression => 238
  | .unknownFunction => 239
  | .done => 241

/-- The handler of a form. -/
def handler : ExpressionKind → Label
  | .selfEvaluating => .selfEval
  | .name => .name
  | .constantDeclaration => .constantDeclaration
  | .variableDeclaration => .variableDeclaration
  | .assignment => .assignment
  | .conditional => .conditional
  | .functionDefinition => .functionDefinition
  | .sequence => .sequence
  | .application => .application
  | .returnStatement => .return
  | .block => .block
  | .booleanOperation => .booleanOperation

/-- The tests by which forms are told apart. -/
def tests (kinds : List ExpressionKind) : List Code :=
  kinds.flatMap fun kind => [askIs e (.string kind.text), .branch (handler kind).position]

/-- The instructions from a label to the next one. -/
def code : Label → List Code
  | .entrance =>
    [act .clearStack [], put exp .programRoot [], put env .globalEnvironment [],
      put env .extendBlock [exp, env], .assign cont (.label topLevelDone.position)]
  | .evalDispatch =>
    put e .expressionKind [exp] :: tests ExpressionKind.all ++ [.goto unknownExpression.position]
  | .findBinding =>
    [ask (.isKind .null) [b], .branch unboundName.position, put c .head [b], put res .tail [c],
      put c .head [c]]
  | .scan =>
    [ask (.isKind .null) [c], .branch nextFrame.position, put e .head [c], ask .identical [e, a],
      .branch found.position, put c .tail [c], put res .tail [res], .goto scan.position]
  | .nextFrame => [put b .tail [b], .goto findBinding.position]
  | .found => [put res .head [res], .gotoRegister d]
  | .selfEval => [.assign val (.register exp), .gotoRegister cont]
  | .name =>
    [put a (.select .nameSymbol) [exp], .assign b (.register env),
      .assign d (.label nameFound.position), .goto findBinding.position]
  | .nameFound =>
    [put e .tail [res], ask (.isKind .null) [e], .branch useBeforeDeclaration.position,
      put val .head [res], .gotoRegister cont]
  | .functionDefinition =>
    [put unev (.select .functionParameters) [exp], put exp (.select .functionBody) [exp],
      put val .makeCompound [unev, exp, env], .gotoRegister cont]
  | .block =>
    [put exp (.select .blockBody) [exp], put env .extendBlock [exp, env],
      .goto evalDispatch.position]
  | .return =>
    [.save cont, put exp (.select .returnExpression) [exp],
      .assign cont (.label returnWrap.position), .goto evalDispatch.position]
  | .returnWrap => [.restore cont, put val .makeReturn [val], .gotoRegister cont]
  | .constantDeclaration =>
    [.assign unev (.constant (.bool false)), .goto declaration.position]
  | .variableDeclaration => [.assign unev (.constant (.bool true))]
  | .declaration =>
    [.save exp, .save env, .save unev, .save cont, put exp (.select .declarationValue) [exp],
      .assign cont (.label declarationBind.position), .goto evalDispatch.position]
  | .declarationBind =>
    [.restore cont, .restore unev, .restore env, .restore exp, put a .declarationSymbol [exp],
      .assign b (.register env), .assign d (.label declarationFound.position),
      .goto findBinding.position]
  | .declarationFound =>
    [act .setHead [res, val], act .setTail [res, unev], .assign val (.constant .undefined),
      .gotoRegister cont]
  | .assignment =>
    [.save exp, .save env, .save cont, put exp (.select .declarationValue) [exp],
      .assign cont (.label assignmentBind.position), .goto evalDispatch.position]
  | .assignmentBind =>
    [.restore cont, .restore env, .restore exp, put a .declarationSymbol [exp],
      .assign b (.register env), .assign d (.label assignmentFound.position),
      .goto findBinding.position]
  | .assignmentFound =>
    [put e .tail [res], ask (.isKind .null) [e], .branch useBeforeDeclaration.position,
      askIs e (.bool false), .branch assignToConstant.position, act .setHead [res, val],
      .gotoRegister cont]
  | .conditional =>
    [.save exp, .save env, .save cont, .assign cont (.label conditionalDecide.position),
      put exp (.select .conditionalPredicate) [exp], .goto evalDispatch.position]
  | .conditionalDecide =>
    [.restore cont, .restore env, .restore exp, ask (.isKind .boolean) [val],
      .branch conditionalChoose.position, .goto nonBooleanPredicate.position]
  | .conditionalChoose =>
    [askIs val (.bool true), .branch conditionalConsequent.position,
      put exp (.select .conditionalAlternative) [exp], .goto evalDispatch.position]
  | .conditionalConsequent =>
    [put exp (.select .conditionalConsequent) [exp], .goto evalDispatch.position]
  | .booleanOperation =>
    [.save exp, .save env, .save cont, .assign cont (.label booleanDecide.position),
      put exp .booleanFirst [exp], .goto evalDispatch.position]
  | .booleanDecide =>
    [.restore cont, .restore env, .restore exp, ask (.isKind .boolean) [val],
      .branch booleanCheck.position, .goto nonBooleanPredicate.position]
  | .booleanCheck =>
    [put a .shortCircuitValue [exp], ask .identical [val, a], .branch booleanShortCircuit.position,
      put exp .booleanSecond [exp], .goto evalDispatch.position]
  | .booleanShortCircuit => [.gotoRegister cont]
  | .sequence =>
    [put unev (.select .sequenceStatements) [exp], ask (.isKind .null) [unev],
      .branch sequenceEmpty.position, .save cont]
  | .sequenceLoop =>
    [put exp .programHead [unev], put a .programTail [unev], ask (.isKind .null) [a],
      .branch sequenceLast.position, .save unev, .save env,
      .assign cont (.label sequenceNext.position), .goto evalDispatch.position]
  | .sequenceNext =>
    [.restore env, .restore unev, ask (.isTagged .returnValue) [val],
      .branch sequenceReturn.position, put unev .programTail [unev], .goto sequenceLoop.position]
  | .sequenceLast => [.restore cont, .goto evalDispatch.position]
  | .sequenceReturn => [.restore cont, .gotoRegister cont]
  | .sequenceEmpty => [.assign val (.constant .undefined), .gotoRegister cont]
  | .application =>
    [.save cont, .save env, put unev (.select .argumentExpressions) [exp], .save unev,
      put exp (.select .functionExpression) [exp], .assign cont (.label didFunction.position),
      .goto evalDispatch.position]
  | .didFunction =>
    [.restore unev, .restore env, .assign argl (.constant .null), .assign fn (.register val),
      ask (.isKind .null) [unev], .branch applyDispatch.position, .save fn]
  | .argumentLoop =>
    [.save argl, put exp .programHead [unev], put a .programTail [unev], ask (.isKind .null) [a],
      .branch lastArgument.position, .save env, .save unev,
      .assign cont (.label accumulate.position), .goto evalDispatch.position]
  | .accumulate =>
    [.restore unev, .restore env, .restore argl, put argl .adjoinArgument [val, argl],
      put unev .programTail [unev], .goto argumentLoop.position]
  | .lastArgument =>
    [.assign cont (.label accumulateLast.position), .goto evalDispatch.position]
  | .accumulateLast => [.restore argl, put argl .adjoinArgument [val, argl], .restore fn]
  | .applyDispatch =>
    [ask (.isTagged .primitive) [fn], .branch primitiveApply.position,
      ask (.isTagged .compound) [fn], .branch compoundApply.position,
      .goto unknownFunction.position]
  | .primitiveApply => [put val .applyPrimitive [fn, argl], .restore cont, .gotoRegister cont]
  | .compoundApply =>
    [put env .extendCall [fn, argl], put exp .compoundBody [fn],
      .assign cont (.label compoundReturn.position), .goto evalDispatch.position]
  | .compoundReturn =>
    [ask (.isTagged .returnValue) [val], .branch compoundReturnValue.position,
      .assign val (.constant .undefined), .restore cont, .gotoRegister cont]
  | .compoundReturnValue => [put val .returnContent [val], .restore cont, .gotoRegister cont]
  | .topLevelDone =>
    [ask (.isTagged .returnValue) [val], .branch topLevelReturn.position, .goto done.position]
  | .topLevelReturn => [put val .returnContent [val], .goto done.position]
  | .unboundName => [act (.signal .unboundName) [a]]
  | .useBeforeDeclaration => [act (.signal .useBeforeDeclaration) [a]]
  | .assignToConstant => [act (.signal .assignToConstant) [a]]
  | .nonBooleanPredicate => [act (.signal .nonBooleanPredicate) [val]]
  | .unknownExpression => [act (.signal .unknownExpression) [exp]]
  | .unknownFunction => [act (.signal .unknownFunction) [fn], .goto done.position]
  | .done => []

/-- All labels, in order. -/
def all : List Label :=
  [.entrance, .evalDispatch, .findBinding, .scan, .nextFrame, .found, .selfEval, .name, .nameFound,
    .functionDefinition, .block, .return, .returnWrap, .constantDeclaration, .variableDeclaration,
    .declaration, .declarationBind, .declarationFound, .assignment, .assignmentBind,
    .assignmentFound, .conditional, .conditionalDecide, .conditionalChoose, .conditionalConsequent,
    .booleanOperation, .booleanDecide, .booleanCheck, .booleanShortCircuit, .sequence,
    .sequenceLoop, .sequenceNext, .sequenceLast, .sequenceReturn, .sequenceEmpty, .application,
    .didFunction, .argumentLoop, .accumulate, .lastArgument, .accumulateLast, .applyDispatch,
    .primitiveApply, .compoundApply, .compoundReturn, .compoundReturnValue, .topLevelDone,
    .topLevelReturn, .unboundName, .useBeforeDeclaration, .assignToConstant, .nonBooleanPredicate,
    .unknownExpression, .unknownFunction, .done]

end Label

/-- The instructions of the whole evaluator. Every statement on runs of the
evaluator is about this list, by way of the positions of its labels. -/
def listing : List Code :=
  Label.all.flatMap Label.code

/-- The operations of the evaluator's machine. -/
def table : OperationTable :=
  OperationTable.standard.install OperationTable.evaluator

/-- The instructions of the whole evaluator, each with the text it is assembled
from. -/
def boundListing : List BoundInstruction :=
  (controller.instructions.zip listing).map fun (text, code) => ⟨text, code⟩

set_option maxRecDepth 100000 in
theorem boundListing_code : boundListing.map BoundInstruction.code = listing := by
  rfl

set_option maxRecDepth 100000 in
/-- The controller assembles to the listing, each instruction with the text
that it was assembled from, so what is shown of the listing holds of the
machine that is made. -/
theorem assemble_eq_listing : controller.assemble registers table = .ok ⟨boundListing.toArray, 54⟩ := by
  rfl

end ExplicitControl.Evaluator
