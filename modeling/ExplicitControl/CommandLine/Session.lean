import ExplicitControl.CommandLine.Arguments
import ExplicitControl.CommandLine.FileTree
import ExplicitControl.Controller.Json
import ExplicitControl.Evaluator.Basic
import ExplicitControl.Machine.Statistics
import ExplicitControl.Settings
import ExplicitControl.Tree.Source

namespace ExplicitControl.CommandLine

/-- What a session ends with: its exit code and what it wrote. -/
structure Report where
  exit : Nat
  stdout : String
  stderr : String

/-- The answer to a command line. -/
inductive Response where
  | usage
  | report (value : Report)

/-- A session that ends well. -/
def Report.success (stdout stderr : String) : Report := ⟨0, stdout, stderr⟩

/-- A session that ends with an error after some output. -/
def Report.failure (stdout message : String) : Report :=
  ⟨1, stdout, "error: " ++ message ++ "\n"⟩

/-- The text of a file, or an error that names the file. -/
def readFile (files : Files) (path : String) : Except String String :=
  (files path).mapError fun cause => "reading " ++ path ++ ": " ++ cause.message

/-- The document in a file that is to be read as something. The error names
the file. -/
def readDocument {α : Type} (files : Files) (path : String) (decode : Json → Option α) :
    Except String α := do
  let text ← readFile files path
  match (Json.parse? Json.depthLimit text).bind decode with
  | some value => return value
  | none => throw (path ++ ": <json>")

/-- The settings of a session: those of the file, overridden by flags. Flags
after the command count before those in front of it. -/
def settings (files : Files) (outer inner : Given) : Except String Settings := do
  let base ← match configFile? outer inner with
    | some path => readDocument files path Settings.ofJson?
    | none => pure {}
  return {
    heapCapacity := (inner.heapCapacity <|> outer.heapCapacity).getD base.heapCapacity
    trace := base.trace || outer.trace || inner.trace }

/-- The message when a run does not end within its instructions. -/
def unfinishedMessage (fuel : Nat) : String :=
  s!"no end within {fuel} instructions"

/-- The result of an evaluation as a document. -/
def resultJson (machine : Machine) (value : Pointer) : Json :=
  .object
    [("display", .string (machine.memory.heap.describe value)),
      ("stats", machine.statistics.toJson),
      ("value", value.toJson)]

/-- Evaluates the program in a file. -/
def evaluateFile (fuel : Nat) (files : Files) (settings : Settings) (given : Given)
    (path : String) : Except String Report := do
  let text ← readFile files path
  let tree ← (Tree.ofText text).mapError Error.message
  let machine ← (Evaluator.machine settings).mapError Error.message
  match Evaluator.run fuel machine tree with
  | (.unfinished, _) => throw (unfinishedMessage fuel)
  | (.failed cause, _) => throw cause.message
  | (.done value, machine) =>
    let output :=
      if given.json then (resultJson machine value).pretty 0
      else machine.memory.heap.describe value
    return .success (output ++ "\n") (if given.stats then machine.statistics.display else "")

/-- Adds a name at the end of a list, unless it is there. -/
def addName (names : List String) (name : String) : List String :=
  if names.contains name then names else names ++ [name]

/-- The registers among operands. -/
def operandRegisters (operands : List Operand) : List String :=
  operands.filterMap fun
    | .register name => some name
    | _ => none

/-- The registers that a controller mentions, in the order of first mention. -/
def controllerRegisters (controller : Controller) : List String :=
  (controller.instructions.flatMap fun instruction => operandRegisters instruction.operands).foldl
    addName []

/-- Reads what a register starts with, `name=value`. The value is a scalar as
a document, and whatever is no document is a text. -/
def seedOfText (text : String) : Except String (String × Pointer) :=
  match splitEquals text.toList with
  | (_, none) => .error ("expected NAME=VALUE, got " ++ quoted text)
  | (name, some value) =>
    let document := match Json.parse? Json.depthLimit value with
      | some document => document.canonical
      | none => .string value
    match Scalar.ofJson document with
    | .ok scalar => .ok (name, .scalar scalar)
    | .error cause => .error cause.message

/-- Gives registers their first values. -/
def seed (machine : Machine) : List (String × Pointer) → Except Error Machine
  | [] => .ok machine
  | (name, value) :: rest => do
    seed (← machine.setContents name (.pointer value)) rest

/-- A machine for a controller, with a register for every name in it and for
every seed, ready to run. -/
def controllerMachine (controller : Controller) (settings : Settings)
    (seeds : List (String × Pointer)) : Except Error Machine := do
  let names := (seeds.map Prod.fst).foldl addName (controllerRegisters controller)
  let machine ← Machine.make names [] controller
  seed (machine.configure settings) seeds

/-- The text of what a register holds. -/
def describeContents (machine : Machine) : Contents → String
  | .pointer value => machine.memory.heap.describe value
  | other => other.display

/-- Prints registers, one to a line, after `output`; a name without a register
ends this with an error. -/
def printRegisters (machine : Machine) (output : String) : List String → Report
  | [] => .success output ""
  | name :: rest =>
    match machine.contents name with
    | .ok contents =>
      printRegisters machine (output ++ name ++ " = " ++ describeContents machine contents ++ "\n")
        rest
    | .error cause => .failure output cause.message

/-- Runs the controller in a file and prints registers, by default all. -/
def runFile (fuel : Nat) (files : Files) (settings : Settings) (given : Given) (path : String) :
    Except String Report := do
  let controller ← readDocument files path Controller.ofJson?
  let seeds ← given.registers.mapM seedOfText
  let machine ← (controllerMachine controller settings seeds).mapError Error.message
  match machine.start fuel with
  | (.unfinished, _) => throw (unfinishedMessage fuel)
  | (.failed cause, _) => throw cause.message
  | (.done (), machine) =>
    let names := if given.prints.isEmpty then machine.registerNames else given.prints
    let report := printRegisters machine "" names
    if report.exit = 0 && given.stats then
      return { report with stderr := machine.statistics.display }
    else return report

/-- The line that names the program and its version. -/
def versionLine : String := "ecm 0.1.0\n"

/-- The line that sums up the arguments. -/
def helpLine : String :=
  "ecm [--heap-capacity N] [--trace] [--config FILE] (eval TREE [--json] [--stats] | "
    ++ "machine CONTROLLER [--reg NAME=VALUE] [--print NAME] [--stats])\n"

/-- Makes a report of an attempt. -/
def Report.ofExcept : Except String Report → Report
  | .ok report => report
  | .error message => .failure "" message

/-- Carries out a request. Settings are read before anything else. -/
def perform (fuel : Nat) (files : Files) : Request → Report
  | .help => .success helpLine ""
  | .version => .success versionLine ""
  | .eval outer inner path => .ofExcept do
    evaluateFile fuel files (← settings files outer inner) inner path
  | .machine outer inner path => .ofExcept do
    runFile fuel files (← settings files outer inner) inner path

/-- Answers a command line. -/
def respond (fuel : Nat) (files : Files) (arguments : List String) : Response :=
  match parse? arguments with
  | some request => .report (perform fuel files request)
  | none => .usage

/-- The files that a request reads. -/
def Request.paths : Request → List String
  | .help => []
  | .version => []
  | .eval outer inner path => (configFile? outer inner).toList ++ [path]
  | .machine outer inner path => (configFile? outer inner).toList ++ [path]

end ExplicitControl.CommandLine
