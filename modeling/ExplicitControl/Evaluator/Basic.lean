import ExplicitControl.Evaluator.Controller
import ExplicitControl.Machine.Run

namespace ExplicitControl

namespace Evaluator

/-- A machine that evaluates programs, with no program yet. -/
def machine (settings : Settings) : Except Error Machine := do
  let machine ← Machine.make registers OperationTable.evaluator controller
  return machine.configure settings

/-- What a run leaves in `val`. A program that never sets it has no value. -/
def result (machine : Machine) : Except Error Pointer := do
  match ← machine.contents "val" with
  | .pointer value => return value
  | _ => return .undefined

/-- Installs a program in a machine and evaluates it. -/
def run (fuel : Nat) (machine : Machine) (tree : Tree) : Outcome Pointer × Machine :=
  match machine.installProgram tree with
  | .error cause => (.failed cause, machine)
  | .ok (_, machine) =>
    match machine.start fuel with
    | (.unfinished, machine) => (.unfinished, machine)
    | (.failed cause, machine) => (.failed cause, machine)
    | (.done (), machine) =>
      match result machine with
      | .ok value => (.done value, machine)
      | .error cause => (.failed cause, machine)

/-- Evaluates a program on a new machine. -/
def evaluate (fuel : Nat) (settings : Settings) (tree : Tree) : Outcome Pointer :=
  match machine settings with
  | .error cause => .failed cause
  | .ok machine => (run fuel machine tree).1

end Evaluator

namespace PairHeap

/-- The text of a value, pairs being followed at most `fuel` deep: function
values by their kind, other pairs by head and tail, texts in quotes. -/
def describeFuel (heap : PairHeap) : (fuel : Nat) → Pointer → String
  | _, .string s => quoted s
  | fuel + 1, .pair address =>
    match heap.head address, heap.tail address with
    | .ok head, .ok tail =>
      match head with
      | .string "primitive" => "<primitive function " ++ tail.display ++ ">"
      | .string "compound" => "<compound function>"
      | _ => "[" ++ describeFuel heap fuel head ++ ", " ++ describeFuel heap fuel tail ++ "]"
    | _, _ => (Pointer.pair address).display
  | _, other => other.display

/-- The text of a value. Where pairs do not lead back to themselves, no path
through them is longer than there are pairs. -/
def describe (heap : PairHeap) (value : Pointer) : String :=
  heap.describeFuel heap.free value

end PairHeap

end ExplicitControl
