import ExplicitControl.Error

namespace ExplicitControl

/-- What is worth a line in the log of a machine. -/
inductive Event where
  | assembled (instructions labels : Nat)
  | installed (pairs : Nat)
  | started (instructions registers capacity : Nat)
  | executing (position : Nat) (instruction : Instruction)
  | halted (position : Nat) (instruction : Instruction) (cause : Error)
  | finished (instructions collections : Nat)
  | collected (cycle live limit capacity : Nat)
  | shortage (wanted live capacity : Nat)

namespace Event

/-- Whether the event is of interest only when following every instruction. -/
def isTrace : Event → Bool
  | .executing _ _ => true
  | _ => false

/-- A number with blanks before it, at least five characters wide. -/
def padded (n : Nat) : String :=
  String.ofList (List.replicate (5 - n.repr.length) ' ') ++ n.repr

/-- The wording of an event. -/
def message : Event → String
  | .assembled instructions labels =>
    s!"assembled {instructions} instructions, {labels} labels"
  | .installed pairs => s!"installed program: {pairs} program pairs"
  | .started instructions registers capacity =>
    s!"start: {instructions} instructions, {registers} registers, heap capacity {capacity}"
  | .executing position instruction => padded position ++ " " ++ instruction.display
  | .halted position instruction cause =>
    s!"halted at #{position} " ++ instruction.display ++ ": " ++ cause.message
  | .finished instructions collections =>
    s!"done: {instructions} instructions, {collections} collections"
  | .collected cycle live limit capacity =>
    s!"gc cycle {cycle}: {live} of {limit} pairs live (capacity {capacity})"
  | .shortage wanted live capacity =>
    s!"cannot reserve {wanted} pairs: {live} of {capacity} still live"

end Event

end ExplicitControl
