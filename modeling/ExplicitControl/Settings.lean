import ExplicitControl.Machine.Basic

namespace ExplicitControl.Settings

/-- A capacity is a whole number of 64 bits. -/
def capacityOfJson? : Json → Option Nat
  | .integer n => if 0 ≤ n ∧ n.toNat < 1 <<< 64 then some n.toNat else none
  | _ => none

/-- Whether every instruction is logged. -/
def traceOfJson? : Json → Option Bool
  | .bool b => some b
  | _ => none

/-- Reads one field after the other. Each may be given once. -/
def ofFields (seenCapacity seenTrace : Bool) (settings : Settings) :
    List (String × Json) → Option Settings
  | [] => some settings
  | ("heap_capacity", value) :: rest =>
    if seenCapacity then none
    else do
      let heapCapacity ← capacityOfJson? value
      ofFields true seenTrace { settings with heapCapacity } rest
  | ("trace", value) :: rest =>
    if seenTrace then none
    else do
      let trace ← traceOfJson? value
      ofFields seenCapacity true { settings with trace } rest
  | _ :: _ => none

/-- Settings are an object with no other fields, or an array of the two in
order, of which the last may be left out. -/
def ofJson? : Json → Option Settings
  | .object fields => ofFields false false {} fields
  | .array [] => some {}
  | .array [capacity] => do
    let heapCapacity ← capacityOfJson? capacity
    return { heapCapacity }
  | .array [capacity, trace] => do
    let heapCapacity ← capacityOfJson? capacity
    let trace ← traceOfJson? trace
    return { heapCapacity, trace }
  | _ => none

/-- Writes settings as a document. -/
def toJson (settings : Settings) : Json :=
  .object [("heap_capacity", .integer settings.heapCapacity), ("trace", .bool settings.trace)]

end ExplicitControl.Settings
