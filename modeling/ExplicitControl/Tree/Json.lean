import ExplicitControl.Tree.Basic

namespace ExplicitControl.Tree

mutual

/-- Reads a tree from a document: an array is the proper list of its items,
an object with the single field `pair` that is an array of two is that pair,
and everything else is an atom. Answers the first part, from left to right,
that is none of these. -/
def ofJson : Json → Except Json Tree
  | .array items => (listOfJson items).map ofList
  | .object [("pair", .array [head, tail])] => do
    return .pair (← ofJson head) (← ofJson tail)
  | document =>
    match Scalar.ofJson? document with
    | some value => .ok (.atom value)
    | none => .error document

/-- Reads a tree from each item. -/
def listOfJson : List Json → Except Json (List Tree)
  | [] => .ok []
  | item :: rest => do
    return (← ofJson item) :: (← listOfJson rest)

end

end ExplicitControl.Tree
