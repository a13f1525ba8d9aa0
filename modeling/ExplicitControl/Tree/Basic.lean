import ExplicitControl.Scalar

namespace ExplicitControl

/-- A program in nested list form: interior nodes are pairs, leaves are
scalars. -/
inductive Tree where
  | atom (value : Scalar)
  | pair (head tail : Tree)
  deriving Inhabited

namespace Tree

/-- The proper list of the given trees, ended by null. -/
def ofList (items : List Tree) : Tree :=
  items.foldr .pair (.atom .null)

/-- The number of pairs. -/
def pairs : Tree → Nat
  | .atom _ => 0
  | .pair head tail => head.pairs + tail.pairs + 1

/-- Whether the root is a pair. -/
def isPair : Tree → Bool
  | .pair _ _ => true
  | .atom _ => false

/-- Equality of trees with scalars compared as programs compare them. -/
def same : Tree → Tree → Bool
  | .atom a, .atom b => a == b
  | .pair h t, .pair h' t' => same h h' && same t t'
  | _, _ => false

instance : BEq Tree := ⟨same⟩

/-- One step of a walk through a tree. -/
inductive Mark where
  | pair
  | atom (value : Scalar)

/-- The walk through a tree that names a pair before its head and its head
before its tail. `after` is what follows it. -/
def preorder (after : List Mark) : Tree → List Mark
  | .atom value => .atom value :: after
  | .pair head tail => .pair :: preorder (preorder after tail) head

end Tree

end ExplicitControl
