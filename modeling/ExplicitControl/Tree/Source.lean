import ExplicitControl.Error
import ExplicitControl.Json.Reader
import ExplicitControl.Tree.Json

namespace ExplicitControl

/-- The scalar a document stands for. -/
def Scalar.ofJson (document : Json) : Except Error Scalar :=
  match Scalar.ofJson? document with
  | some value => .ok value
  | none => .error (.value (.invalid document))

namespace Tree

/-- The tree a document stands for. -/
def ofDocument (document : Json) : Except Error Tree :=
  (ofJson document).mapError fun part => .value (.invalid part)

/-- The tree a text stands for. -/
def ofText (text : String) : Except Error Tree :=
  match Json.parse? Json.depthLimit text with
  | some document => ofDocument document.canonical
  | none => .error (.value .unreadable)

end Tree

end ExplicitControl
