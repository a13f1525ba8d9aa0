namespace ExplicitControl

/-- A JSON document. Numbers written without fraction and power of ten that
fit in 64 bits stay whole; every other number is a double. The fields of an
object are in the order given, and a key may be repeated. -/
inductive Json where
  | null
  | bool (value : Bool)
  | integer (value : Int)
  | number (value : Float)
  | string (value : String)
  | array (items : List Json)
  | object (fields : List (String × Json))

namespace Json

/-- The value of the last field with the given key. -/
def field? (key : String) : List (String × Json) → Option Json
  | [] => none
  | (k, value) :: rest =>
    match field? key rest with
    | some later => some later
    | none => if k = key then some value else none

/-- Puts a field in its place among fields sorted by key, unless the key is
there already. -/
def insertField (key : String) (value : Json) : List (String × Json) → List (String × Json)
  | [] => [(key, value)]
  | (k, v) :: rest =>
    if key = k then (k, v) :: rest
    else if key < k then (key, value) :: (k, v) :: rest
    else (k, v) :: insertField key value rest

mutual

/-- The document with the fields of every object sorted by key, of which the
last one counts where a key is repeated. -/
def canonical : Json → Json
  | .array items => .array (canonicalItems items)
  | .object fields => .object (canonicalFields fields)
  | .null => .null
  | .bool b => .bool b
  | .integer n => .integer n
  | .number x => .number x
  | .string s => .string s

/-- Brings the items of an array into canonical form. -/
def canonicalItems : List Json → List Json
  | [] => []
  | item :: rest => canonical item :: canonicalItems rest

/-- Brings the fields of an object into canonical form. -/
def canonicalFields : List (String × Json) → List (String × Json)
  | [] => []
  | (key, value) :: rest => insertField key (canonical value) (canonicalFields rest)

end

end Json

end ExplicitControl
