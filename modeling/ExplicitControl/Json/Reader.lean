import ExplicitControl.Json.Basic
import ExplicitControl.Decimal.Numeral

namespace ExplicitControl.Json

/-- The four characters that may stand between tokens. -/
def isBlank (c : Char) : Bool :=
  c = ' ' || c = '\n' || c = '\t' || c = '\r'

/-- Drops blanks at the front. -/
def skipBlanks (text : List Char) : List Char :=
  text.dropWhile isBlank

/-- The value of a hexadecimal digit. -/
def hexValue? (c : Char) : Option Nat :=
  if '0' ≤ c ∧ c ≤ '9' then some (c.toNat - 48)
  else if 'a' ≤ c ∧ c ≤ 'f' then some (c.toNat - 87)
  else if 'A' ≤ c ∧ c ≤ 'F' then some (c.toNat - 55)
  else none

/-- The number that four hexadecimal digits spell. -/
def hexUnit? (a b c d : Char) : Option Nat := do
  return ((← hexValue? a) * 16 + (← hexValue? b)) * 256 + ((← hexValue? c) * 16 + (← hexValue? d))

/-- Characters escaped by a single letter. -/
def escape? (c : Char) : Option Char :=
  match c with
  | '"' => some '"'
  | '\\' => some '\\'
  | '/' => some '/'
  | 'b' => some (Char.ofNat 8)
  | 'f' => some (Char.ofNat 12)
  | 'n' => some '\n'
  | 'r' => some '\r'
  | 't' => some '\t'
  | _ => none

/-- A unit that stands for half of a character outside the basic plane. -/
def isHighHalf (unit : Nat) : Bool :=
  0xD800 ≤ unit && unit < 0xDC00

/-- The second half of such a character. -/
def isLowHalf (unit : Nat) : Bool :=
  0xDC00 ≤ unit && unit < 0xE000

/-- The rest of a string after its opening quote. `read` holds the characters
so far, last one first. Control characters must be escaped, and the two
halves of a character outside the basic plane must stand together. -/
def scanString (read : List Char) : List Char → Option (String × List Char)
  | [] => none
  | '"' :: rest => some (String.ofList read.reverse, rest)
  | '\\' :: 'u' :: a :: b :: c :: d :: rest =>
    match hexUnit? a b c d with
    | none => none
    | some unit =>
      if isLowHalf unit then none
      else if isHighHalf unit then
        match rest with
        | '\\' :: 'u' :: e :: f :: g :: h :: rest =>
          match hexUnit? e f g h with
          | none => none
          | some low =>
            if isLowHalf low then
              let code := 0x10000 + (unit - 0xD800) * 0x400 + (low - 0xDC00)
              scanString (Char.ofNat code :: read) rest
            else none
        | _ => none
      else scanString (Char.ofNat unit :: read) rest
  | '\\' :: c :: rest =>
    match escape? c with
    | some character => scanString (character :: read) rest
    | none => none
  | c :: rest => if c.toNat < 32 then none else scanString (c :: read) rest

/-- The value of a numeral, whole if it can be kept so. -/
def ofNumeral? (n : Numeral) : Option Json :=
  let size := Numeral.ofDigits n.whole
  if n.isWhole && size ≤ Numeral.wordMax then
    if !n.negative then some (.integer size)
    else if size = 0 || 1 <<< 63 < size then some (.number (-(Float.ofNat size)))
    else some (.integer (-(size : Int)))
  else n.scaled?.map .number

/-- Removes an expected word from the front. -/
def expect (word : List Char) (text : List Char) : Option (List Char) :=
  if word.isPrefixOf text then some (text.drop word.length) else none

/-- Items up to the closing bracket, at least one, separated by commas. -/
def scanItems (item : List Char → Option (Json × List Char)) :
    Nat → List Char → Option (List Json × List Char)
  | 0, _ => none
  | fuel + 1, text => do
    let (value, text) ← item text
    match skipBlanks text with
    | ',' :: text =>
      let (values, text) ← scanItems item fuel text
      return (value :: values, text)
    | ']' :: text => return ([value], text)
    | _ => none

/-- Fields up to the closing brace, at least one, separated by commas. -/
def scanFields (item : List Char → Option (Json × List Char)) :
    Nat → List Char → Option (List (String × Json) × List Char)
  | 0, _ => none
  | fuel + 1, text =>
    match skipBlanks text with
    | '"' :: text => do
      let (key, text) ← scanString [] text
      match skipBlanks text with
      | ':' :: text =>
        let (value, text) ← item text
        match skipBlanks text with
        | ',' :: text =>
          let (fields, text) ← scanFields item fuel text
          return ((key, value) :: fields, text)
        | '\x7d' :: text => return ([(key, value)], text)
        | _ => none
      | _ => none
    | _ => none

/-- A value at the front of a text. `depth` bounds how many arrays and
objects may be nested in one another. -/
def scanValue : (depth : Nat) → List Char → Option (Json × List Char)
  | depth, text =>
    match skipBlanks text with
    | 'n' :: rest => (expect ['u', 'l', 'l'] rest).map fun rest => (.null, rest)
    | 't' :: rest => (expect ['r', 'u', 'e'] rest).map fun rest => (.bool true, rest)
    | 'f' :: rest => (expect ['a', 'l', 's', 'e'] rest).map fun rest => (.bool false, rest)
    | '"' :: rest => (scanString [] rest).map fun (s, rest) => (.string s, rest)
    | '[' :: rest =>
      match depth with
      | 0 => none
      | depth + 1 =>
        match skipBlanks rest with
        | ']' :: rest => some (.array [], rest)
        | _ => (scanItems (scanValue depth) rest.length rest).map fun (items, rest) =>
          (.array items, rest)
    | '\x7b' :: rest =>
      match depth with
      | 0 => none
      | depth + 1 =>
        match skipBlanks rest with
        | '\x7d' :: rest => some (.object [], rest)
        | _ => (scanFields (scanValue depth) rest.length rest).map fun (fields, rest) =>
          (.object fields, rest)
    | text => do
      let (numeral, rest) ← Numeral.scan? text
      let value ← ofNumeral? numeral
      return (value, rest)

/-- How deep arrays and objects may be nested in a document. -/
def depthLimit : Nat := 127

/-- Reads a whole text as one value, fields as they stand. Nothing but blanks
may follow it. -/
def parse? (depth : Nat) (text : String) : Option Json :=
  match scanValue depth text.toList with
  | some (value, rest) => if (skipBlanks rest).isEmpty then some value else none
  | none => none

end ExplicitControl.Json
