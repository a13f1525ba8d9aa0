namespace ExplicitControl.CommandLine

/-- Why a file cannot be read. -/
inductive ReadError where
  | notFound
  | notDirectory
  | isDirectory
  | nameTooLong
  | other (reason : String)

/-- How a reason is reported. -/
def ReadError.message : ReadError → String
  | .notFound => "No such file or directory (os error 2)"
  | .notDirectory => "Not a directory (os error 20)"
  | .isDirectory => "Is a directory (os error 21)"
  | .nameTooLong => "File name too long (os error 36)"
  | .other reason => reason

/-- How files are read: by path to the text, or why not. -/
abbrev Files := String → Except ReadError String

/-- Files, and directories with an entry for each name. -/
inductive FileTree where
  | file (text : String)
  | directory (entries : List (String × FileTree))

/-- A place in a tree of files, with the directories above it, the nearest
one first. -/
structure Place where
  here : FileTree
  above : List FileTree

namespace Place

/-- The longest name of a file, in bytes. -/
def nameLimit : Nat := 255

/-- The length, in bytes, from which on a path is refused. -/
def pathLimit : Nat := 4096

/-- Follows one name of a path. Only directories lead on; no name and a single
dot stay, two dots go up, and above the topmost directory is itself. -/
def follow (place : Place) (name : String) : Except ReadError Place :=
  match place.here with
  | .file _ => .error .notDirectory
  | .directory entries =>
    if name = "" ∨ name = "." then .ok place
    else if name = ".." then
      match place.above with
      | [] => .ok place
      | parent :: rest => .ok ⟨parent, rest⟩
    else if nameLimit < name.utf8ByteSize then .error .nameTooLong
    else
      match entries.lookup name with
      | some found => .ok ⟨found, place.here :: place.above⟩
      | none => .error .notFound

/-- The topmost directory. -/
def top (place : Place) : Place :=
  ⟨place.above.getLastD place.here, []⟩

/-- The text of the file that a path leads to. A path that begins with a slash
starts at the topmost directory, any other at the place itself. -/
def read (place : Place) : Files := fun path => do
  if path.isEmpty then throw .notFound
  if pathLimit ≤ path.utf8ByteSize then throw .nameTooLong
  let start := if path.front = '/' then place.top else place
  match (← (path.splitOn "/").foldlM follow start).here with
  | .file text => return text
  | .directory _ => throw .isDirectory

end Place

end ExplicitControl.CommandLine
