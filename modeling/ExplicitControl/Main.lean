import ExplicitControl.CommandLine.Session

namespace ExplicitControl.CommandLine

/-- More instructions than any run can carry out. -/
def instructionBudget : Nat := 1 <<< 62

/-- The number of a failure, which may come with its sign reversed. -/
def failureNumber (code : UInt32) : Nat :=
  min code.toNat ((1 <<< 32) - code.toNat)

/-- The reason behind a failed attempt to read. -/
def reasonOf (cause : IO.Error) : ReadError :=
  match cause with
  | .noFileOrDirectory .. => .notFound
  | .inappropriateType _ code _ | .invalidArgument _ code _ | .resourceExhausted _ code _ =>
    match failureNumber code with
    | 20 => .notDirectory
    | 21 => .isDirectory
    | 36 => .nameTooLong
    | _ => .other (toString cause)
  | _ => .other (toString cause)

/-- Reads a file, or says why it cannot be read. -/
def readPath (path : String) : IO (Except ReadError String) := do
  try
    return .ok (← IO.FS.readFile path)
  catch cause =>
    return .error (reasonOf cause)

/-- Reads the files that the arguments name, before anything is run. -/
def readPaths (arguments : List String) : IO (List (String × Except ReadError String)) :=
  match parse? arguments with
  | some request => request.paths.mapM fun path => return (path, ← readPath path)
  | none => return []

end ExplicitControl.CommandLine

open ExplicitControl.CommandLine in
/-- Reads the files named on the command line, then answers it. -/
def main (arguments : List String) : IO UInt32 := do
  let read ← readPaths arguments
  let files : Files := fun path => (read.lookup path).getD (.error .notFound)
  match respond instructionBudget files arguments with
  | .usage =>
    (← IO.getStderr).putStr helpLine
    return 2
  | .report report =>
    (← IO.getStdout).putStr report.stdout
    (← IO.getStderr).putStr report.stderr
    return report.exit.toUInt32
