namespace ExplicitControl.CommandLine

/-- What may stand before an argument value. -/
inductive Flag where
  | verbose
  | heapCapacity
  | trace
  | config
  | json
  | stats
  | register
  | print
  | help
  | version
  deriving DecidableEq, Repr

/-- The commands, and what stands before any of them. -/
inductive Level where
  | top
  | eval
  | machine
  deriving DecidableEq, Repr

namespace Flag

/-- The flags that each level knows. -/
def known : Level → List Flag
  | .top => [.verbose, .heapCapacity, .trace, .config, .help, .version]
  | .eval => [.verbose, .heapCapacity, .trace, .config, .help, .json, .stats]
  | .machine => [.verbose, .heapCapacity, .trace, .config, .help, .register, .print, .stats]

/-- The spelling of a flag after two hyphens. -/
def name : Flag → String
  | .verbose => "verbose"
  | .heapCapacity => "heap-capacity"
  | .trace => "trace"
  | .config => "config"
  | .json => "json"
  | .stats => "stats"
  | .register => "reg"
  | .print => "print"
  | .help => "help"
  | .version => "version"

/-- The letter of a flag after one hyphen. -/
def letter? : Flag → Option Char
  | .verbose => some 'v'
  | .help => some 'h'
  | .version => some 'V'
  | _ => none

/-- Whether a flag is followed by a value. -/
def takesValue : Flag → Bool
  | .heapCapacity => true
  | .config => true
  | .register => true
  | .print => true
  | _ => false

end Flag

/-- What the arguments of one level say so far. -/
structure Given where
  verbose : Nat := 0
  heapCapacity : Option Nat := none
  trace : Bool := false
  config : Option String := none
  json : Bool := false
  stats : Bool := false
  registers : List String := []
  prints : List String := []
  file : Option String := none

/-- What is asked for. -/
inductive Request where
  | help
  | version
  | eval (settings given : Given) (file : String)
  | machine (settings given : Given) (file : String)

/-- A whole number of 64 bits, with an optional plus sign. -/
def capacity? (text : String) : Option Nat :=
  let digits := match text.toList with
    | '+' :: rest => rest
    | other => other
  if digits.isEmpty || !digits.all Char.isDigit then none
  else
    let size := digits.foldl (fun n c => n * 10 + (c.toNat - '0'.toNat)) 0
    if size < 1 <<< 64 then some size else none

namespace Given

/-- Takes a flag without a value. Only `verbose` may be repeated. -/
def set (given : Given) : Flag → Option Given
  | .verbose => some { given with verbose := given.verbose + 1 }
  | .trace => if given.trace then none else some { given with trace := true }
  | .json => if given.json then none else some { given with json := true }
  | .stats => if given.stats then none else some { given with stats := true }
  | _ => none

/-- Takes a flag with its value. Registers and prints may be repeated; a file
name is never empty. -/
def setValue (given : Given) (value : String) : Flag → Option Given
  | .heapCapacity =>
    if given.heapCapacity.isSome then none
    else (capacity? value).map fun size => { given with heapCapacity := some size }
  | .config =>
    if given.config.isSome || value.isEmpty then none
    else some { given with config := some value }
  | .register => some { given with registers := given.registers ++ [value] }
  | .print => some { given with prints := given.prints ++ [value] }
  | _ => none

/-- Takes the file of a command, of which there is one. -/
def setFile (given : Given) (value : String) : Option Given :=
  if given.file.isSome || value.isEmpty then none else some { given with file := some value }

end Given

/-- An argument by its look: the end of flags, a flag with or without a value
attached, letters, or a plain value. A single hyphen is a plain value. -/
inductive Token where
  | endOfFlags
  | long (name : String) (attached : Option String)
  | letters (cluster : List Char)
  | plain (value : String)

/-- Splits at the first equals sign. -/
def splitEquals (text : List Char) : String × Option String :=
  match text.dropWhile (· ≠ '=') with
  | _ :: value => (String.ofList (text.takeWhile (· ≠ '=')), some (String.ofList value))
  | [] => (String.ofList text, none)

/-- How an argument looks. -/
def Token.ofArgument (argument : String) : Token :=
  match argument.toList with
  | ['-', '-'] => .endOfFlags
  | '-' :: '-' :: rest =>
    let (name, attached) := splitEquals rest
    .long name attached
  | ['-'] => .plain argument
  | '-' :: rest => .letters rest
  | _ => .plain argument

/-- What a flag without a value leads to: an early answer, or more to read. -/
inductive Reaction where
  | answer (request : Request)
  | go (given : Given)

/-- Reacts to a flag without a value. -/
def react (given : Given) : Flag → Option Reaction
  | .help => some (.answer .help)
  | .version => some (.answer .version)
  | flag => (given.set flag).map .go

/-- Reads a cluster of letters from left to right. -/
def readLetters (level : Level) (given : Given) : List Char → Option Reaction
  | [] => some (.go given)
  | letter :: rest =>
    match (Flag.known level).find? fun flag => flag.letter? = some letter with
    | none => none
    | some flag =>
      match react given flag with
      | none => none
      | some (.answer request) => some (.answer request)
      | some (.go given) => readLetters level given rest

/-- The value after a flag, which must not look like a flag itself. -/
def valueAfter : List String → Option (String × List String)
  | [] => none
  | argument :: rest =>
    match Token.ofArgument argument with
    | .plain value => some (value, rest)
    | _ => none

/-- What arguments come to: an early answer, or what they say and those left
over from the first plain value on. -/
inductive Reading where
  | answer (request : Request)
  | stop (given : Given) (rest : List String)

/-- Reads flags up to the first plain value or the end of flags; `none` if an
argument is not understood. Each flag takes one or two arguments, so as many
steps as there are arguments suffice. -/
def readFlags (level : Level) (given : Given) : (fuel : Nat) → List String → Option Reading
  | 0, arguments => some (.stop given arguments)
  | _, [] => some (.stop given [])
  | fuel + 1, argument :: rest =>
    match Token.ofArgument argument with
    | .plain _ => some (.stop given (argument :: rest))
    | .endOfFlags => some (.stop given (argument :: rest))
    | .letters cluster =>
      match readLetters level given cluster with
      | none => none
      | some (.answer request) => some (.answer request)
      | some (.go given) => readFlags level given fuel rest
    | .long name attached =>
      match (Flag.known level).find? fun flag => flag.name = name with
      | none => none
      | some flag =>
        if flag.takesValue then
          match attached with
          | some value =>
            match given.setValue value flag with
            | none => none
            | some given => readFlags level given fuel rest
          | none =>
            match valueAfter rest with
            | none => none
            | some (value, rest) =>
              match given.setValue value flag with
              | none => none
              | some given => readFlags level given fuel rest
        else if attached.isSome then none
        else
          match react given flag with
          | none => none
          | some (.answer request) => some (.answer request)
          | some (.go given) => readFlags level given fuel rest

/-- Takes files that stand behind the end of flags. -/
def readFiles (given : Given) : List String → Option Given
  | [] => some given
  | value :: rest =>
    match given.setFile value with
    | none => none
    | some given => readFiles given rest

/-- Reads the arguments of a command: flags, files between them, and after two
hyphens only files. -/
def readCommand (level : Level) (given : Given) :
    (fuel : Nat) → List String → Option (Request ⊕ Given)
  | 0, _ => none
  | fuel + 1, arguments =>
    match readFlags level given (arguments.length + 1) arguments with
    | none => none
    | some (.answer request) => some (.inl request)
    | some (.stop given []) => some (.inr given)
    | some (.stop given ("--" :: rest)) => (readFiles given rest).map .inr
    | some (.stop given (value :: rest)) =>
      match given.setFile value with
      | none => none
      | some given => readCommand level given fuel rest

/-- Reads the arguments of a command and makes the request of them. -/
def commandRequest (level : Level) (settings : Given) (arguments : List String)
    (make : Given → Given → String → Request) : Option Request :=
  match readCommand level {} (arguments.length + 1) arguments with
  | none => none
  | some (.inl request) => some request
  | some (.inr given) => given.file.map (make settings given)

/-- Whether help can be given: in general, or on one of the commands, which
have no commands of their own. -/
def isTopic : List String → Bool
  | [] => true
  | [command] => ["eval", "machine", "help"].contains command
  | _ => false

/-- Reads all arguments; `none` if they are not understood. -/
def parse? (arguments : List String) : Option Request :=
  match readFlags .top {} (arguments.length + 1) arguments with
  | none => none
  | some (.answer request) => some request
  | some (.stop settings ("eval" :: rest)) => commandRequest .eval settings rest .eval
  | some (.stop settings ("machine" :: rest)) => commandRequest .machine settings rest .machine
  | some (.stop _ ("help" :: topics)) => if isTopic topics then some .help else none
  | some (.stop _ _) => none

/-- The settings file, which may be named before or after the command. -/
def configFile? (settings given : Given) : Option String :=
  given.config <|> settings.config

end ExplicitControl.CommandLine
