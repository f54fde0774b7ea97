/-
The arguments of the command line.

Arguments are read from left to right, and the first one that decides the outcome wins: a
request for the version or for help, or a fault.  Whether a source file was named is only asked
at the end.
-/

namespace ParenC.CommandLine

/-- What to compile, and how. -/
structure Options where
  /-- The source file. -/
  input : String
  /-- Where the assembly goes. -/
  output : String
  /-- Whether the log shows more. -/
  verbose : Bool
  /-- Whether the tree is shown. -/
  dumpTree : Bool
deriving DecidableEq

/-- What the arguments ask for. -/
inductive Request
  /-- Compile a file. -/
  | compile (options : Options)
  /-- Show the version. -/
  | version
  /-- Show how to use the program. -/
  | help
deriving DecidableEq

/-- An option of the command line. -/
inductive Switch
  /-- Where the assembly goes; a value follows. -/
  | output
  /-- Show more in the log. -/
  | verbose
  /-- Show the tree. -/
  | dumpTree
  /-- Show the version. -/
  | version
  /-- Show how to use the program. -/
  | help
deriving DecidableEq

/-- The option with the given long name. -/
def Switch.ofLong? (name : String) : Option Switch :=
  [("output", output), ("verbose", verbose), ("dump-ast", dumpTree), ("version", version),
    ("help", help)].lookup name

/-- The option with the given letter. -/
def Switch.ofShort? : Char → Option Switch
  | 'o' => some output
  | 'v' => some verbose
  | 'V' => some version
  | 'h' => some help
  | _ => none

/-- Why arguments do not fit together. -/
inductive UsageFault
  /-- There is no such option. -/
  | unknownOption
  /-- An option is there twice. -/
  | repeatedOption
  /-- An option that needs a value has none. -/
  | missingValue
  /-- An option that takes no value has one. -/
  | unneededValue
  /-- A file name is empty. -/
  | emptyValue
  /-- There is more than one source file. -/
  | extraInput
  /-- There is no source file. -/
  | missingInput
deriving DecidableEq

/-- Why reading the arguments ends before the last of them. -/
inductive Verdict
  /-- Something else than a compilation is asked for. -/
  | request (request : Request)
  /-- The arguments do not fit together. -/
  | fault (fault : UsageFault)
deriving DecidableEq

/-- What was read so far. -/
structure Settings where
  /-- The source file. -/
  input? : Option String := none
  /-- Where the assembly goes. -/
  output? : Option String := none
  /-- Whether the log shows more. -/
  verbose : Bool := false
  /-- Whether the tree is shown. -/
  dumpTree : Bool := false
deriving DecidableEq

/-- How the arguments that follow are to be taken. -/
inductive Mode
  /-- Options and files. -/
  | any
  /-- The value of the option for the output. -/
  | value
  /-- Files only. -/
  | files
deriving DecidableEq

namespace Settings

/-- Take a file name. -/
def addInput (settings : Settings) (name : String) : Except Verdict Settings :=
  if settings.input?.isSome then .error (.fault .extraInput)
  else if name.isEmpty then .error (.fault .emptyValue)
  else .ok { settings with input? := some name }

/-- Take the value of the option for the output. -/
def addOutput (settings : Settings) (name : String) : Except Verdict Settings :=
  if settings.output?.isSome then .error (.fault .repeatedOption)
  else if name.isEmpty then .error (.fault .emptyValue)
  else .ok { settings with output? := some name }

/-- Take an option without a value. -/
def addFlag (settings : Settings) : Switch → Except Verdict Settings
  | .verbose =>
    if settings.verbose then .error (.fault .repeatedOption)
    else .ok { settings with verbose := true }
  | .dumpTree =>
    if settings.dumpTree then .error (.fault .repeatedOption)
    else .ok { settings with dumpTree := true }
  | .version => .error (.request .version)
  | .help => .error (.request .help)
  | .output => .error (.fault .missingValue)

end Settings

/-- Read the letters after a single dash.  The option for the output takes the rest of them, with
or without an equals sign, or else the argument that follows. -/
def readLetters (settings : Settings) : List Char → Except Verdict (Settings × Mode)
  | [] => .ok (settings, .any)
  | letter :: rest =>
    match Switch.ofShort? letter with
    | none => .error (.fault .unknownOption)
    | some .output =>
      match rest with
      | [] => .ok (settings, .value)
      | '=' :: name => do return (← settings.addOutput (String.ofList name), .any)
      | name => do return (← settings.addOutput (String.ofList name), .any)
    | some switch => do readLetters (← settings.addFlag switch) rest

/-- Read what follows two dashes: a long name and perhaps a value after an equals sign. -/
def readLong (settings : Settings) (text : List Char) : Except Verdict (Settings × Mode) :=
  let name := String.ofList (text.takeWhile (· != '='))
  let value? := match text.dropWhile (· != '=') with
    | [] => none
    | _ :: value => some (String.ofList value)
  match Switch.ofLong? name, value? with
  | none, _ => .error (.fault .unknownOption)
  | some .output, none => .ok (settings, .value)
  | some .output, some value => do return (← settings.addOutput value, .any)
  | some _, some _ => .error (.fault .unneededValue)
  | some switch, none => do return (← settings.addFlag switch, .any)

/-- Whether an argument can only be an option. -/
def isOption (argument : String) : Bool :=
  match argument.toList with
  | '-' :: _ :: _ => true
  | _ => false

/-- Read one argument. -/
def readArgument (settings : Settings) (mode : Mode) (argument : String) :
    Except Verdict (Settings × Mode) :=
  match mode with
  | .files => do return (← settings.addInput argument, .files)
  | .value =>
    if isOption argument then .error (.fault .missingValue)
    else do return (← settings.addOutput argument, .any)
  | .any =>
    match argument.toList with
    | ['-', '-'] => .ok (settings, .files)
    | '-' :: '-' :: text => readLong settings text
    | '-' :: letter :: letters => readLetters settings (letter :: letters)
    | _ => do return (← settings.addInput argument, .any)

/-- Read all arguments. -/
def readArguments (settings : Settings) (mode : Mode) : List String → Except Verdict Settings
  | [] => if mode = .value then .error (.fault .missingValue) else .ok settings
  | argument :: rest => do
    let (settings, mode) ← readArgument settings mode argument
    readArguments settings mode rest

/-- What the arguments ask for. -/
def Request.ofArguments (arguments : List String) : Except UsageFault Request :=
  match readArguments {} .any arguments with
  | .error (.request request) => .ok request
  | .error (.fault fault) => .error fault
  | .ok settings =>
    match settings.input? with
    | none => .error .missingInput
    | some input => .ok (.compile
        ⟨input, settings.output?.getD "out.s", settings.verbose, settings.dumpTree⟩)

end ParenC.CommandLine
