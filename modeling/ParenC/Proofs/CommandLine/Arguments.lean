/-
What a command line says, piece by piece.

Reading the arguments mixes two things: finding out what each of them says, and keeping the
settings, which may refuse what is said.  Here the first is done on its own.  A command line is a
list of pieces, and reading it takes them one after the other.

So it can be said that two command lines differ in nothing but some flags: they have the same
pieces once these flags are left out.  Then they ask for the same, up to the flags, as long as none
of them is refused.
-/
import Mathlib.Tactic.Common
import ParenC.CommandLine.Arguments

namespace ParenC.CommandLine

/-- One thing that a command line says. -/
inductive Piece
  /-- The source file. -/
  | input (name : String)
  /-- Where the assembly goes. -/
  | output (name : String)
  /-- An option without a value. -/
  | flag (switch : Switch)
  /-- Something that cannot be understood. -/
  | fault (fault : UsageFault)
deriving DecidableEq

namespace Piece

/-- The flag only says what else is shown on the error output. -/
def isDisplay : Piece → Bool
  | flag .verbose | flag .dumpTree => true
  | _ => false

/-- What the letters after a single dash say, and how the next argument is to be taken. -/
def ofLetters : List Char → List Piece × Mode
  | [] => ([], .any)
  | letter :: rest =>
    match Switch.ofShort? letter with
    | none => ([fault .unknownOption], .any)
    | some .output =>
      match rest with
      | [] => ([], .value)
      | '=' :: name => ([output (String.ofList name)], .any)
      | name => ([output (String.ofList name)], .any)
    | some switch => ((flag switch :: (ofLetters rest).1), (ofLetters rest).2)

/-- What follows two dashes says, and how the next argument is to be taken. -/
def ofLong (text : List Char) : List Piece × Mode :=
  let name := String.ofList (text.takeWhile (· != '='))
  let value? := match text.dropWhile (· != '=') with
    | [] => none
    | _ :: value => some (String.ofList value)
  match Switch.ofLong? name, value? with
  | none, _ => ([fault .unknownOption], .any)
  | some .output, none => ([], .value)
  | some .output, some value => ([output value], .any)
  | some _, some _ => ([fault .unneededValue], .any)
  | some switch, none => ([flag switch], .any)

/-- What an argument says, and how the next one is to be taken. -/
def ofArgument (mode : Mode) (argument : String) : List Piece × Mode :=
  match mode with
  | .files => ([input argument], .files)
  | .value =>
    if isOption argument then ([fault .missingValue], .any) else ([output argument], .any)
  | .any =>
    match argument.toList with
    | ['-', '-'] => ([], .files)
    | '-' :: '-' :: text => ofLong text
    | '-' :: letter :: letters => ofLetters (letter :: letters)
    | _ => ([input argument], .any)

/-- What arguments say. -/
def ofArguments (mode : Mode) : List String → List Piece
  | [] => if mode = .value then [fault .missingValue] else []
  | argument :: rest =>
    (ofArgument mode argument).1 ++ ofArguments (ofArgument mode argument).2 rest

end Piece

/-- Take a piece of a command line. -/
def Settings.take (settings : Settings) : Piece → Except Verdict Settings
  | .input name => settings.addInput name
  | .output name => settings.addOutput name
  | .flag switch => settings.addFlag switch
  | .fault fault => .error (.fault fault)

/-- Take pieces of a command line, one after the other. -/
def Settings.takeAll (settings : Settings) (pieces : List Piece) : Except Verdict Settings :=
  pieces.foldlM Settings.take settings

/-- Take what was said, and go on as it asks for. -/
def Settings.hear (settings : Settings) (said : List Piece × Mode) :
    Except Verdict (Settings × Mode) := do
  return (← settings.takeAll said.1, said.2)

section

variable {settings : Settings}

@[simp] lemma Settings.hear_nil (mode : Mode) : settings.hear ([], mode) = .ok (settings, mode) :=
  rfl

@[simp] lemma Settings.hear_singleton (piece : Piece) (mode : Mode) :
    settings.hear ([piece], mode) = (do return (← settings.take piece, mode)) := by
  simp [hear, takeAll]

/-- The settings without the flags. -/
def Settings.quiet (settings : Settings) : Settings :=
  { settings with verbose := false, dumpTree := false }

/-- The request without the flags. -/
def Request.quiet : Request → Request
  | compile options => compile { options with verbose := false, dumpTree := false }
  | request => request

/-- What is left of the pieces without the flags. -/
def Piece.quiet (pieces : List Piece) : List Piece := pieces.filter fun piece => !piece.isDisplay

end

/-- Two command lines differ in flags alone: they say the same apart from whether the log shows more
and whether the tree is shown. -/
def Alike (arguments arguments' : List String) : Prop :=
  Piece.quiet (Piece.ofArguments .any arguments) =
    Piece.quiet (Piece.ofArguments .any arguments')

instance (arguments arguments' : List String) : Decidable (Alike arguments arguments') :=
  inferInstanceAs (Decidable (_ = _))

end ParenC.CommandLine
