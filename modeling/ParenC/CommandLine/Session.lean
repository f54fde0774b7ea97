/-
Runs of the program.

A run reads the source file, compiles it and writes the assembly.  Warnings about the log filter,
the log, the tree and the message of a failure go to the error output, in the order in which they
arise.  The output file is only touched after everything else has succeeded.

What a run asks of the system around it is left open: `Host` lists it, and a run can be made in
every monad that offers it.  The program itself uses the one of the operating system, and `World`
is one that can be reasoned about.
-/
import ParenC.CommandLine.Arguments
import ParenC.Compilation
import ParenC.Tree.Outline

namespace ParenC.CommandLine

/-- How a run ends. -/
inductive ExitCode
  /-- Nothing went wrong. -/
  | success
  /-- A file cannot be read, compiled or written. -/
  | failure
  /-- The arguments are not understood. -/
  | usage
  /-- The run broke off. -/
  | broken
deriving DecidableEq

/-- The number that stands for the way in which a run ends. -/
def ExitCode.number : ExitCode → Nat
  | success => 0
  | failure => 1
  | usage => 2
  | broken => 101

/-- What a run asks of the system around it. -/
structure Host (m : Type → Type) where
  /-- Read the text of a file, or tell why it cannot be read. -/
  read (path : String) : m (Except String String)
  /-- Write a text to a file, or tell why that has not come to an end. -/
  write (path text : String) : m (Except String Unit)
  /-- Write a line to the output. -/
  print (line : String) : m Unit
  /-- Write a line to the error output, and tell whether it was taken. -/
  tell (line : String) : m Bool

/-- What the log shows. -/
structure Logger where
  /-- Warnings about the settings of the log, which come first. -/
  warnings : List String := []
  /-- The lines that show an event. -/
  lines : Event → List String

/-! ## Texts -/

/-- The line that shows the version. -/
def versionLine : String := "lispcc 0.1.0"

/-- The lines that show how to use the program. -/
def helpLines : List String :=
  ["Ahead-of-time compiler from a parenthesized, statically typed C-like language " ++
      "to x86-64 GAS assembly", "",
    "Usage: lispcc [OPTIONS] <INPUT>", "",
    "Arguments:", "  <INPUT>  Source file to compile", "",
    "Options:", "  -o, --output <OUTPUT>  Where to write the assembly [default: out.s]",
    "  -v, --verbose          Enable debug logging",
    "      --dump-ast         Print the checked syntax tree to stderr",
    "  -h, --help             Print help", "  -V, --version          Print version"]

/-- The line that reports arguments that are not understood. -/
def usageLine : String := "usage: lispcc [OPTIONS] <INPUT>"

/-- The line that reports a source file that cannot be read. -/
def readFaultLine (path cause : String) : String := "cannot read " ++ path ++ ": " ++ cause

/-- The line that reports an output file that cannot be written. -/
def writeFaultLine (path cause : String) : String := "cannot write " ++ path ++ ": " ++ cause

/-- The text that reports a failure. -/
def failureText : Failure → String
  | .error error => error.message
  | .defect defect => defect.headline

/-- How a run ends after a failure. -/
def failureCode : Failure → ExitCode
  | .error _ => .failure
  | .defect _ => .broken

/-! ## Runs -/

namespace Host

variable {m : Type → Type} [Monad m] (host : Host m)

/-- Write lines to the error output.  Lines that are not taken are lost. -/
def log : List String → m Unit
  | [] => return
  | line :: rest => do
    let _ ← host.tell line
    log rest

/-- Show events in the log. -/
def logEvents (logger : Logger) (events : List Event) : m Unit :=
  host.log (events.flatMap logger.lines)

/-- Write lines to the error output and go on.  The run breaks off where a line is not taken. -/
def insist (next : m ExitCode) : List String → m ExitCode
  | [] => next
  | line :: rest => do
    if ← host.tell line then insist next rest else return .broken

/-- End the run with a message. -/
def fail (code : ExitCode) (message : String) : m ExitCode :=
  host.insist (return code) [message]

/-- Write lines to the output. -/
def printAll : List String → m Unit
  | [] => return
  | line :: rest => do
    host.print line
    printAll rest

/-- Write the assembly to the output file. -/
def deliver (options : Options) (logger : Logger) (text : String) : m ExitCode := do
  match ← host.write options.output text with
  | .error cause => host.fail .failure (writeFaultLine options.output cause)
  | .ok () =>
    host.logEvents logger [.wrote options.output]
    return .success

/-- Generate the code of a program and write it. -/
def generate (options : Options) (logger : Logger) (program : Program) (ws : Workspace) :
    m ExitCode := do
  let known := ws.journal.events.size
  match Lowering.generate program ws with
  | .error failure ws =>
    host.logEvents logger (ws.journal.events.toList.drop known)
    host.fail (failureCode failure) (failureText failure)
  | .ok assembly ws =>
    host.logEvents logger (ws.journal.events.toList.drop known)
    host.deliver options logger assembly.text

/-- Compile the text of the source file. -/
def compileText (options : Options) (logger : Logger) (source : String) : m ExitCode := do
  match analyze source (.initial options.input) with
  | .error failure ws =>
    host.logEvents logger ws.journal.events.toList
    host.fail (failureCode failure) (failureText failure)
  | .ok program ws =>
    host.logEvents logger ws.journal.events.toList
    host.insist (host.generate options logger program ws) <|
      if options.dumpTree then [String.intercalate "\n" program.outline.lines] else []

/-- Compile a file. -/
def compileFile (options : Options) (logger : Logger) : m ExitCode := do
  match ← host.read options.input with
  | .error cause => host.fail .failure (readFaultLine options.input cause)
  | .ok source => host.compileText options logger source

/-- Run the program.  What the log shows depends on whether it shall show more. -/
def run (arguments : List String) (logger : Bool → Logger) : m ExitCode := do
  match Request.ofArguments arguments with
  | .error _ =>
    host.log [usageLine]
    return .usage
  | .ok .version =>
    host.print versionLine
    return .success
  | .ok .help =>
    host.printAll helpLines
    return .success
  | .ok (.compile options) =>
    let logger := logger options.verbose
    host.insist (host.compileFile options logger) logger.warnings

end Host

end ParenC.CommandLine
