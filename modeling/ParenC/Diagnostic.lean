/-
Findings about a program, and the ways in which compiling it fails.

Recoverable findings are collected as diagnostics.  Compiling fails at once on a fatal finding
or on a feature that the backend lacks, and at the end of a phase that left diagnostics behind.
A failure carries the diagnostics recorded so far, so that all of them are shown.
-/
import ParenC.Defect

namespace ParenC

/-- The phases that must end without diagnostics before the next one starts. -/
inductive Phase
  | parsing
  | typeChecking
deriving DecidableEq

/-- The name of the phase in messages. -/
def Phase.name : Phase → String
  | parsing => "parsing"
  | typeChecking => "type checking"

/-- A recoverable finding. -/
structure Diagnostic where
  /-- The file that is compiled. -/
  file : String
  /-- The place that the finding is about. -/
  location : Location
  /-- What was found. -/
  message : String
deriving DecidableEq

/-- The line that shows a finding of the given severity. -/
def findingLine (file : String) (loc : Location) (severity message : String) : String :=
  file ++ ":" ++ loc.text ++ ": " ++ severity ++ ": " ++ message

/-- The line that shows the diagnostic. -/
def Diagnostic.text (diagnostic : Diagnostic) : String :=
  findingLine diagnostic.file diagnostic.location "error" diagnostic.message

/-- A failure to compile a program. -/
inductive CompileError
  /-- A finding that leaves nothing to go on with. -/
  | fatal (file : String) (loc : Location) (message : String) (earlier : List Diagnostic)
  /-- A feature that the backend lacks. -/
  | notImplemented (file : String) (loc : Location) (feature : String) (earlier : List Diagnostic)
  /-- A phase ended with diagnostics. -/
  | halted (phase : Phase) (diagnostics : List Diagnostic)
deriving DecidableEq

namespace CompileError

/-- The findings shown, one line each. -/
def lines : CompileError → List String
  | fatal file loc message earlier =>
    earlier.map Diagnostic.text ++ [findingLine file loc "fatal" message]
  | notImplemented file loc feature earlier =>
    earlier.map Diagnostic.text ++ [findingLine file loc "fatal" ("not implemented: " ++ feature)]
  | halted _ diagnostics => diagnostics.map Diagnostic.text

/-- The text that reports the failure. -/
def message (error : CompileError) : String := "\n".intercalate error.lines

/-- The number of findings that the failure reports. -/
def count : CompileError → Nat
  | fatal _ _ _ earlier | notImplemented _ _ _ earlier => earlier.length + 1
  | halted _ diagnostics => diagnostics.length

end CompileError

/-- Why an action of the compiler did not succeed. -/
inductive Failure
  /-- The program cannot be compiled. -/
  | error (error : CompileError)
  /-- The compiler broke one of its own promises. -/
  | defect (defect : Defect)
deriving DecidableEq

end ParenC
