/-
What the phases of a compilation share.

The phases work on one workspace: the two tables and the journal.  An action on it either
succeeds or fails, and a failure does not undo what the action did before: tables and journal
stay as far as they were filled.
-/
import ParenC.Journal
import ParenC.Refusal
import ParenC.Token.Lexer
import ParenC.Types

namespace ParenC

/-- The types and the symbols of a program. -/
structure Tables where
  /-- All types. -/
  types : TypeTable := .initial
  /-- All symbols. -/
  symbols : SymbolTable := .initial
deriving DecidableEq

/-- What the phases of a compilation share. -/
structure Workspace extends Tables where
  /-- The findings and the log. -/
  journal : Journal
deriving DecidableEq

/-- The workspace at the start of the compilation of a file. -/
def Workspace.initial (file : String) : Workspace := { journal := { file } }

/-- A step of the compilation. -/
abbrev CompileM := EStateM Failure Workspace

namespace CompileM

/-- Note an event. -/
def log (event : Event) : CompileM Unit :=
  modify fun ws => { ws with journal := ws.journal.log event }

/-- Note several events. -/
def logAll (events : List Event) : CompileM Unit :=
  modify fun ws => { ws with journal := ws.journal.logAll events }

/-- Record a recoverable finding. -/
def report (loc : Location) (message : String) : CompileM Unit :=
  modify fun ws => { ws with journal := ws.journal.report loc message }

/-- Fail with a fatal finding. -/
def refuse {α : Type} (loc : Location) (refusal : Refusal) : CompileM α := do
  throw (.error ((← get).journal.fatal loc refusal.message))

/-- Fail with a feature that the backend lacks. -/
def notImplemented {α : Type} (loc : Location) (feature : String) : CompileM α := do
  throw (.error ((← get).journal.notImplemented loc feature))

/-- Go on with a value that is there as long as the compiler keeps its promises. -/
def promised {α : Type} : Except Defect α → CompileM α
  | .ok a => pure a
  | .error defect => throw (.defect defect)

/-- End a phase: fail if it left diagnostics behind. -/
def endPhase (phase : Phase) : CompileM Unit := do
  let (error?, journal) := (← get).journal.endPhase phase
  modify fun ws => { ws with journal }
  if let some error := error? then throw (.error error)

/-- Cut a text into tokens, the last of which marks its end. -/
def tokenize (source : String) : CompileM (List Token) := do
  let scan := Scan.run source
  logAll (scan.tokens.map .token)
  match scan.ending with
  | .finished loc => return scan.tokens ++ [Token.eof loc]
  | .unknown loc => refuse loc .unknownText

end CompileM

end ParenC
