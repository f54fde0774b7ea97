/-
The record of one compilation: the diagnostics that still wait for the end of their phase, and
everything worth telling, in order.
-/
import ParenC.Log

namespace ParenC

/-- The record of one compilation. -/
structure Journal where
  /-- The name of the file that is compiled, as messages show it. -/
  file : String
  /-- The recoverable findings since the last phase ended, the oldest first. -/
  diagnostics : Array Diagnostic := #[]
  /-- The events so far, the oldest first. -/
  events : Array Event := #[]
deriving DecidableEq

namespace Journal

/-- Note an event. -/
def log (journal : Journal) (event : Event) : Journal :=
  { journal with events := journal.events.push event }

/-- Note several events. -/
def logAll (journal : Journal) (events : List Event) : Journal :=
  { journal with events := journal.events ++ events.toArray }

/-- Record a recoverable finding. -/
def report (journal : Journal) (loc : Location) (message : String) : Journal :=
  { journal.log (.diagnosed loc message) with
    diagnostics := journal.diagnostics.push ⟨journal.file, loc, message⟩ }

/-- Whether a finding waits for the end of the phase. -/
def hasFindings (journal : Journal) : Bool := !journal.diagnostics.isEmpty

/-- The failure on a fatal finding. -/
def fatal (journal : Journal) (loc : Location) (message : String) : CompileError :=
  .fatal journal.file loc message journal.diagnostics.toList

/-- The failure on a feature that the backend lacks. -/
def notImplemented (journal : Journal) (loc : Location) (feature : String) : CompileError :=
  .notImplemented journal.file loc feature journal.diagnostics.toList

/-- End a phase.  It fails if findings wait, and then hands them over to the failure. -/
def endPhase (journal : Journal) (phase : Phase) : Option CompileError × Journal :=
  if journal.hasFindings then
    (some (.halted phase journal.diagnostics.toList), { journal with diagnostics := #[] })
  else (none, journal.log (.finished phase))

end Journal

end ParenC
