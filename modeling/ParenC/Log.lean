/-
What the compiler tells about its work.

Every noteworthy step is an event.  An event has a level, a target (the part of the compiler
that speaks) and a text; which of them are shown is decided later, by whoever runs the compiler.
-/
import ParenC.Diagnostic
import ParenC.Symbols
import ParenC.Text
import ParenC.Token

namespace ParenC

/-- How much an event matters, the most important first. -/
inductive Level
  | error
  | warn
  | info
  | debug
  | trace
deriving DecidableEq

/-- The name of the level, as the log shows it. -/
def Level.name : Level → String
  | error => "ERROR"
  | warn => "WARN"
  | info => "INFO"
  | debug => "DEBUG"
  | trace => "TRACE"

/-- The place of the level in the order of importance, from one on. -/
def Level.rank : Level → Nat
  | error => 1
  | warn => 2
  | info => 3
  | debug => 4
  | trace => 5

/-- A noteworthy step of the compiler. -/
inductive Event
  /-- A token was cut. -/
  | token (token : Token)
  /-- The text was cut into `count` tokens, its end included. -/
  | tokenized (file : String) (count : Nat)
  /-- A name was declared; `depth` counts the scopes around its scope. -/
  | declared (sort : SymbolSort) (name : String) (id : SymbolId) (depth : Nat)
  /-- A recoverable finding was recorded. -/
  | diagnosed (loc : Location) (message : String)
  /-- A phase ended without diagnostics. -/
  | finished (phase : Phase)
  /-- The tree was built. -/
  | parsed (items symbols types : Nat)
  /-- The code of a function was generated. -/
  | generated (name : String) (frame : Nat)
  /-- The assembly was completed. -/
  | emitted (lines labels : Nat)
  /-- The assembly was written to a file. -/
  | wrote (path : String)
deriving DecidableEq

namespace Event

/-- How much the event matters. -/
def level : Event → Level
  | token _ => .trace
  | _ => .debug

/-- The part of the compiler that speaks. -/
def target : Event → String
  | token _ => "lispcc::tokenizer"
  | tokenized .. | wrote _ => "lispcc"
  | declared .. => "lispcc::symbol"
  | diagnosed .. | finished _ => "lispcc::diagnostic"
  | parsed .. => "lispcc::parser"
  | generated .. | emitted .. => "lispcc::codegen"

/-- What the event tells. -/
def text : Event → String
  | token t =>
    "token " ++ t.kind.name ++ " '" ++ t.text ++ "' at " ++ t.location.text
  | tokenized file count => file ++ ": " ++ toString count ++ " tokens"
  | declared sort name id depth =>
    "declared " ++ sort.name ++ " '" ++ name ++ "' as " ++ id.text ++ " at depth " ++
      toString depth
  | diagnosed loc message => "diagnostic at " ++ loc.text ++ ": " ++ message
  | finished phase => phase.name ++ " finished without errors"
  | parsed items symbols types =>
    "parsed " ++ toString items ++ " top-level items, " ++ toString symbols ++ " symbols, " ++
      toString types ++ " types"
  | generated name frame =>
    "generated '" ++ name ++ "' with a " ++ toString frame ++ "-byte frame"
  | emitted lines labels =>
    "emitted " ++ toString lines ++ " lines of assembly, " ++ toString labels ++ " labels"
  | wrote path => "wrote " ++ path

/-- The line that shows the event.  If its text has several lines, the others hang below the
first. -/
def line (event : Event) : String :=
  "[" ++ event.level.name ++ " " ++ event.target ++ "] " ++ Text.hanging event.text

end Event

end ParenC
