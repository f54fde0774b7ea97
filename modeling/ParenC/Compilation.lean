/-
From source text to assembly.

Reading and checking must each end without findings before the next phase starts, so that code
is generated for sound programs only.
-/
import ParenC.Lowering.Unit
import ParenC.Reading.Program
import ParenC.Typing.Check

namespace ParenC

open CompileM

/-- Read and check a program. -/
def analyze (source : String) : CompileM Program := do
  let tokens ← tokenize source
  log (.tokenized (← get).journal.file tokens.length)
  let program ← Reading.program tokens
  endPhase .parsing
  Typing.check program
  endPhase .typeChecking
  return program

/-- Compile a program. -/
def compile (source : String) : CompileM Assembly := do
  Lowering.generate (← analyze source)

/-- The assembly text for a source text; messages show the given file name. -/
def assemble (file source : String) : Except Failure String :=
  match (compile source).run (.initial file) with
  | .ok assembly _ => .ok assembly.text
  | .error failure _ => .error failure

end ParenC
