/-
A world around the program.

It has files and the two streams of the program.  The streams are not files, whatever they are
connected to.  Of what is written to the error output, some may not be taken: which of it, is a
matter of the world.
-/
import ParenC.CommandLine.FileSystem
import ParenC.CommandLine.Session

namespace ParenC.CommandLine

/-- The bytes of a line. -/
def lineBytes (line : String) : ByteArray := (line ++ "\n").toUTF8

/-- Files and streams. -/
structure World where
  /-- The files. -/
  files : FileSystem
  /-- What was written to the output, the earliest first. -/
  output : List ByteArray := []
  /-- What was written to the error output and taken, the earliest first. -/
  errors : List ByteArray := []
  /-- How often something was to be written to the error output. -/
  attempts : Nat := 0
  /-- Which of it is taken. -/
  takes : Nat → Bool := fun _ => true

namespace World

/-- Write something to the error output. -/
def report (world : World) (content : ByteArray) : Bool × World :=
  if world.takes world.attempts then
    (true, { world with
      errors := world.errors ++ [content]
      attempts := world.attempts + 1 })
  else (false, { world with attempts := world.attempts + 1 })

/-- Carry out what becomes of something that is written. -/
def carry (world : World) (writing : Writing) : Except FileFault Unit × World :=
  let result := writing.fault?.elim (.ok ()) .error
  match writing.outlet with
  | .file _ | .nowhere => (result, { world with files := writing.after })
  | .output => (result, { world with output := world.output ++ [writing.taken] })
  | .errorOutput =>
    let (taken, world) := world.report writing.taken
    (if taken then result else .error .brokenPipe, world)

/-- What the world does for a run. -/
def host : Host (StateM World) where
  read path := do return ((← get).files.read path).mapError FileFault.message
  write path text := modifyGet fun world =>
    match world.files.write path text.toUTF8 with
    | .error fault => (.error fault.message, world)
    | .ok writing => (world.carry writing).map (·.mapError FileFault.message) id
  print line := modify fun world => { world with output := world.output ++ [lineBytes line] }
  tell line := modifyGet fun world => world.report (lineBytes line)

/-- Run the program. -/
def run (world : World) (arguments : List String) (logger : Bool → Logger) :
    ExitCode × World :=
  (host.run arguments logger).run world

end World

end ParenC.CommandLine
