/-
The program itself: a run in the operating system.
-/
import ParenC.CommandLine.FileSystem
import ParenC.CommandLine.LogFilter

namespace ParenC.CommandLine

/-- The text that reports a fault of the operating system. -/
def systemFault : IO.Error → String
  | .noFileOrDirectory .. => FileFault.notFound.message
  | .inappropriateType _ _ "not a directory" => FileFault.notDirectory.message
  | .inappropriateType .. => FileFault.isDirectory.message
  | .invalidArgument _ 36 _ => FileFault.nameTooLong.message
  | .resourceExhausted _ 28 _ => FileFault.noSpace.message
  | error => toString error

/-- The operating system. -/
def ioHost : Host IO where
  read path := do
    try
      match String.fromUTF8? (← IO.FS.readBinFile path) with
      | some text => return .ok text
      | none => return .error FileFault.invalidText.message
    catch error => return .error (systemFault error)
  write path text := do
    try
      IO.FS.writeFile path text
      return .ok ()
    catch error => return .error (systemFault error)
  print line := do
    try IO.println line catch _ => return
  tell line := do
    try
      IO.eprintln line
      return true
    catch _ => return false

end ParenC.CommandLine

open ParenC.CommandLine in
/-- Run the program. -/
def main (arguments : List String) : IO UInt32 := do
  let logger := Logger.ofSpec (← IO.getEnv "RUST_LOG")
  return (← ioHost.run arguments logger).number.toUInt32
