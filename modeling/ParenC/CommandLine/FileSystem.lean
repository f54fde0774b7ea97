/-
Files.

A file system holds directories, files, links and devices, known by the names on the way to them
from the root.  A path is followed part by part, from the root if it starts with a slash and from
the working directory otherwise; every part but the last has to lead to a directory, and a link
leads on to where it points.

What is written to a file replaces what was there.  The file is emptied, or made, before the first
byte is stored, so that a fault on the way leaves a part of the new content behind.
-/
import ParenC.Text

namespace ParenC.CommandLine

/-- Why a file cannot be read or written. -/
inductive FileFault
  /-- A part of the path is missing. -/
  | notFound
  /-- The path names a directory. -/
  | isDirectory
  /-- A part of the path is a file, and something below it is asked for. -/
  | notDirectory
  /-- The path or a part of it is too long. -/
  | nameTooLong
  /-- There are too many links on the way. -/
  | tooManyLinks
  /-- Nothing more can be stored there. -/
  | noSpace
  /-- Nobody takes what is written there. -/
  | brokenPipe
  /-- There is more to read than fits in memory. -/
  | outOfMemory
  /-- The file is not a text. -/
  | invalidText
  /-- Anything else, as the system tells it. -/
  | other (text : String)
deriving DecidableEq

/-- The text that reports the fault. -/
def FileFault.message : FileFault → String
  | notFound => "No such file or directory (os error 2)"
  | isDirectory => "Is a directory (os error 21)"
  | notDirectory => "Not a directory (os error 20)"
  | nameTooLong => "File name too long (os error 36)"
  | tooManyLinks => "Too many levels of symbolic links (os error 40)"
  | noSpace => "No space left on device (os error 28)"
  | brokenPipe => "Broken pipe (os error 32)"
  | outOfMemory => "out of memory"
  | invalidText => "stream did not contain valid UTF-8"
  | other text => text

/-- The names on the way to an entry from the root. -/
abbrev Trail := List String

/-- What a trail leads to. -/
inductive Entry
  /-- A directory; what is in it has trails of its own. -/
  | directory
  /-- A file with the given bytes. -/
  | file (content : ByteArray)
  /-- Another name for what the names lead to, from the root.  Of the names of a file that has
  several, all but one are such entries. -/
  | link (target : Trail)
  /-- A device that is empty; what is written to it is lost. -/
  | sink
  /-- A device that has no room for anything, and no end. -/
  | full
  /-- The output of the program. -/
  | output
  /-- The error output of the program. -/
  | errorOutput

/-- What the system refuses at a trail, besides what its entry does not allow. -/
structure Limits where
  /-- Why it cannot be read. -/
  reading? : Option FileFault := none
  /-- Why it cannot be opened to be written. -/
  opening? : Option FileFault := none
  /-- How many bytes can be stored there, and what the fault is if there are more. -/
  storing? : Option (Nat × FileFault) := none

/-- Directories, files, links and devices. -/
structure FileSystem where
  /-- The entries.  The directories on the way to an entry are there with it. -/
  entries : List (Trail × Entry)
  /-- The working directory. -/
  base : Trail
  /-- Where the system refuses something. -/
  limits : List (Trail × Limits) := []

/-- The longest name of an entry, in bytes. -/
def maxNameBytes : Nat := 255

/-- The longest path, in bytes. -/
def maxPathBytes : Nat := 4095

/-- The largest number of links on a way. -/
def maxLinks : Nat := 40

/-- The parts of a path between its slashes. -/
def pathParts (path : String) : List String := (Text.pieces '/' path.toList).map String.ofList

/-- How far the parts of a path can be followed without going over a link. -/
inductive Way
  /-- To the end. -/
  | done (trail : Trail)
  /-- To a link, with some parts left. -/
  | link (target : Trail) (rest : List String)

/-- Where something goes that is written. -/
inductive Outlet
  /-- Into the file at a trail. -/
  | file (trail : Trail)
  /-- Nowhere. -/
  | nowhere
  /-- To the output of the program. -/
  | output
  /-- To the error output of the program. -/
  | errorOutput
deriving DecidableEq

/-- What becomes of something that is written. -/
structure Writing where
  /-- Where it goes. -/
  outlet : Outlet
  /-- The bytes that arrive there. -/
  taken : ByteArray
  /-- The fault after which no more of them do. -/
  fault? : Option FileFault
  /-- The files afterwards. -/
  after : FileSystem

namespace FileSystem

/-- The devices of the program itself: there is no input, and there are two outputs. -/
def streams : List (Trail × Entry) :=
  [(["dev", "stdin"], .sink), (["dev", "stdout"], .output), (["dev", "stderr"], .errorOutput)] ++
    [["dev", "fd"], ["proc", "self", "fd"]].flatMap fun trail =>
      [(trail ++ ["0"], .sink), (trail ++ ["1"], .output), (trail ++ ["2"], .errorOutput)]

/-- The file system around a working directory with the given entries, which are known by their
names on the way from there.  The directory stands among others that hold nothing of interest,
beside the devices. -/
def around (files : List (Trail × Entry)) : FileSystem where
  entries := files.map (fun (trail, entry) => (["tmp", "work"] ++ trail, entry)) ++
    [(["dev", "null"], .sink), (["dev", "full"], .full)] ++ streams ++
    ["bin", "etc", "home", "lib", "proc", "root", "sys", "usr", "var"].map
      fun name => ([name], .directory)
  base := ["tmp", "work"]

/-- What a trail leads to. -/
def find? (fs : FileSystem) (trail : Trail) : Option Entry :=
  match fs.entries.lookup trail with
  | some entry => some entry
  | none =>
    if trail.isPrefixOf fs.base || fs.entries.any (fun (other, _) => trail.isPrefixOf other) then
      some .directory
    else none

/-- What the system refuses at a trail. -/
def limitsAt (fs : FileSystem) (trail : Trail) : Limits := (fs.limits.lookup trail).getD {}

/-! ## Paths -/

/-- Follow one part of a path.  Only directories can be left, and the root has itself above it. -/
def step (fs : FileSystem) (trail : Trail) (part : String) : Except FileFault Trail :=
  match fs.find? trail with
  | none => .error .notFound
  | some .directory =>
    if part = "" || part = "." then .ok trail
    else if part = ".." then .ok trail.dropLast
    else if maxNameBytes < part.utf8ByteSize then .error .nameTooLong
    else .ok (trail ++ [part])
  | some _ => .error .notDirectory

/-- Follow the parts of a path as far as there is no link. -/
def pass (fs : FileSystem) (trail : Trail) : List String → Except FileFault Way
  | [] => .ok (.done trail)
  | part :: rest =>
    match fs.step trail part with
    | .error fault => .error fault
    | .ok next =>
      match fs.find? next with
      | some (.link target) => .ok (.link target rest)
      | _ => fs.pass next rest

/-- Follow the parts of a path, over no more than the given number of links.  What the last part
leads to may be missing. -/
def walk (fs : FileSystem) (links : Nat) (trail : Trail) (parts : List String) :
    Except FileFault Trail :=
  match fs.pass trail parts with
  | .error fault => .error fault
  | .ok (.done trail) => .ok trail
  | .ok (.link target rest) =>
    match links with
    | 0 => .error .tooManyLinks
    | links + 1 => fs.walk links [] (target ++ rest)

/-- Where a path starts. -/
def start (fs : FileSystem) (path : String) : Except FileFault Trail :=
  if maxPathBytes < path.utf8ByteSize then .error .nameTooLong
  else if path.toList.head? = some '/' then .ok []
  else .ok fs.base

/-- The trail to which a path leads. -/
def follow (fs : FileSystem) (path : String) : Except FileFault Trail := do
  fs.walk maxLinks (← fs.start path) (pathParts path)

/-! ## Reading -/

/-- The text of a file. -/
def read (fs : FileSystem) (path : String) : Except FileFault String := do
  let trail ← fs.follow path
  if let some fault := (fs.limitsAt trail).reading? then throw fault
  match fs.find? trail with
  | none => throw .notFound
  | some .directory => throw .isDirectory
  | some (.link _) => throw .tooManyLinks
  | some .sink | some .output | some .errorOutput => return ""
  | some .full => throw .outOfMemory
  | some (.file content) =>
    match String.fromUTF8? content with
    | some text => return text
    | none => throw .invalidText

/-! ## Writing -/

/-- Set the content of the file at a trail. -/
def put (fs : FileSystem) (trail : Trail) (content : ByteArray) : FileSystem :=
  { fs with entries := (trail, .file content) :: fs.entries.filter (·.1 != trail) }

/-- The trail to which a path leads that is to be written.  A path that ends in a slash or in
dots names a directory, whatever is there. -/
def target (fs : FileSystem) (path : String) : Except FileFault Trail := do
  let start ← fs.start path
  match (pathParts path).reverse.dropWhile (· == "") with
  | [] => throw .isDirectory
  | last :: before =>
    if (pathParts path).getLast? = some "" || last = "." || last = ".." then
      let _ ← fs.walk maxLinks start (before.reverse ++ [""])
      throw .isDirectory
    else fs.walk maxLinks start (pathParts path)

/-- Where something goes that is written to a trail. -/
def outlet (fs : FileSystem) (trail : Trail) : Except FileFault Outlet :=
  match (fs.limitsAt trail).opening? with
  | some fault => .error fault
  | none =>
    match fs.find? trail with
    | some .directory => .error .isDirectory
    | some (.link _) => .error .tooManyLinks
    | some .sink | some .full => .ok .nowhere
    | some .output => .ok .output
    | some .errorOutput => .ok .errorOutput
    | some (.file _) | none => .ok (.file trail)

/-- How many bytes can be stored at a trail, and the fault if there are more. -/
def room? (fs : FileSystem) (trail : Trail) : Option (Nat × FileFault) :=
  match fs.find? trail with
  | some .full => some (0, .noSpace)
  | _ => (fs.limitsAt trail).storing?

/-- Write some bytes to a path, at which there need not be a file before. -/
def write (fs : FileSystem) (path : String) (content : ByteArray) : Except FileFault Writing := do
  let trail ← fs.target path
  let outlet ← fs.outlet trail
  let (taken, fault?) := match fs.room? trail with
    | some (room, fault) =>
      if room < content.size then (content.extract 0 room, some fault) else (content, none)
    | none => (content, none)
  let after := match outlet with
    | .file trail => fs.put trail taken
    | .nowhere | .output | .errorOutput => fs
  return { outlet, taken, fault?, after }

end FileSystem

end ParenC.CommandLine
