/-
Which events the log shows.

A filter has a highest level for everything, and further ones for single parts of the compiler.
It may also have a pattern, which is then looked for in the texts of events.

A filter is written as a list of directives with commas between them: a level, the name of a
part, or the name of a part, an equals sign and a level.  After a slash the pattern may follow.
What makes no sense is left out, with a warning.
-/
import ParenC.CommandLine.Session
import ParenC.Pattern.Reader

namespace ParenC.CommandLine

/-- The highest rank of the levels that are shown, by name. -/
def rankOfName? (name : String) : Option Nat :=
  [("OFF", 0), ("ERROR", Level.error.rank), ("WARN", Level.warn.rank), ("INFO", Level.info.rank),
    ("DEBUG", Level.debug.rank), ("TRACE", Level.trace.rank)].lookup
    (String.ofList (name.toList.map Char.toUpper))

/-- What makes no sense in a written filter. -/
inductive FilterFault
  /-- There is more than one slash, and nothing of the filter is used. -/
  | slashes (written : String)
  /-- There is no such level. -/
  | level (text : String)
  /-- The directive has more than one equals sign. -/
  | directive (text : String)
  /-- The pattern is not accepted. -/
  | pattern (written : String) (rejection : Pattern.Rejection)
deriving DecidableEq

namespace FilterFault

/-- The text that tells the fault. -/
def message : FilterFault → String
  | slashes written => "invalid logging spec '" ++ written ++ "' (too many '/'s)"
  | level text => "invalid logging spec '" ++ text ++ "'"
  | directive text => "invalid logging spec '" ++ text ++ "'"
  | pattern written rejection => "invalid regex filter - " ++ rejection.message written

/-- The warning that the fault gives rise to. -/
def warning (fault : FilterFault) : String := "warning: " ++ fault.message ++ ", ignoring it"

end FilterFault

/-- Which events the log shows. -/
structure LogFilter where
  /-- The highest rank shown where no part is named. -/
  rank : Nat
  /-- The highest ranks of named parts; a part includes all parts whose names go on from its
  own. -/
  parts : List (String × Nat) := []
  /-- What is looked for in the texts of events. -/
  pattern? : Option Pattern := none
deriving DecidableEq

namespace LogFilter

/-- The filter without directives. -/
def standard (verbose : Bool) : LogFilter where
  rank := if verbose then Level.debug.rank else Level.warn.rank

/-- Set the rank of a part. -/
def setPart (filter : LogFilter) (name : String) (rank : Nat) : LogFilter :=
  { filter with parts := (name, rank) :: filter.parts.filter (·.1 != name) }

/-- Follow a directive that has no blanks around it. -/
def follow (filter : LogFilter) (directive : List Char) : Except FilterFault LogFilter :=
  match Text.pieces '=' directive with
  | [name] =>
    let name := String.ofList name
    match rankOfName? name with
    | some rank => .ok { filter with rank }
    | none => .ok (if name = "" then filter else filter.setPart name Level.trace.rank)
  | [name, level] =>
    let name := String.ofList name
    let level := String.ofList (Text.trim level)
    if level = "" then .ok (filter.setPart name Level.trace.rank)
    else
      match rankOfName? level with
      | some rank => .ok (filter.setPart name rank)
      | none => .error (.level level)
  | _ => .error (.directive (String.ofList directive))

/-- Follow directives in order, and collect the faults of those that are left out. -/
def followAll (filter : LogFilter) : List (List Char) → LogFilter × List FilterFault
  | [] => (filter, [])
  | directive :: rest =>
    match filter.follow directive with
    | .ok next => next.followAll rest
    | .error fault =>
      let (last, faults) := filter.followAll rest
      (last, fault :: faults)

/-- Look for a pattern. -/
def lookFor (filter : LogFilter) (written : String) : LogFilter × List FilterFault :=
  match Pattern.read written with
  | .ok pattern => ({ filter with pattern? := some pattern }, [])
  | .error rejection => (filter, [.pattern written rejection])

/-- The filter that a specification asks for, and what makes no sense in it. -/
def ofSpec (verbose : Bool) (spec? : Option String) : LogFilter × List FilterFault :=
  match spec? with
  | none => (standard verbose, [])
  | some spec =>
    let directives (text : List Char) := (Text.pieces ',' text).map Text.trim
    match Text.pieces '/' spec.toList with
    | [text] => (standard verbose).followAll (directives text)
    | [text, pattern] =>
      let (filter, faults) := (standard verbose).followAll (directives text)
      let (filter, further) := filter.lookFor (String.ofList pattern)
      (filter, faults ++ further)
    | _ => (standard verbose, [.slashes spec])

/-- The entry with the longer name. -/
def longer (held? : Option (String × Nat)) (next : String × Nat) : Option (String × Nat) :=
  match held? with
  | none => some next
  | some held => if held.1.length < next.1.length then some next else some held

/-- The entries whose names the part goes on from. -/
def entriesFor (filter : LogFilter) (part : String) : List (String × Nat) :=
  filter.parts.filter fun entry => entry.1.toList.isPrefixOf part.toList

/-- The highest rank shown for a part: that of the longest name that it goes on from. -/
def rankFor (filter : LogFilter) (part : String) : Nat :=
  (((filter.entriesFor part).foldl longer none).map (·.2)).getD filter.rank

/-- Whether an event is shown. -/
def shows (filter : LogFilter) (event : Event) : Bool :=
  event.level.rank ≤ filter.rankFor event.target && filter.pattern?.all (·.foundIn event.text)

/-- The line that shows an event, if it is shown. -/
def lines (filter : LogFilter) (event : Event) : List String :=
  if filter.shows event then [event.line] else []

end LogFilter

/-- What the log shows if the filter is specified so. -/
def Logger.ofSpec (spec? : Option String) (verbose : Bool) : Logger :=
  let (filter, faults) := LogFilter.ofSpec verbose spec?
  { warnings := faults.map FilterFault.warning, lines := filter.lines }

end ParenC.CommandLine
