/-
Outlines: nested terms written over several lines.

A group with members opens on one line, shows each member on lines of its own, indented and
followed by a comma, and closes on a line of its own.  A group without members stays on one line.
-/

namespace ParenC

/-- A term to be shown. -/
inductive Outline
  /-- A text on one line. -/
  | leaf (text : String)
  /-- A named member of a group. -/
  | field (name : String) (value : Outline)
  /-- Members between two brackets; the opening one may have a name in front. -/
  | group (opening : String) (members : List Outline) (closing : String)

namespace Outline

/-- A group with named members. -/
def record (name : String) (members : List Outline) : Outline :=
  group (name ++ " \x7b") members "\x7d"

/-- A group with a name. -/
def tuple (name : String) (members : List Outline) : Outline := group (name ++ "(") members ")"

/-- A group without a name. -/
def sequence (members : List Outline) : Outline := group "[" members "]"

/-- A number. -/
def number (n : Nat) : Outline := leaf (toString n)

/-- A term that may be missing. -/
def optional {α : Type} (outline : α → Outline) : Option α → Outline
  | none => leaf "None"
  | some a => tuple "Some" [outline a]

/-- Put a text in front of the first line. -/
def prepend (text : String) : List String → List String
  | [] => [text]
  | line :: rest => (text ++ line) :: rest

/-- Put a text behind the last line. -/
def append (text : String) : List String → List String
  | [] => [text]
  | [line] => [line ++ text]
  | line :: rest => line :: append text rest

/-- The lines of a member of a group. -/
def memberLines (lines : List String) : List String := (append "," lines).map ("    " ++ ·)

mutual

/-- The lines that show a term. -/
def lines (outline : Outline) : List String :=
  match outline with
  | leaf text => [text]
  | field name value => prepend (name ++ ": ") value.lines
  | group opening members closing =>
    match members with
    | [] => [opening ++ closing]
    | first :: rest =>
      opening :: (memberLines first.lines ++ membersLines rest) ++ [closing]
termination_by structural outline

/-- The lines that show the members of a group. -/
def membersLines (members : List Outline) : List String :=
  match members with
  | [] => []
  | first :: rest => memberLines first.lines ++ membersLines rest
termination_by structural members

end

end Outline

end ParenC
