/-
Unfinished patterns.

While a written pattern is read, some of its groups and classes are open.  A draft keeps what was
read of each of them.  Two kinds of faults are only reported when everything was read: the first
thing that is nested too deeply, and the first thing that is well written but cannot be used.  The
former are found from the nests: a nest is a thing with other things in it, and of every piece the
first nest at each depth is kept.
-/
import ParenC.Pattern.Form
import ParenC.Pattern.Lexeme

namespace ParenC.Pattern

/-- The first nest at each depth, from the outermost on. -/
abbrev Nests := List Span

/-- The nests of two things, one after the other. -/
def Nests.beside : Nests → Nests → Nests
  | [], right => right
  | left, [] => left
  | span :: left, _ :: right => span :: Nests.beside left right

/-- A part of a pattern, as it was written. -/
structure Piece where
  /-- Where it stands. -/
  span : Span
  /-- What it stands for; flags that are set stand for nothing. -/
  pattern? : Option Pattern
  /-- The nests that it is or has. -/
  nests : Nests := []

/-- The piece that has the given pieces in it, in order. -/
def Piece.around (span : Span) (pieces : List Piece) (pattern : List Pattern → Pattern) :
    Piece where
  span := span
  pattern? := some (pattern (pieces.filterMap (·.pattern?)))
  nests := span :: pieces.foldl (fun nests piece => Nests.beside nests piece.nests) []

/-- The pieces of a group, or of everything. -/
structure Body where
  /-- The offset of the first branch. -/
  start : Nat
  /-- The branches that are finished, the newest first. -/
  branches : List Piece := []
  /-- The offset of the branch that is not finished. -/
  branchStart : Nat
  /-- The pieces of that branch, the newest first. -/
  pieces : List Piece := []

namespace Body

/-- The body that starts at an offset. -/
def opened (offset : Nat) : Body := { start := offset, branchStart := offset }

/-- Add a piece to the branch. -/
def add (body : Body) (piece : Piece) : Body := { body with pieces := piece :: body.pieces }

/-- The branch, which ends at an offset. -/
def branch (body : Body) (stop : Nat) : Piece :=
  let span : Span := ⟨body.branchStart, stop⟩
  match body.pieces with
  | [] => { span, pattern? := some .empty }
  | [piece] => { piece with pattern? := some (piece.pattern?.getD .empty) }
  | pieces => .around span pieces.reverse join

/-- Go on with another branch after a sign at an offset. -/
def nextBranch (body : Body) (offset : Nat) : Body :=
  { body with
    branches := body.branch offset :: body.branches, branchStart := offset + 1, pieces := [] }

/-- Everything, which ends at an offset. -/
def whole (body : Body) (stop : Nat) : Piece :=
  match body.branches with
  | [] => body.branch stop
  | branches =>
    .around ⟨body.start, stop⟩ (body.branch stop :: branches).reverse choose

end Body

/-- How two sets in a class are combined. -/
inductive SetOperator
  | inter
  | diff
  | symmDiff
deriving DecidableEq

/-- The combined set. -/
def SetOperator.apply : SetOperator → CharSet → CharSet → CharSet
  | inter => .inter
  | diff => .diff
  | symmDiff => .symmDiff

/-- A part of a class. -/
structure ClassPart where
  /-- Where it stands. -/
  span : Span
  /-- The nests that it is or has. -/
  nests : Nests := []
  /-- The characters. -/
  set : CharSet
  /-- Whether there are characters whose case was not looked at yet. -/
  caseOpen : Bool

/-- The part with an operator between two others. -/
def ClassPart.combined (operator : SetOperator) (left right : ClassPart) : ClassPart :=
  let span : Span := ⟨left.span.first, right.span.last⟩
  { span
    nests := span :: Nests.beside left.nests right.nests
    set := operator.apply left.set right.set
    caseOpen := false }

/-- What stands in a class without operators between. -/
structure Members where
  /-- From the first to the last member. -/
  span : Span
  /-- The number of members. -/
  count : Nat := 0
  /-- The nests of the members. -/
  nests : Nests := []
  /-- The characters. -/
  set : CharSet := .empty
  /-- Whether there are characters whose case was not looked at yet. -/
  caseOpen : Bool := false

namespace Members

/-- No members, at a place. -/
def none (place : Span) : Members := { span := place }

/-- Add a member. -/
def add (members : Members) (part : ClassPart) : Members where
  span := if members.count = 0 then part.span else ⟨members.span.first, part.span.last⟩
  count := members.count + 1
  nests := Nests.beside members.nests part.nests
  set := members.set.union part.set
  caseOpen := members.caseOpen || part.caseOpen

/-- Add characters that were written at a span. -/
def addRange (members : Members) (first last : Char) (span : Span) : Members :=
  members.add { span, set := ⟨[.between first last]⟩, caseOpen := true }

/-- The members as one part.  Several of them are a nest. -/
def whole (members : Members) : ClassPart where
  span := members.span
  nests := if members.count < 2 then members.nests else members.span :: members.nests
  set := members.set
  caseOpen := members.caseOpen

end Members

/-- A class that is open. -/
structure ClassFrame where
  /-- The characters that open it. -/
  span : Span
  /-- Whether it stands for the characters that are not in it. -/
  negated : Bool
  /-- The members since the last operator. -/
  members : Members
  /-- The last operator, and what stands before it. -/
  pending? : Option (SetOperator × ClassPart) := none

/-- A group that is open. -/
structure GroupFrame where
  /-- The parenthesis that opens it. -/
  span : Span
  /-- The number of the group. -/
  number? : Option Nat
  /-- The pieces around it. -/
  outside : Body
  /-- The flags around it. -/
  flags : Flags

/-- What was read so far. -/
structure Draft where
  /-- What is still to be read. -/
  cursor : Cursor
  /-- The flags. -/
  flags : Flags := [.unicode]
  /-- The pieces of the innermost group. -/
  body : Body := .opened 0
  /-- The open groups, the innermost first. -/
  groups : List GroupFrame := []
  /-- The open classes, the innermost first. -/
  classes : List ClassFrame := []
  /-- The number of groups that have numbers. -/
  groupCount : Nat := 0
  /-- The names of groups. -/
  names : List (String × Span) := []
  /-- The first thing that cannot be used. -/
  late? : Option Fault := none

namespace Draft

/-- Whether a flag is set. -/
def has (draft : Draft) (flag : Flag) : Bool := draft.flags.contains flag

/-- Set the flags, and go on behind a cursor. -/
def setFlags (draft : Draft) (flags : Flags) (cursor : Cursor) : Draft :=
  { draft with flags, cursor := { cursor with spaced := flags.contains .spaced } }

/-- Report at the end that something cannot be used, unless there is something before it. -/
def postpone (draft : Draft) (cause : Cause) (span : Span) : Draft :=
  { draft with late? := draft.late?.or (some { cause, span }) }

/-- Add a pattern to the branch that was written from the cursor up to another one. -/
def add (draft : Draft) (pattern : Pattern) (after : Cursor) : Draft :=
  let piece : Piece := { span := after.since draft.cursor.offset, pattern? := some pattern }
  { draft with body := draft.body.add piece, cursor := after }

/-- Take the characters of a part in either case, if this is asked for.  Only the letters of ASCII
have a case that is known.  `span` is what is to blame otherwise. -/
def closeCase (draft : Draft) (part : ClassPart) (span : Span) : ClassPart × Draft :=
  if !draft.has .ignoreCase then (part, draft)
  else if draft.has .unicode then
    ({ part with caseOpen := false },
      if part.caseOpen then draft.postpone .casesUnknown span else draft)
  else ({ part with set := part.set.anyCase }, draft)

/-- Take all other characters, if this is asked for.  If only bytes are told apart, the others are
not all characters. -/
def negate (draft : Draft) (negated : Bool) (set : CharSet) (span : Span) : CharSet × Draft :=
  if !negated then (set, draft)
  else if draft.has .unicode then (set.compl, draft)
  else (set, draft.postpone .invalidText span)

/-- The set of a kind.  Only the characters of ASCII are known by kind. -/
def setOfKind (draft : Draft) (kind : Kind) (negated : Bool) (span : Span) : CharSet × Draft :=
  if draft.has .unicode then (kind.set, draft.postpone .scriptsUnknown span)
  else draft.negate negated kind.set span

/-- Report that a property is not known.  None is known. -/
def postponeProperty (draft : Draft) (span : Span) : Draft :=
  draft.postpone (if draft.has .unicode then .propertyUnknown else .bytesOnly) span

end Draft

end ParenC.Pattern
