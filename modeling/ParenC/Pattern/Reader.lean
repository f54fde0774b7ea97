/-
Reading written patterns.

A written pattern is read from left to right, and the first fault ends the reading.  Every step
takes at least one character, so that there are no more steps than characters.  What was read
well may still nest too deeply, use what is not known, or be too large.
-/
import ParenC.Pattern.Draft
import ParenC.Pattern.Size

namespace ParenC.Pattern

namespace Draft

/-- Add a character that was written up to a cursor. -/
def addChar (draft : Draft) (c : Char) (byte : Bool) (after : Cursor) : Draft :=
  let span := after.since draft.cursor.offset
  if draft.has .unicode then
    let draft := if draft.has .ignoreCase then draft.postpone .casesUnknown span else draft
    draft.add (.literal [c]) after
  else if byte && 128 ≤ c.toNat then (draft.postpone .invalidText span).add .empty after
  else if draft.has .ignoreCase then draft.add (ofSet (CharSet.single c).anyCase true) after
  else draft.add (.literal [c]) after

/-- Add what is written as an escape. -/
def addAtom (draft : Draft) (atom : Atom) (after : Cursor) : Draft :=
  let span := after.since draft.cursor.offset
  match atom with
  | .char c byte => draft.addChar c byte after
  | .kind kind negated =>
    let (set, draft) := draft.setOfKind kind negated span
    draft.add (ofSet set true) after
  | .property => (draft.postponeProperty span).add .empty after
  | .textStart => draft.add (.look .textStart) after
  | .textEnd => draft.add (.look .textEnd) after
  | .word place => draft.add (.look (.word place (draft.has .unicode))) after

/-- The characters that a dot stands for. -/
def dotSet (draft : Draft) : CharSet :=
  if draft.has .dotAll then .any
  else if draft.has .returns then (CharSet.ofRanges [.between '\n' '\n', .between '\r' '\r']).compl
  else (CharSet.single '\n').compl

/-- Add a dot.  If only bytes are told apart, it would find pieces of characters. -/
def addDot (draft : Draft) : Draft :=
  let after := draft.cursor.next
  let draft := if draft.has .unicode then draft else draft.postpone .invalidText draft.cursor.one
  draft.add (ofSet draft.dotSet false) after

/-- Add a condition on a gap, which depends on whether lines have starts and ends. -/
def addEdge (draft : Draft) (ofText : Look) (ofLine : Bool → Look) : Draft :=
  let condition := if draft.has .multiLine then ofLine (draft.has .returns) else ofText
  draft.add (.look condition) draft.cursor.next

/-- Repeat the last piece. -/
def addRepetition (draft : Draft) (read : Cursor → Except Fault (Bounds × Cursor)) :
    Except Fault Draft :=
  match draft.body.pieces with
  | ⟨operand, some pattern, nests⟩ :: before => do
    let (bounds, after) ← read draft.cursor
    let span := after.since operand.first
    let few := bounds.few != draft.has .few
    let piece : Piece :=
      { span
        pattern? := some (repeated pattern bounds.least bounds.most? few)
        nests := span :: nests }
    return { draft with body := { draft.body with pieces := piece :: before }, cursor := after }
  | _ => fail .repetitionMissing draft.cursor.here

/-- Open a group with the given flags. -/
def openGroup (draft : Draft) (number? : Option Nat) (items : List (Option Flag))
    (after : Cursor) : Draft :=
  let frame : GroupFrame :=
    { span := draft.cursor.one, number?, outside := draft.body, flags := draft.flags }
  let inside := { draft with groups := frame :: draft.groups, body := .opened after.offset }
  inside.setFlags (draft.flags.apply items) after

/-- Take note of the name of a group, which no other group may have. -/
def addName (draft : Draft) (name : String) (span : Span) : Except Fault Draft :=
  match draft.names.lookup name with
  | some earlier => .error { cause := .groupNameDuplicate, span, earlier? := some earlier }
  | none => .ok { draft with names := (name, span) :: draft.names }

/-- Read what a parenthesis opens. -/
def openParenthesis (draft : Draft) : Except Fault Draft := do
  let (opened, after) ← opening draft.cursor
  match opened with
  | .flags items =>
    let piece : Piece := { span := after.since draft.cursor.offset, pattern? := none }
    return { draft with body := draft.body.add piece }.setFlags (draft.flags.apply items) after
  | .plain items => return draft.openGroup none items after
  | .numbered name? =>
    let number := draft.groupCount + 1
    let draft ← match name? with
      | none => pure draft
      | some (name, span) => draft.addName name span
    return { draft with groupCount := number }.openGroup (some number) [] after

/-- Close the innermost group. -/
def closeGroup (draft : Draft) : Except Fault Draft :=
  match draft.groups with
  | [] => fail .groupUnopened draft.cursor.one
  | frame :: groups =>
    let after := draft.cursor.next
    let inside := draft.body.whole draft.cursor.offset
    let pattern := inside.pattern?.getD .empty
    let span := after.since frame.span.first
    let piece : Piece :=
      { span
        pattern? := some (frame.number?.elim pattern (.group · pattern))
        nests := span :: inside.nests }
    .ok ({ draft with groups, body := frame.outside.add piece }.setFlags frame.flags after)

/-- Take dashes for members, but not more than `limit`. -/
def dashes (members : Members) (cursor : Cursor) : Nat → Members × Cursor
  | 0 => (members, cursor)
  | limit + 1 =>
    if cursor.isAt '-' then dashes (members.addRange '-' '-' cursor.one) cursor.onward limit
    else (members, cursor)

/-- Open a class.  Dashes right behind the opening stand for themselves, and so does a closing
bracket. -/
def openClass (draft : Draft) : Except Fault Draft := do
  let start := draft.cursor.offset
  let inner := draft.cursor.onward
  if inner.atEnd then fail .classUnclosed (inner.since start)
  let negated := inner.isAt '^'
  let inner := if negated then inner.onward else inner
  if inner.atEnd then fail .classUnclosed (inner.since start)
  let (members, behind) := dashes (.none inner.here) inner inner.rest.length
  if behind.atEnd then fail .classUnclosed ⟨start, start⟩
  let bracket := members.count = 0 && behind.isAt ']'
  let members := if bracket then members.addRange ']' ']' behind.one else members
  let cursor := if bracket then behind.onward else behind
  if cursor.atEnd then fail .classUnclosed (cursor.since start)
  let frame : ClassFrame := { span := cursor.since start, negated, members }
  return { draft with classes := frame :: draft.classes, cursor }

/-- Read the name of a set between colons, and whether all others are meant. -/
def setName? (cursor : Cursor) : Option ((CharSet × Bool) × Cursor) := do
  let inner := cursor.next
  if !inner.isAt ':' then failure
  let negated := inner.next.isAt '^'
  let start := if negated then inner.next.next else inner.next
  let close := start.skipWhile (· != ':')
  if !(close.isAt ':' && close.next.isAt ']') then failure
  let set ← CharSet.named? (String.ofList (start.rest.take (close.offset - start.offset)))
  return ((set, negated), close.skip 2)

/-- Change the members of the innermost class, and go on behind a cursor. -/
def changeMembers (draft : Draft) (change : Members → Members) (after : Cursor) : Draft :=
  match draft.classes with
  | [] => { draft with cursor := after }
  | frame :: outer =>
    { draft with
      classes := { frame with members := change frame.members } :: outer, cursor := after }

/-- Add a set with a name to the innermost class. -/
def addNamed (draft : Draft) (set : CharSet) (negated : Bool) (after : Cursor) : Draft :=
  let span := after.since draft.cursor.offset
  let (part, draft) := draft.closeCase { span, set, caseOpen := true } span
  let (set, draft) := draft.negate negated part.set span
  draft.changeMembers (·.add { part with set }) after

/-- Report that the innermost class has no end. -/
def classUnclosed {α : Type} (draft : Draft) : Except Fault α :=
  fail .classUnclosed ((draft.classes.head?.map (·.span)).getD draft.cursor.here)

/-- Read an escape or a single character of a class. -/
def classAtom (cursor : Cursor) : Except Fault (Atom × Cursor) :=
  match cursor.rest with
  | '\\' :: _ => escape cursor
  | c :: _ => .ok (.char c false, cursor.next)
  | [] => fail .classUnclosed cursor.here

/-- Look at a character of a class that was written at a span.  If only bytes are told apart, it
has to be of ASCII. -/
def checkMember (draft : Draft) (c : Char) (byte : Bool) (span : Span) : Draft :=
  if draft.has .unicode || c.toNat < 128 then draft
  else draft.postpone (if byte then .invalidText else .bytesOnly) span

/-- The character that bounds a range, and whether it was written as a byte. -/
def bound (atom : Atom) (span : Span) : Except Fault (Char × Bool) :=
  match atom with
  | .char c byte => .ok (c, byte)
  | _ => fail .classRangeLiteral span

/-- Add what is written as an escape or a single character to the innermost class. -/
def addMember (draft : Draft) (atom : Atom) (span : Span) (after : Cursor) :
    Except Fault Draft :=
  match atom with
  | .char c byte =>
    .ok ((draft.checkMember c byte span).changeMembers (·.addRange c c span) after)
  | .kind kind negated =>
    let (set, draft) := draft.setOfKind kind negated span
    .ok (draft.changeMembers (·.add { span, set, caseOpen := false }) after)
  | .property =>
    .ok ((draft.postponeProperty span).changeMembers
      (·.add { span, set := .empty, caseOpen := false }) after)
  | _ => fail .classEscapeInvalid span

/-- Read a range or a single member of a class. -/
def classItem (draft : Draft) : Except Fault Draft := do
  let (atom, behind) ← classAtom draft.cursor
  let span := behind.since draft.cursor.offset
  let after := behind.settle
  if after.atEnd then draft.classUnclosed
  if !after.isAt '-' || after.peek? = some ']' || after.peek? = some '-' then
    draft.addMember atom span after
  else
    let second := after.onward
    if second.atEnd then draft.classUnclosed
    let (upper, close) ← classAtom second
    let upperSpan := close.since second.offset
    let (first, firstByte) ← bound atom span
    let (last, lastByte) ← bound upper upperSpan
    let whole := close.since draft.cursor.offset
    if last < first then fail .classRangeInvalid whole
    let draft := draft.checkMember first firstByte span
    let draft := draft.checkMember last lastByte upperSpan
    return draft.changeMembers (·.addRange first last whole) close

/-- Everything in a class so far.  Both sides of an operator are taken in either case, if this is
asked for. -/
def classPart (draft : Draft) (frame : ClassFrame) : ClassPart × Draft :=
  let right := frame.members.whole
  match frame.pending? with
  | none => (right, draft)
  | some (operator, left) =>
    let (right, draft) := draft.closeCase right right.span
    let (left, draft) := draft.closeCase left left.span
    (.combined operator left right, draft)

/-- Close the innermost class. -/
def closeClass (draft : Draft) : Draft :=
  match draft.classes with
  | [] => draft
  | frame :: outer =>
    let after := draft.cursor.next
    let span := after.since frame.span.first
    let (part, draft) := draft.classPart frame
    let (part, draft) := draft.closeCase part span
    let (set, draft) := draft.negate frame.negated part.set span
    let nests := span :: part.nests
    let draft := { draft with classes := outer }
    if outer.isEmpty then
      let pattern := ofSet set !(draft.has .unicode)
      let piece : Piece := { span, pattern? := some pattern, nests }
      { draft with body := draft.body.add piece, cursor := after }
    else draft.changeMembers (·.add { part with span, nests, set }) after

/-- Put an operator into the innermost class. -/
def addOperator (draft : Draft) (operator : SetOperator) : Draft :=
  let after := draft.cursor.skip 2
  match draft.classes with
  | [] => { draft with cursor := after }
  | frame :: outer =>
    let (part, draft) := draft.classPart frame
    let frame := { frame with members := .none after.here, pending? := some (operator, part) }
    { draft with classes := frame :: outer, cursor := after }

/-- Read the next part of a class. -/
def classStep (draft : Draft) : Except Fault Draft :=
  match draft.cursor.rest with
  | [] => draft.classUnclosed
  | ']' :: _ => .ok draft.closeClass
  | '[' :: _ =>
    match setName? draft.cursor with
    | some ((set, negated), after) => .ok (draft.addNamed set negated after)
    | none => draft.openClass
  | '&' :: '&' :: _ => .ok (draft.addOperator .inter)
  | '-' :: '-' :: _ => .ok (draft.addOperator .diff)
  | '~' :: '~' :: _ => .ok (draft.addOperator .symmDiff)
  | _ => draft.classItem

/-- Read the next part outside of classes. -/
def plainStep (draft : Draft) : Except Fault Draft :=
  match draft.cursor.rest with
  | [] => .ok draft
  | '(' :: _ => draft.openParenthesis
  | ')' :: _ => draft.closeGroup
  | '[' :: _ => draft.openClass
  | '|' :: _ =>
    .ok { draft with
      body := draft.body.nextBranch draft.cursor.offset, cursor := draft.cursor.next }
  | '?' :: _ => draft.addRepetition (sign 0 (some 1))
  | '*' :: _ => draft.addRepetition (sign 0 none)
  | '+' :: _ => draft.addRepetition (sign 1 none)
  | '\x7b' :: _ => draft.addRepetition bounds
  | '.' :: _ => .ok draft.addDot
  | '^' :: _ => .ok (draft.addEdge .textStart .lineStart)
  | '$' :: _ => .ok (draft.addEdge .textEnd .lineEnd)
  | '\\' :: _ => do
    let (atom, after) ← escape draft.cursor
    return draft.addAtom atom after
  | c :: _ => .ok (draft.addChar c false draft.cursor.next)

/-- Read as many parts as there are, but no more than `limit`. -/
def run (draft : Draft) : Nat → Except Fault Draft
  | 0 => .ok draft
  | limit + 1 =>
    let draft := { draft with cursor := draft.cursor.settle }
    if draft.cursor.atEnd then .ok draft
    else
      match if draft.classes.isEmpty then draft.plainStep else draft.classStep with
      | .error fault => .error fault
      | .ok next => next.run limit

/-- The finished pattern. -/
def finish (draft : Draft) : Except Fault Pattern := do
  if let frame :: _ := draft.classes then fail .classUnclosed frame.span
  if let frame :: _ := draft.groups then fail .groupUnclosed frame.span
  let piece := draft.body.whole draft.cursor.offset
  if let span :: _ := piece.nests.drop maxNesting then fail .nestedTooDeep span
  if let some fault := draft.late? then throw fault
  return piece.pattern?.getD .empty

end Draft

/-- Why a written pattern is not accepted. -/
inductive Rejection
  /-- It is not well written, or uses what is not known. -/
  | malformed (fault : Fault)
  /-- It is too large. -/
  | tooLarge
  /-- It looks at words of all scripts, and they are not known. -/
  | wordsUnknown
deriving DecidableEq

/-- The text that reports why a written pattern is not accepted. -/
def Rejection.message (written : String) : Rejection → String
  | malformed fault => String.intercalate "\n" (fault.report written)
  | tooLarge =>
    "Compiled regex exceeds size limit of " ++ toString Room.maxBytes ++ " bytes."
  | wordsUnknown => "error building NFA"

/-- Read a written pattern. -/
def read (written : String) : Except Rejection Pattern := do
  let start : Draft := { cursor := { offset := 0, rest := written.toList } }
  let pattern ← (start.run written.toList.length >>= Draft.finish).mapError .malformed
  if !pattern.fits .forward then throw .tooLarge
  if pattern.looksAtScripts then throw .wordsUnknown
  if !pattern.fits .backward then throw .tooLarge
  return pattern

end ParenC.Pattern
