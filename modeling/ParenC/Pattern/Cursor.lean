/-
Places in written patterns.

A cursor is a place in a written pattern together with everything behind it.  In some patterns
blanks and comments between the parts are left out; the cursor knows whether they are, and goes
over them on its way from part to part.
-/
import ParenC.Pattern.Fault

namespace ParenC.Pattern

/-- A place in a written pattern. -/
structure Cursor where
  /-- The number of characters before the place. -/
  offset : Nat
  /-- The characters after the place. -/
  rest : List Char
  /-- Whether blanks and comments are left out. -/
  spaced : Bool := false

/-- The number of characters of the blanks and comments that a text starts with.  A comment goes
up to the end of its line. -/
def gapLength (inComment : Bool) : List Char → Nat
  | [] => 0
  | c :: rest =>
    if inComment then gapLength (c != '\n') rest + 1
    else if Text.isBlank c then gapLength false rest + 1
    else if c = '#' then gapLength true rest + 1
    else 0

/-- The first character of a text that is not blank.  One sign that starts a comment is passed
over as well. -/
def firstInk? (signAllowed : Bool) : List Char → Option Char
  | [] => none
  | c :: rest =>
    if Text.isBlank c then firstInk? signAllowed rest
    else if signAllowed && c = '#' then firstInk? false rest
    else some c

namespace Cursor

/-- Go over some characters. -/
def skip (cursor : Cursor) (count : Nat) : Cursor :=
  { cursor with offset := cursor.offset + count, rest := cursor.rest.drop count }

/-- Go over one character. -/
def next (cursor : Cursor) : Cursor := cursor.skip 1

/-- Go over the characters up to the first that fails a test. -/
def skipWhile (cursor : Cursor) (test : Char → Bool) : Cursor :=
  cursor.skip (cursor.rest.takeWhile test).length

/-- Go over blanks and comments, if they are left out. -/
def settle (cursor : Cursor) : Cursor :=
  if cursor.spaced then cursor.skip (gapLength false cursor.rest) else cursor

/-- Go over one character, and over the blanks and comments behind it, if they are left out. -/
def onward (cursor : Cursor) : Cursor := cursor.next.settle

/-- Whether there are no more characters. -/
def atEnd (cursor : Cursor) : Bool := cursor.rest.isEmpty

/-- Whether the character at the place is the given one. -/
def isAt (cursor : Cursor) (c : Char) : Bool := cursor.rest.head? == some c

/-- The character after the one at the place.  If blanks and comments are left out, it is the
first one that is not blank, unless there is none. -/
def peek? (cursor : Cursor) : Option Char :=
  let behind := cursor.rest.drop 1
  if cursor.spaced then (firstInk? true behind).or behind.head? else behind.head?

/-- The place itself. -/
def here (cursor : Cursor) : Span := ⟨cursor.offset, cursor.offset⟩

/-- The character at the place. -/
def one (cursor : Cursor) : Span := ⟨cursor.offset, cursor.offset + 1⟩

/-- Everything from an offset up to the place. -/
def since (cursor : Cursor) (first : Nat) : Span := ⟨first, cursor.offset⟩

/-- The characters up to the first that fails a test, but not more than `limit`, and the place
behind them.  Blanks and comments between them are left out, if they are at all. -/
def gatherUpTo (test : Char → Bool) : Nat → Cursor → List Char × Cursor
  | 0, cursor => ([], cursor)
  | limit + 1, cursor =>
    match cursor.rest with
    | [] => ([], cursor)
    | c :: _ =>
      if test c then
        let (more, after) := gatherUpTo test limit cursor.onward
        (c :: more, after)
      else ([], cursor)

/-- The characters up to the first that fails a test, and the place behind them. -/
def gather (cursor : Cursor) (test : Char → Bool) : List Char × Cursor :=
  gatherUpTo test cursor.rest.length cursor

end Cursor

end ParenC.Pattern
