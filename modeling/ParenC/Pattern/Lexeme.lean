/-
The smallest parts of written patterns.

Escapes, numbers of repetitions, flags and the openings of groups are read from a cursor.  Each
reader takes the cursor where its part starts, or right after the characters that announce it,
and leaves it behind the part.
-/
import ParenC.Pattern.Basic
import ParenC.Pattern.Cursor
import ParenC.Text.Letter

namespace ParenC.Pattern

/-- What changes the meaning of the rest of a pattern. -/
inductive Flag
  /-- Letters match in either case. -/
  | ignoreCase
  /-- Lines have starts and ends. -/
  | multiLine
  /-- A dot also matches the end of a line. -/
  | dotAll
  /-- Few repetitions are preferred to many. -/
  | few
  /-- Characters are told apart, and not only bytes. -/
  | unicode
  /-- Lines may end in carriage returns. -/
  | returns
  /-- Blanks and comments are left out. -/
  | spaced
deriving DecidableEq

/-- The flag with the given letter. -/
def Flag.ofLetter? : Char → Option Flag
  | 'i' => some ignoreCase
  | 'm' => some multiLine
  | 's' => some dotAll
  | 'U' => some few
  | 'u' => some unicode
  | 'R' => some returns
  | 'x' => some spaced
  | _ => none

/-- The flags that are set. -/
abbrev Flags := List Flag

namespace Flags

/-- Set a flag or take it back. -/
def set (flags : Flags) (flag : Flag) (on : Bool) : Flags :=
  if on then flag :: flags.erase flag else flags.erase flag

/-- Set flags in order; after a sign that takes flags back they are taken back. -/
def apply (flags : Flags) (items : List (Option Flag)) : Flags :=
  (items.foldl (fun (flags, on) item =>
    match item with
    | none => (flags, false)
    | some flag => (flags.set flag on, on)) (flags, true)).1

end Flags

/-- The sets that are written as a letter after a backslash. -/
inductive Kind
  | digit
  | blank
  | word
deriving DecidableEq

/-- The characters of ASCII that are of a kind. -/
def Kind.set : Kind → CharSet
  | digit => .digit
  | blank => .blank
  | word => .word

/-- What is written as an escape or a single character. -/
inductive Atom
  /-- A character; `byte` says whether it was written as a byte. -/
  | char (c : Char) (byte : Bool)
  /-- The characters of a kind, or all others. -/
  | kind (kind : Kind) (negated : Bool)
  /-- The characters that have a property, or all others. -/
  | property
  /-- The start of the text. -/
  | textStart
  /-- The end of the text. -/
  | textEnd
  /-- A place beside a word. -/
  | word (place : WordPlace)

/-- The value of a hexadecimal digit. -/
def hexValue? (c : Char) : Option Nat :=
  if '0' ≤ c && c ≤ '9' then some (c.toNat - '0'.toNat)
  else if 'a' ≤ c && c ≤ 'f' then some (c.toNat - 'a'.toNat + 10)
  else if 'A' ≤ c && c ≤ 'F' then some (c.toNat - 'A'.toNat + 10)
  else none

/-- The value of digits in a base. -/
def valueOf (base : Nat) (digits : List Char) : Nat :=
  digits.foldl (fun value c => value * base + (hexValue? c).getD 0) 0

/-- The character with the given code point. -/
def charOf (value : Nat) (span : Span) : Except Fault Char :=
  if value < 0xd800 || (0xdfff < value && value < 0x110000) then .ok (Char.ofNat value)
  else fail .hexInvalid span

/-- Read a given number of hexadecimal digits. -/
def hexDigits (value : Nat) (cursor : Cursor) : Nat → Except Fault (Nat × Cursor)
  | 0 => .ok (value, cursor)
  | count + 1 =>
    match cursor.rest with
    | [] => fail .escapeUnfinished cursor.here
    | c :: _ =>
      match hexValue? c with
      | none => fail .hexInvalidDigit cursor.one
      | some digit => hexDigits (value * 16 + digit) cursor.onward count

/-- Read a code point, either as a given number of hexadecimal digits or between braces.  Two
digits stand for a byte. -/
def codePoint (count : Nat) (cursor : Cursor) : Except Fault (Atom × Cursor) := do
  if cursor.isAt '\x7b' then
    let (digits, close) := cursor.onward.gather (hexValue? · |>.isSome)
    if close.atEnd then fail .escapeUnfinished (close.since cursor.offset)
    if !close.isAt '\x7d' then fail .hexInvalidDigit close.one
    let after := close.onward
    if digits.isEmpty then fail .hexEmpty (after.since cursor.offset)
    let c ← charOf (valueOf 16 digits) (close.since (cursor.offset + 1))
    return (.char c false, after)
  else
    let (value, after) ← hexDigits 0 cursor count
    return (.char (← charOf value (after.since cursor.offset)) (count == 2), after)

/-- Read the name of a property. -/
def property (cursor : Cursor) : Except Fault (Atom × Cursor) :=
  match cursor.rest with
  | [] => fail .escapeUnfinished cursor.here
  | '\x7b' :: _ =>
    let (_, close) := cursor.onward.gather (· != '\x7d')
    if close.atEnd then fail .escapeUnfinished close.here else .ok (.property, close.next)
  | '\\' :: _ => fail .propertyInvalid cursor.one
  | _ :: _ => .ok (.property, cursor.onward)

/-- Read the braces after a word boundary, if they hold the name of a place.  `start` is where the
escape starts. -/
def wordPlace? (start : Nat) (cursor : Cursor) : Except Fault (Option (WordPlace × Cursor)) := do
  let isLetter (c : Char) : Bool := c.isAlpha || c == '-'
  let inner := cursor.onward
  match inner.rest with
  | [] => fail .boundaryUnfinished (inner.since start)
  | c :: _ =>
    if !isLetter c then return none
    let (name, close) := inner.gather isLetter
    if !close.isAt '\x7d' then fail .boundaryUnclosed (close.since cursor.offset)
    match String.ofList name with
    | "start" => return some (.start, close.next)
    | "end" => return some (.finish, close.next)
    | "start-half" => return some (.noneBefore, close.next)
    | "end-half" => return some (.noneAfter, close.next)
    | _ => fail .boundaryUnrecognized (close.since inner.offset)

/-- Whether a character stands for itself after a backslash. -/
def isEscapable (c : Char) : Bool :=
  c.toNat < 128 && !c.isAlphanum && c != '<' && c != '>'

/-- Read an escape, from its backslash on. -/
def escape (cursor : Cursor) : Except Fault (Atom × Cursor) := do
  let start := cursor.offset
  let inner := cursor.next
  match inner.rest with
  | [] => fail .escapeUnfinished (inner.since start)
  | c :: _ =>
    let after := inner.next
    if c.isDigit then fail .backreference (after.since start)
    if isEscapable c then return (.char c false, after)
    match c with
    | 'x' => codePoint 2 inner.onward
    | 'u' => codePoint 4 inner.onward
    | 'U' => codePoint 8 inner.onward
    | 'p' | 'P' => property inner.onward
    | 'd' => return (.kind .digit false, after)
    | 'D' => return (.kind .digit true, after)
    | 's' => return (.kind .blank false, after)
    | 'S' => return (.kind .blank true, after)
    | 'w' => return (.kind .word false, after)
    | 'W' => return (.kind .word true, after)
    | 'a' => return (.char '\x07' false, after)
    | 'f' => return (.char '\x0c' false, after)
    | 't' => return (.char '\t' false, after)
    | 'n' => return (.char '\n' false, after)
    | 'r' => return (.char '\r' false, after)
    | 'v' => return (.char '\x0b' false, after)
    | 'A' => return (.textStart, after)
    | 'z' => return (.textEnd, after)
    | 'B' => return (.word .noBoundary, after)
    | '<' => return (.word .start, after)
    | '>' => return (.word .finish, after)
    | 'b' =>
      if after.isAt '\x7b' then
        if let some (place, after) ← wordPlace? start after then
          return (.word place, after)
      return (.word .boundary, after)
    | _ => fail .escapeUnrecognized (after.since start)

/-- Read a decimal number with blanks around it.  The cursor is behind it also if it is faulty. -/
def number (cursor : Cursor) : Except Fault Nat × Cursor :=
  let first := cursor.skipWhile Text.isBlank
  let (digits, last) := first.gather Char.isDigit
  let after := last.skipWhile Text.isBlank
  let value := valueOf 10 digits
  if digits.isEmpty then (fail .countEmpty (last.since first.offset), after)
  else if 4294967295 < value then (fail .decimalInvalid (last.since first.offset), after)
  else (.ok value, after)

/-- How often something is repeated. -/
structure Bounds where
  least : Nat
  most? : Option Nat
  /-- Whether few repetitions are preferred to many. -/
  few : Bool

/-- Read the bounds of a repetition between braces, from the opening brace on. -/
def bounds (cursor : Cursor) : Except Fault (Bounds × Cursor) := do
  let start := cursor.offset
  let inner := cursor.onward
  if inner.atEnd then fail .countUnclosed (inner.since start)
  let (least, after) := number inner
  if after.atEnd then fail .countUnclosed (after.since start)
  let (least, most?, close) ← (do
    if !after.isAt ',' then
      let least ← least
      return (least, some least, after)
    let behind := after.onward
    if behind.atEnd then fail .countUnclosed (behind.since start)
    let least ← least
    if behind.isAt '\x7d' then return (least, none, behind)
    let (most, close) := number behind
    return (least, some (← most), close) : Except Fault (Nat × Option Nat × Cursor))
  if !close.isAt '\x7d' then fail .countUnclosed (close.since start)
  let few := close.onward.isAt '?'
  let after := if few then close.onward.next else close.onward
  if most?.any (· < least) then fail .countInvalid (after.since start)
  return (⟨least, most?, few⟩, after)

/-- Read a single sign that stands for bounds. -/
def sign (least : Nat) (most? : Option Nat) (cursor : Cursor) : Except Fault (Bounds × Cursor) :=
  let few := cursor.next.isAt '?'
  .ok (⟨least, most?, few⟩, if few then cursor.next.next else cursor.next)

/-- Read flags up to a colon or a closing parenthesis.  `seen` holds what was read, the newest
first, with its offset; a sign that takes flags back is no flag. -/
def flagItems (offset : Nat) (seen : List (Option Flag × Nat)) :
    List Char → Except Fault (List (Option Flag) × Nat)
  | [] => fail .flagUnfinished ⟨offset, offset⟩
  | c :: rest =>
    if c = ':' || c = ')' then
      match seen with
      | (none, place) :: _ => fail .flagDanglingNegation ⟨place, place + 1⟩
      | _ => .ok ((seen.map (·.1)).reverse, offset)
    else if c != '-' && (Flag.ofLetter? c).isNone then
      fail .flagUnrecognized ⟨offset, offset + 1⟩
    else
      let item := if c = '-' then none else Flag.ofLetter? c
      match seen.lookup item with
      | some place =>
        .error
          { cause := if c = '-' then .flagRepeatedNegation else .flagDuplicate
            span := ⟨offset, offset + 1⟩
            earlier? := some ⟨place, place + 1⟩ }
      | none => flagItems (offset + 1) ((item, offset) :: seen) rest

/-- Whether a character may stand in the name of a group. -/
def isNameChar (c : Char) (first : Bool) : Bool :=
  c == '_' ||
    if first then Text.isLetter c
    else Text.isLetterOrNumeral c || c == '.' || c == '[' || c == ']'

/-- Read the rest of the name of a group up to the bracket behind it.  `first` says whether the
name starts here. -/
def nameChars (offset : Nat) (first : Bool) : List Char → Except Fault (List Char)
  | [] => fail .groupNameUnclosed ⟨offset, offset⟩
  | c :: rest =>
    if c = '>' then .ok []
    else if isNameChar c first then do return c :: (← nameChars (offset + 1) false rest)
    else fail .groupNameInvalid ⟨offset, offset + 1⟩

/-- What an opening parenthesis starts. -/
inductive Opening
  /-- Only flags are set. -/
  | flags (items : List (Option Flag))
  /-- A group without a number, with flags of its own. -/
  | plain (items : List (Option Flag))
  /-- A group with a number, and perhaps with a name. -/
  | numbered (name? : Option (String × Span))

/-- Read the name of a group. -/
def groupName (cursor : Cursor) : Except Fault (Opening × Cursor) := do
  let name ← nameChars cursor.offset true cursor.rest
  let close := cursor.skip name.length
  if name.isEmpty then fail .groupNameEmpty cursor.here
  return (.numbered (some (String.ofList name, close.since cursor.offset)), close.next)

/-- Read an opening parenthesis and what belongs to it. -/
def opening (paren : Cursor) : Except Fault (Opening × Cursor) := do
  let cursor := paren.onward
  match cursor.rest with
  | '?' :: '=' :: _ | '?' :: '!' :: _ => fail .lookAround ((cursor.skip 2).since paren.offset)
  | '?' :: '<' :: '=' :: _ | '?' :: '<' :: '!' :: _ =>
    fail .lookAround ((cursor.skip 3).since paren.offset)
  | '?' :: 'P' :: '<' :: _ => groupName (cursor.skip 3)
  | '?' :: '<' :: _ => groupName (cursor.skip 2)
  | ['?'] => fail .groupUnclosed paren.one
  | '?' :: rest =>
    let (items, offset) ← flagItems (cursor.offset + 1) [] rest
    let close := cursor.skip (offset - cursor.offset)
    if close.isAt ':' then return (.plain items, close.next)
    if items.isEmpty then fail .repetitionMissing cursor.here
    return (.flags items, close.next)
  | _ => return (.numbered none, cursor)

end ParenC.Pattern
