/-
Faults in written patterns.

A fault has a cause and a place: the characters of the written pattern that are to blame.  The
report shows the pattern with marks under these characters.
-/
import ParenC.Text

namespace ParenC.Pattern

/-- The characters from offset `first` up to but not including offset `last`. -/
structure Span where
  first : Nat
  last : Nat
deriving DecidableEq

/-- What is wrong with a written pattern. -/
inductive Cause
  /-- Something other than a set of characters stands in a class. -/
  | classEscapeInvalid
  /-- A range ends before it starts. -/
  | classRangeInvalid
  /-- A bound of a range is not a single character. -/
  | classRangeLiteral
  /-- A class has no end. -/
  | classUnclosed
  /-- A number is too large. -/
  | decimalInvalid
  /-- There are no digits between braces. -/
  | hexEmpty
  /-- There is no such character. -/
  | hexInvalid
  /-- A hexadecimal digit is expected. -/
  | hexInvalidDigit
  /-- The pattern ends inside of an escape. -/
  | escapeUnfinished
  /-- There is no such escape. -/
  | escapeUnrecognized
  /-- A sign that takes flags back has none after it. -/
  | flagDanglingNegation
  /-- A flag is there twice. -/
  | flagDuplicate
  /-- The sign that takes flags back is there twice. -/
  | flagRepeatedNegation
  /-- The pattern ends inside of flags. -/
  | flagUnfinished
  /-- There is no such flag. -/
  | flagUnrecognized
  /-- Two groups have the same name. -/
  | groupNameDuplicate
  /-- The name of a group is empty. -/
  | groupNameEmpty
  /-- The name of a group has a character that names have not. -/
  | groupNameInvalid
  /-- The name of a group has no end. -/
  | groupNameUnclosed
  /-- A group has no end. -/
  | groupUnclosed
  /-- A group ends that has not started. -/
  | groupUnopened
  /-- A number is expected in a repetition. -/
  | countEmpty
  /-- The bounds of a repetition are in the wrong order. -/
  | countInvalid
  /-- A repetition has no end. -/
  | countUnclosed
  /-- There is nothing to repeat. -/
  | repetitionMissing
  /-- The condition on words has no end. -/
  | boundaryUnclosed
  /-- There is no such condition on words. -/
  | boundaryUnrecognized
  /-- Braces open after a word boundary, and the pattern ends. -/
  | boundaryUnfinished
  /-- A property is expected. -/
  | propertyInvalid
  /-- There is no such property. -/
  | propertyUnknown
  /-- Digits, blanks and words of all scripts are not known. -/
  | scriptsUnknown
  /-- Upper and lower case of all scripts are not known. -/
  | casesUnknown
  /-- Characters are only told apart byte by byte. -/
  | bytesOnly
  /-- Groups cannot be referred to. -/
  | backreference
  /-- There is no looking ahead or back. -/
  | lookAround
  /-- The pattern would find pieces of characters. -/
  | invalidText
  /-- Too many things are nested. -/
  | nestedTooDeep
deriving DecidableEq

/-- The largest number of things that are nested in each other. -/
def maxNesting : Nat := 250

/-- The text that tells the cause. -/
def Cause.message : Cause → String
  | classEscapeInvalid => "invalid escape sequence found in character class"
  | classRangeInvalid => "invalid character class range, the start must be <= the end"
  | classRangeLiteral => "invalid range boundary, must be a literal"
  | classUnclosed => "unclosed character class"
  | decimalInvalid => "decimal literal invalid"
  | hexEmpty => "hexadecimal literal empty"
  | hexInvalid => "hexadecimal literal is not a Unicode scalar value"
  | hexInvalidDigit => "invalid hexadecimal digit"
  | escapeUnfinished => "incomplete escape sequence, reached end of pattern prematurely"
  | escapeUnrecognized => "unrecognized escape sequence"
  | flagDanglingNegation => "dangling flag negation operator"
  | flagDuplicate => "duplicate flag"
  | flagRepeatedNegation => "flag negation operator repeated"
  | flagUnfinished => "expected flag but got end of regex"
  | flagUnrecognized => "unrecognized flag"
  | groupNameDuplicate => "duplicate capture group name"
  | groupNameEmpty => "empty capture group name"
  | groupNameInvalid => "invalid capture group character"
  | groupNameUnclosed => "unclosed capture group name"
  | groupUnclosed => "unclosed group"
  | groupUnopened => "unopened group"
  | countEmpty => "repetition quantifier expects a valid decimal"
  | countInvalid => "invalid repetition count range, the start must be <= the end"
  | countUnclosed => "unclosed counted repetition"
  | repetitionMissing => "repetition operator missing expression"
  | boundaryUnclosed =>
    "special word boundary assertion is either unclosed or contains an invalid character"
  | boundaryUnrecognized =>
    "unrecognized special word boundary assertion, valid choices are: start, end, start-half " ++
      "or end-half"
  | boundaryUnfinished =>
    "found either the beginning of a special word boundary or a bounded repetition on a \\b " ++
      "with an opening brace, but no closing brace"
  | propertyInvalid => "invalid Unicode character class"
  | propertyUnknown => "Unicode property not found"
  | scriptsUnknown =>
    "Unicode-aware Perl class not found (make sure the unicode-perl feature is enabled)"
  | casesUnknown =>
    "Unicode-aware case insensitivity matching is not available " ++
      "(make sure the unicode-case feature is enabled)"
  | bytesOnly => "Unicode not allowed here"
  | backreference => "backreferences are not supported"
  | lookAround => "look-around, including look-ahead and look-behind, is not supported"
  | invalidText => "pattern can match invalid UTF-8"
  | nestedTooDeep =>
    "exceed the maximum number of nested parentheses/brackets (" ++ toString maxNesting ++ ")"

/-- What is wrong with a written pattern, and where. -/
structure Fault where
  cause : Cause
  span : Span
  /-- Where the thing stands that is there a second time. -/
  earlier? : Option Span := none
deriving DecidableEq

/-- Report a fault. -/
def fail {α : Type} (cause : Cause) (span : Span) : Except Fault α := .error { cause, span }

/-- The line and the column of an offset, both from one on. -/
def lineAndColumn (pattern : List Char) (offset : Nat) : Nat × Nat :=
  let before := Text.pieces '\n' (pattern.take offset)
  (before.length, (before.getLastD []).length + 1)

/-- The lines of a written pattern. -/
def linesOf (pattern : List Char) : List (List Char) :=
  match (Text.pieces '\n' pattern).reverse with
  | [] => []
  | [] :: ended => (ended.map Text.withoutReturn).reverse
  | last :: ended => ((last :: ended.map Text.withoutReturn)).reverse

/-- Marks under the characters of spans, which are given by their columns, from column `column`
on. -/
def marksUnder (column : Nat) : List Span → String
  | [] => ""
  | span :: rest =>
    let blanks := span.first - column
    let width := max 1 (span.last - span.first)
    String.ofList (List.replicate blanks ' ' ++ List.replicate width '^') ++
      marksUnder (max column span.first + width) rest

namespace Fault

/-- The spans that are to blame, from left to right. -/
def spans (fault : Fault) : List Span :=
  match fault.earlier? with
  | none => [fault.span]
  | some earlier => [earlier, fault.span]

/-- The spans within a line, by their columns. -/
def spansOnLine (fault : Fault) (pattern : List Char) (line : Nat) : List Span :=
  fault.spans.filterMap fun span =>
    let (firstLine, firstColumn) := lineAndColumn pattern span.first
    let (lastLine, lastColumn) := lineAndColumn pattern span.last
    if firstLine = line && lastLine = line then some ⟨firstColumn, lastColumn⟩ else none

/-- The places of spans that go over several lines. -/
def longSpans (fault : Fault) (pattern : List Char) : List String :=
  fault.spans.filterMap fun span =>
    let (firstLine, firstColumn) := lineAndColumn pattern span.first
    let (lastLine, lastColumn) := lineAndColumn pattern span.last
    if firstLine = lastLine then none
    else some ("on line " ++ toString firstLine ++ " (column " ++ toString firstColumn ++
      ") through line " ++ toString lastLine ++ " (column " ++ toString (lastColumn - 1) ++ ")")

/-- A line of the pattern, and the marks under it. -/
def notedLine (fault : Fault) (pattern : List Char) (margin : String) (number : Nat)
    (line : List Char) : List String :=
  let text := margin ++ String.ofList line
  match fault.spansOnLine pattern number with
  | [] => [text]
  | spans =>
    [text, String.ofList (List.replicate margin.length ' ') ++ marksUnder 1 spans]

/-- The margin that shows the number of a line. -/
def margin (width number : Nat) : String :=
  let digits := toString number
  String.ofList (List.replicate (width - digits.length) ' ') ++ digits ++ ": "

/-- The lines that report the fault. -/
def report (fault : Fault) (written : String) : List String :=
  let pattern := written.toList
  let heading := "regex parse error:"
  let cause := "error: " ++ fault.cause.message
  if pattern.contains '\n' then
    let width := (toString (Text.pieces '\n' pattern).length).length
    let divider := String.ofList (List.replicate 79 '~')
    [heading, divider] ++
      ((linesOf pattern).zipIdx 1).flatMap (fun (line, number) =>
        fault.notedLine pattern (margin width number) number line) ++
      [divider] ++ fault.longSpans pattern ++ [cause]
  else
    [heading] ++ fault.notedLine pattern "    " 1 pattern ++ [cause]

end Fault

end ParenC.Pattern
