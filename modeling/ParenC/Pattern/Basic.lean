/-
Patterns.

A pattern says which pieces of a text are looked for.  A text is matched by going over the gaps
between its characters: from the gaps where a piece may start, a pattern leads to the gaps where
it may end.  The gaps are kept as a list of marks, one for each gap, so that a text of `n`
characters has `n + 1` of them, and following a pattern from marks to marks needs no search.
-/
import ParenC.Pattern.CharSet

namespace ParenC.Pattern

/-- Where a gap lies beside a word. -/
inductive WordPlace
  /-- A word starts or ends here. -/
  | boundary
  /-- No word starts or ends here. -/
  | noBoundary
  /-- A word starts here. -/
  | start
  /-- A word ends here. -/
  | finish
  /-- There is no word before. -/
  | noneBefore
  /-- There is no word after. -/
  | noneAfter
deriving DecidableEq

/-- Whether a gap is at the place, by the parts of words on its sides. -/
def WordPlace.holds (before after : Bool) : WordPlace → Bool
  | boundary => before != after
  | noBoundary => before == after
  | start => !before && after
  | finish => before && !after
  | noneBefore => !before
  | noneAfter => !after

/-- A condition on a gap. -/
inductive Look
  /-- The start of the text. -/
  | textStart
  /-- The end of the text. -/
  | textEnd
  /-- The start of a line; `returns` says whether lines may end in carriage returns. -/
  | lineStart (returns : Bool)
  /-- The end of a line; `returns` says whether lines may end in carriage returns. -/
  | lineEnd (returns : Bool)
  /-- A place beside a word; `scripts` says whether words of all scripts are meant, and not only
  those of ASCII. -/
  | word (place : WordPlace) (scripts : Bool)
deriving DecidableEq

/-- Whether the condition holds between two characters.  Before the first character and after the
last one there is none.  Only words of ASCII are known. -/
def Look.holds (before after : Option Char) : Look → Bool
  | textStart => before.isNone
  | textEnd => after.isNone
  | lineStart false => before.isNone || before == some '\n'
  | lineStart true =>
    before.isNone || before == some '\n' || (before == some '\r' && after != some '\n')
  | lineEnd false => after.isNone || after == some '\n'
  | lineEnd true =>
    after.isNone || after == some '\r' || (after == some '\n' && before != some '\r')
  | word place _ =>
    place.holds (before.any CharSet.word.contains) (after.any CharSet.word.contains)

end Pattern

/-- Which pieces of a text are looked for. -/
inductive Pattern
  /-- The piece without characters. -/
  | empty
  /-- The given characters. -/
  | literal (text : List Char)
  /-- One character of a set; `bytes` says whether the set was written for single bytes. -/
  | oneOf (set : Pattern.CharSet) (bytes : Bool)
  /-- The piece without characters, where a condition holds. -/
  | look (condition : Pattern.Look)
  /-- A piece that has a number. -/
  | group (number : Nat) (body : Pattern)
  /-- Pieces one right after the other, as many of them as the bounds allow; `few` says whether
  few of them are preferred to many. -/
  | times (body : Pattern) (least : Nat) (most? : Option Nat) (few : Bool)
  /-- A piece and right after it another one. -/
  | seq (first second : Pattern)
  /-- Either piece. -/
  | either (left right : Pattern)
deriving DecidableEq

namespace Pattern

/-- The gaps of a text, by the characters before and after them. -/
def gaps (text : List Char) : List (Option Char × Option Char) :=
  (none :: text.map some).zip (text.map some ++ [none])

/-- Apply a function to marks some number of times.  Once the marks stay as they are, nothing
changes any more. -/
def iterate (f : List Bool → List Bool) : Nat → List Bool → List Bool
  | 0, marks => marks
  | count + 1, marks =>
    let next := f marks
    if next = marks then marks else iterate f count next

/-- The marks of either list. -/
def merge (left right : List Bool) : List Bool := List.zipWith (· || ·) left right

/-- Move the marks over the characters that pass a test. -/
def advance (text : List Char) (test : Char → Bool) (marks : List Bool) : List Bool :=
  false :: List.zipWith (fun mark c => mark && test c) marks text

/-- Move the marks over given characters, as long as there are marks. -/
def advanceAll (text : List Char) : List Char → List Bool → List Bool
  | [], marks => marks
  | c :: rest, marks =>
    if marks.contains true then advanceAll text rest (advance text (· == c) marks) else marks

/-- The gaps where a piece may end that starts at a marked gap.

A piece that is repeated either stays at its gap or goes on to a later one.  So after more rounds
than there are gaps a further round leads nowhere new, and no more rounds are made. -/
def follow (text : List Char) : Pattern → List Bool → List Bool
  | empty, marks => marks
  | literal wanted, marks => advanceAll text wanted marks
  | oneOf set _, marks => advance text set.contains marks
  | look condition, marks =>
    List.zipWith (fun mark (before, after) => mark && condition.holds before after) marks
      (gaps text)
  | group _ body, marks => body.follow text marks
  | times body least most? _, marks =>
    let limit := text.length + 1
    let needed := iterate (body.follow text) (min least limit) marks
    let further := match most? with
      | none => limit
      | some most => min (most - least) limit
    iterate (fun marks => merge marks (body.follow text marks)) further needed
  | seq first second, marks => second.follow text (first.follow text marks)
  | either left right, marks => merge (left.follow text marks) (right.follow text marks)

/-- Whether the pattern is found in a text. -/
def foundIn (pattern : Pattern) (text : String) : Bool :=
  (pattern.follow text.toList (List.replicate (text.toList.length + 1) true)).contains true

/-- Whether the pattern has a condition on words of all scripts. -/
def looksAtScripts : Pattern → Bool
  | look (.word _ scripts) => scripts
  | group _ body | times body .. => body.looksAtScripts
  | seq left right | either left right => left.looksAtScripts || right.looksAtScripts
  | _ => false

end Pattern

end ParenC
