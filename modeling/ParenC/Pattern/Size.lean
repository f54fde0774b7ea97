/-
The size of patterns.

Patterns whose automata are too large are not accepted.  An automaton is laid out twice, once to
go through texts from their start and once to go through them from their end.  It reads bytes, so
that a set of characters may need several states, and what the encodings of its characters have in
common is laid out once.
-/
import ParenC.Pattern.Encoding
import ParenC.Pattern.Form
import ParenC.Pattern.Layout
import ParenC.Pattern.Trie

namespace ParenC.Pattern

/-- Which end of a text is the first to be looked at. -/
inductive Direction
  | forward
  | backward
deriving DecidableEq

namespace Trie

/-- The room of a run of edges without an end of a text between them. -/
def runRoom (edges : Nat) : Room :=
  if edges = 0 then {}
  else if edges = 1 then ⟨1, Room.linkBytes⟩
  else ⟨1, Room.edgeBytes * edges + Room.linkBytes⟩

/-- The room of what is behind a node, whose last run has some edges already. -/
def roomBehind (edges : Nat) : Trie → Room
  | bare => runRoom edges
  | stop rest => ((runRoom edges).add ⟨0, Room.linkBytes⟩).add (rest.roomBehind 0)
  | edge _ child rest =>
    let below : Room := if child.isLeaf then {} else (child.roomBehind 0).add ⟨1, 0⟩
    below.add (rest.roomBehind (edges + 1))

/-- The room of a trie. -/
def room (trie : Trie) : Room := (trie.roomBehind 0).add ⟨2, 0⟩

end Trie

/-- Group sequences that start in the same way, as long as they follow each other. -/
def runsOf : List (List ByteRange) → List (ByteRange × List (List ByteRange))
  | [] => []
  | [] :: rest => runsOf rest
  | (range :: tail) :: rest =>
    match runsOf rest with
    | (next, tails) :: others =>
      if range = next then (range, tail :: tails) :: others
      else (range, [tail]) :: (next, tails) :: others
    | [] => [(range, [tail])]

/-- Lay out sequences of at most `limit` bytes that all lead to the target.  What different
sequences end with is used again. -/
def sharedEnds (target : Nat) : Nat → List (List ByteRange) → Recent → Layout (Nat × Recent)
  | 0, _, recent => return (target, recent)
  | limit + 1, sequences, recent => do
    if sequences.all List.isEmpty then return (target, recent)
    let runs := runsOf sequences
    let (thing, recent) ← runs.foldlM (fun (thing, recent) (range, tails) => do
      let (next, recent) ← sharedEnds target limit tails recent
      return (thing ++ [range.first, range.last, next], recent)) ([], recent)
    recent.place thing ⟨1, Room.edgeBytes * runs.length⟩

/-- Lay out a sequence of bytes from its end, in front of a state.  What was laid out in front of
the state before is used again. -/
def sharedStarts (target : Nat) (sequence : List ByteRange) (recent : Recent) :
    Layout (Nat × Recent) :=
  sequence.foldlM (fun (next, recent) range =>
    recent.place [next, range.first, range.last] ⟨1, 0⟩) (target, recent)

namespace Layout

/-- Lay out one character of a set. -/
def oneOf (direction : Direction) (set : CharSet) : Layout Bool := do
  if set.isAscii then
    let _ ← state
    let _ ← choice set.ranges.length
  else
    match direction with
    | .forward =>
      let target ← state
      let _ ← sharedEnds target 4 set.encodings { slots := 10000 }
    | .backward =>
      let _ ← state
      let target ← state
      let _ ← set.encodings.foldlM (fun recent sequence => do
        let (_, recent) ← sharedStarts target sequence recent
        link true
        return recent) { slots := 1000 : Recent }
  return false

end Layout

/-- The encoding of a text. -/
def encode (text : List Char) : List UInt8 := text.flatMap String.utf8EncodeChar

/-- The texts of an alternative that has only literals for branches. -/
def texts? : Pattern → Option (List (List Char))
  | literal text => some [text]
  | either (literal text) rest => do return text :: (← rest.texts?)
  | _ => none

/-- Lay out a pattern with the given branches. -/
def layoutOf (direction : Direction) (pattern : Pattern) (branches : List (Layout Bool)) :
    Layout Bool := do
  match pattern.texts? with
  | some (first :: second :: rest) =>
    let texts := (first :: second :: rest).map fun text =>
      match direction with
      | .forward => encode text
      | .backward => (encode text).reverse
    let _ ← Layout.take (Trie.ofTexts texts).room
    return false
  | _ => Layout.alternatives branches

/-- The branches of a pattern, as they are laid out. -/
def layouts (direction : Direction) : Pattern → List (Layout Bool)
  | empty | look _ => [do let _ ← Layout.state; return false]
  | literal text => [do let _ ← Layout.take ⟨(encode text).length, 0⟩; return false]
  | oneOf set _ => [Layout.oneOf direction set]
  | group _ body =>
    let inner := layoutOf direction body (body.layouts direction)
    match direction with
    | .backward => [inner]
    | .forward => [do
      let _ ← Layout.state
      let isFork ← inner
      let _ ← Layout.state
      Layout.link isFork
      return false]
  | times body least most? _ =>
    let once := layoutOf direction body (body.layouts direction)
    [Layout.repetition once (body.leastLength?.any (0 < ·)) least most?]
  | seq first second =>
    let left := layoutOf direction first (first.layouts direction)
    let right := layoutOf direction second (second.layouts direction)
    match direction with
    | .forward => [Layout.chain left right]
    | .backward => [Layout.chain right left]
  | either left right =>
    layoutOf direction left (left.layouts direction) :: right.layouts direction

/-- Lay out the automaton of a pattern.  Unless pieces are only found at the end of a text where
the automaton starts, it first goes over bytes in a loop.  Forward, the whole piece is a group of
its own. -/
def automaton (direction : Direction) (pattern : Pattern) : Layout Unit := do
  let isBound := match direction with
    | .forward => pattern.startsText
    | .backward => pattern.endsText
  let _ ← Layout.take (if isBound then ⟨1, 0⟩ else ⟨3, Room.edgeBytes + Room.linkBytes⟩)
  if direction = .forward then let _ ← Layout.state
  let isFork ← layoutOf direction pattern (pattern.layouts direction)
  if direction = .forward then let _ ← Layout.state
  let _ ← Layout.state
  Layout.link isFork
  Layout.link !isBound

/-- Whether the automaton of a pattern is not too large. -/
def fits (direction : Direction) (pattern : Pattern) : Bool :=
  ((pattern.automaton direction).run {}).isSome

end ParenC.Pattern
