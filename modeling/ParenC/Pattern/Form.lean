/-
Putting patterns together.

The functions here build patterns in a simple form: no sequence stands first in a sequence, no
alternative stands left in an alternative, characters that stand one after the other are one
literal, and single characters that are alternatives are one set.  A sequence is then the list of
its parts, and an alternative is the list of its branches.
-/
import ParenC.Pattern.Basic

namespace ParenC.Pattern

/-- Whether the pattern only finds pieces without characters. -/
def onlyEmpty : Pattern → Bool
  | empty | look _ => true
  | literal _ | oneOf .. => false
  | group _ body => body.onlyEmpty
  | times body _ most? _ => body.onlyEmpty && most?.isSome
  | seq first second => first.onlyEmpty && second.onlyEmpty
  | either left right => left.onlyEmpty && right.onlyEmpty

/-- A lower bound on the number of characters of a piece.  There is none where nothing is
found. -/
def leastLength? : Pattern → Option Nat
  | empty | look _ => some 0
  | literal text => some text.length
  | oneOf set _ => if set.ranges.isEmpty then none else some 1
  | group _ body => body.leastLength?
  | times body least _ _ => body.leastLength?.map (· * least)
  | seq first second => do return (← first.leastLength?) + (← second.leastLength?)
  | either left right => do return min (← left.leastLength?) (← right.leastLength?)

/-- Whether pieces are only found at the start of the text. -/
def startsText : Pattern → Bool
  | look .textStart => true
  | group _ body => body.startsText
  | times body least _ _ => 0 < least && body.startsText
  | seq first second => first.startsText || (first.onlyEmpty && second.startsText)
  | either left right => left.startsText && right.startsText
  | _ => false

/-- Whether pieces are only found at the end of the text. -/
def endsText : Pattern → Bool
  | look .textEnd => true
  | group _ body => body.endsText
  | times body least _ _ => 0 < least && body.endsText
  | seq first second => second.endsText || (second.onlyEmpty && first.endsText)
  | either left right => left.endsText && right.endsText
  | _ => false

/-- One character of a set. -/
def ofSet (set : CharSet) (bytes : Bool) : Pattern :=
  match set.only? with
  | some c => literal [c]
  | none => oneOf set (bytes || set.ranges.isEmpty)

/-- Pieces of a pattern one right after the other.  What only finds pieces without characters
needs no repetition. -/
def repeated (body : Pattern) (least : Nat) (most? : Option Nat) (few : Bool) : Pattern :=
  let (least, most?) :=
    if body.onlyEmpty then (min least 1, some (min (most?.getD 1) 1)) else (least, most?)
  if least = 0 && most? = some 0 then empty
  else if least = 1 && most? = some 1 then body
  else times body least most? few

/-- The parts of a sequence. -/
def parts : Pattern → List Pattern
  | empty => []
  | seq first second => first :: second.parts
  | pattern => [pattern]

/-- The branches of an alternative. -/
def branches : Pattern → List Pattern
  | either left right => left :: right.branches
  | pattern => [pattern]

/-- Put a part before others; two literals become one. -/
def consPart (part : Pattern) (rest : List Pattern) : List Pattern :=
  match part, rest with
  | literal text, literal more :: rest => literal (text ++ more) :: rest
  | _, _ => part :: rest

/-- The sequence of parts. -/
def ofParts : List Pattern → Pattern
  | [] => empty
  | [part] => part
  | part :: rest => seq part (ofParts rest)

/-- The alternative of branches. -/
def ofBranches : List Pattern → Pattern
  | [] => ofSet .empty true
  | [branch] => branch
  | branch :: rest => either branch (ofBranches rest)

/-- Patterns one right after the other. -/
def join (patterns : List Pattern) : Pattern :=
  ofParts ((patterns.flatMap parts).foldr consPart [])

/-- The set of the given patterns, if each of them is a single character. -/
def singles? (patterns : List Pattern) : Option CharSet :=
  patterns.foldlM (fun set pattern =>
    match pattern with
    | literal [c] => some (set.union (.single c))
    | _ => none) .empty

/-- The union of the given patterns, if each of them is a set of characters. -/
def sets? (patterns : List Pattern) : Option CharSet :=
  patterns.foldlM (fun set pattern =>
    match pattern with
    | oneOf other _ => some (set.union other)
    | _ => none) .empty

/-- What two lists have in common at their start. -/
def commonStart : List Pattern → List Pattern → List Pattern
  | a :: as, b :: bs => if a = b then a :: commonStart as bs else []
  | _, _ => []

/-- The parts with which all patterns start, if all of them are sequences. -/
def commonParts : List Pattern → List Pattern
  | [] => []
  | first :: rest =>
    if (first :: rest).all (1 < ·.parts.length) then
      rest.foldl (fun common pattern => commonStart common pattern.parts) first.parts
    else []

/-- The alternative of patterns.  Parts with which all branches start are taken out, and what is
behind them is simplified again, but at most `limit` times. -/
def chooseWithin : Nat → List Pattern → Pattern
  | 0, patterns => ofBranches (patterns.flatMap branches)
  | limit + 1, patterns =>
    let all := patterns.flatMap branches
    if all.length < 2 then ofBranches all
    else
      match (singles? all).or (sets? all), commonParts all with
      | some set, _ => ofSet set false
      | none, [] => ofBranches all
      | none, common =>
        let rests := all.map fun branch => join (branch.parts.drop common.length)
        join (common ++ [chooseWithin limit rests])

/-- The number of pieces that a pattern is put together from. -/
def weight : Pattern → Nat
  | group _ body | times body .. => body.weight + 1
  | seq left right | either left right => left.weight + right.weight + 1
  | _ => 1

/-- The alternative of patterns. -/
def choose (patterns : List Pattern) : Pattern :=
  chooseWithin (patterns.foldl (fun total pattern => total + pattern.weight) 0) patterns

end ParenC.Pattern
