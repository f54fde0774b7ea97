/-
Sets of characters.

A set is a list of ranges.  The ranges stand in order, and their code points do not touch.  There
are no characters between `U+D7FF` and `U+E000`, so these two follow each other although their
code points are apart.
-/

namespace ParenC.Pattern

/-- The last of all characters. -/
def lastChar : Char := Char.ofNat 0x10ffff

/-- The character that follows; the last one is followed by none. -/
def following (c : Char) : Char :=
  Char.ofNat (if c.toNat = 0xd7ff then 0xe000 else c.toNat + 1)

/-- The character that precedes; the first one is preceded by none. -/
def preceding (c : Char) : Char :=
  Char.ofNat (if c.toNat = 0xe000 then 0xd7ff else c.toNat - 1)

/-- The character that comes first. -/
def earlier (a b : Char) : Char := if a ≤ b then a else b

/-- The character that comes last. -/
def later (a b : Char) : Char := if a ≤ b then b else a

theorem earlier_le_left (a b : Char) : earlier a b ≤ a := by
  unfold earlier
  split
  · exact Char.le_refl a
  · rename_i h
    exact (Char.le_total a b).resolve_left h

theorem le_later_left (a b : Char) : a ≤ later a b := by
  unfold later
  split
  · assumption
  · exact Char.le_refl a

/-- The characters from the first to the last; there is at least one. -/
structure CharRange where
  first : Char
  last : Char
  ordered : first ≤ last
deriving DecidableEq

namespace CharRange

/-- The characters between two, whichever of them comes first. -/
def between (a b : Char) : CharRange where
  first := earlier a b
  last := later a b
  ordered := Char.le_trans (earlier_le_left a b) (le_later_left a b)

/-- Whether a character lies in the range. -/
def contains (range : CharRange) (c : Char) : Bool := range.first ≤ c && c ≤ range.last

/-- The least range around two. -/
def hull (left right : CharRange) : CharRange where
  first := earlier left.first right.first
  last := later left.last right.last
  ordered := Char.le_trans (Char.le_trans (earlier_le_left _ _) left.ordered) (le_later_left _ _)

/-- The characters of both ranges. -/
def inter? (left right : CharRange) : Option CharRange :=
  let first := later left.first right.first
  let last := earlier left.last right.last
  if ordered : first ≤ last then some { first, last, ordered } else none

/-- The characters of the first range that are not in the second. -/
def diff (left right : CharRange) : List CharRange :=
  if (left.inter? right).isNone then [left]
  else
    (if left.first < right.first then [between left.first (preceding right.first)] else []) ++
      if right.last < left.last then [between (following right.last) left.last] else []

/-- The part of the range between two characters, moved by some code points. -/
def moved (range : CharRange) (first last : Char) (move : Nat → Nat) : Option CharRange :=
  (range.inter? (between first last)).map fun part =>
    between (Char.ofNat (move part.first.toNat)) (Char.ofNat (move part.last.toNat))

end CharRange

/-- A set of characters. -/
structure CharSet where
  /-- The ranges of the set, in order. -/
  ranges : List CharRange
deriving DecidableEq

namespace CharSet

/-- No character. -/
def empty : CharSet := ⟨[]⟩

/-- All characters. -/
def any : CharSet := ⟨[.between '\x00' lastChar]⟩

/-- Whether a character belongs to the set. -/
def contains (set : CharSet) (c : Char) : Bool := set.ranges.any (·.contains c)

/-- Put a range among ranges, and join it with those that it touches. -/
def insertRange (range : CharRange) : List CharRange → List CharRange
  | [] => [range]
  | next :: rest =>
    if range.last.toNat + 1 < next.first.toNat then range :: next :: rest
    else if next.last.toNat + 1 < range.first.toNat then next :: insertRange range rest
    else insertRange (range.hull next) rest

/-- The union of ranges. -/
def ofRanges (ranges : List CharRange) : CharSet :=
  ⟨ranges.foldl (fun ranges range => insertRange range ranges) []⟩

/-- The set of one character. -/
def single (c : Char) : CharSet := ⟨[⟨c, c, Char.le_refl c⟩]⟩

/-- The characters of either set. -/
def union (left right : CharSet) : CharSet :=
  ⟨right.ranges.foldl (fun ranges range => insertRange range ranges) left.ranges⟩

/-- The characters of both sets. -/
def inter (left right : CharSet) : CharSet :=
  ⟨left.ranges.flatMap fun range => right.ranges.filterMap range.inter?⟩

/-- The characters of the first set that are not in the second. -/
def diff (left right : CharSet) : CharSet :=
  ⟨left.ranges.flatMap fun range =>
    right.ranges.foldl (fun parts other => parts.flatMap (·.diff other)) [range]⟩

/-- The characters of exactly one set. -/
def symmDiff (left right : CharSet) : CharSet :=
  (left.union right).diff (left.inter right)

/-- The ranges behind a character that are left out by the given ones. -/
def rangesBehind (c : Char) : List CharRange → List CharRange
  | [] => if c < lastChar then [.between (following c) lastChar] else []
  | range :: rest =>
    .between (following c) (preceding range.first) :: rangesBehind range.last rest

/-- Everything else.  There is no character between `U+D7FF` and `U+E000`; where a set ends with
the one and goes on with the other, these two are taken for the gap. -/
def compl (set : CharSet) : CharSet :=
  match set.ranges with
  | [] => any
  | range :: rest =>
    ⟨(if '\x00' < range.first then [.between '\x00' (preceding range.first)] else []) ++
      rangesBehind range.last rest⟩

/-- The characters of the set, and the letters of ASCII that only differ from them in case. -/
def anyCase (set : CharSet) : CharSet :=
  set.union (ofRanges (set.ranges.flatMap fun range =>
    (range.moved 'a' 'z' (· - 32)).toList ++ (range.moved 'A' 'Z' (· + 32)).toList))

/-- Whether all characters of the set are of ASCII. -/
def isAscii (set : CharSet) : Bool := set.ranges.all (·.last.toNat < 128)

/-- The only character of the set, if it has only one. -/
def only? (set : CharSet) : Option Char :=
  match set.ranges with
  | [range] => if range.first = range.last then some range.first else none
  | _ => none

/-- The digits of ASCII. -/
def digit : CharSet := ⟨[.between '0' '9']⟩

/-- The white space of ASCII. -/
def blank : CharSet := ⟨[.between '\t' '\r', .between ' ' ' ']⟩

/-- The characters of ASCII that words are written with. -/
def word : CharSet := ⟨[.between '0' '9', .between 'A' 'Z', .between '_' '_', .between 'a' 'z']⟩

/-- The sets that have a name. -/
def named? (name : String) : Option CharSet :=
  [("alnum", ⟨[.between '0' '9', .between 'A' 'Z', .between 'a' 'z']⟩),
    ("alpha", ⟨[.between 'A' 'Z', .between 'a' 'z']⟩),
    ("ascii", ⟨[.between '\x00' '\x7f']⟩),
    ("blank", ⟨[.between '\t' '\t', .between ' ' ' ']⟩),
    ("cntrl", ⟨[.between '\x00' '\x1f', .between '\x7f' '\x7f']⟩),
    ("digit", digit),
    ("graph", ⟨[.between '!' '~']⟩),
    ("lower", ⟨[.between 'a' 'z']⟩),
    ("print", ⟨[.between ' ' '~']⟩),
    ("punct", ⟨[.between '!' '/', .between ':' '@', .between '[' '\x60', .between '\x7b' '~']⟩),
    ("space", blank),
    ("upper", ⟨[.between 'A' 'Z']⟩),
    ("word", word),
    ("xdigit", ⟨[.between '0' '9', .between 'A' 'F', .between 'a' 'f']⟩)].lookup name

end CharSet

end ParenC.Pattern
