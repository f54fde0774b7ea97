/-
Ranges of characters as ranges of bytes.

The characters of a range need not have encodings that form a range in every byte.  So the range
is cut into blocks: within a block all encodings have the same length, and every byte runs over a
range of its own, whatever the other bytes are.
-/
import ParenC.Pattern.CharSet

namespace ParenC.Pattern

/-- The bytes from the first to the last. -/
structure ByteRange where
  first : Nat
  last : Nat
deriving DecidableEq

/-- The code points up to which an encoding has one, two and three bytes. -/
def lengthLimits : List Nat := [0x7f, 0x7ff, 0xffff]

/-- The numbers of code points that share all bytes but the last one, two and three. -/
def blockSizes : List Nat := [0x40, 0x1000, 0x40000]

/-- Where the code points from the first to the last are cut in two: the last one of the first
part. -/
def cut? (first last : Nat) : Option Nat :=
  match lengthLimits.find? fun limit => first ≤ limit && limit < last with
  | some limit => some limit
  | none =>
    if last < 128 then none
    else
      blockSizes.findSome? fun size =>
        if first / size = last / size then none
        else if first % size ≠ 0 then some (first / size * size + size - 1)
        else if last % size ≠ size - 1 then some (last / size * size - 1)
        else none

/-- The blocks of the code points from the first to the last. -/
def blocks (first last : Nat) : List (Nat × Nat) :=
  match cut? first last with
  | none => [(first, last)]
  | some cut =>
    if _h : first ≤ cut ∧ cut < last then blocks first cut ++ blocks (cut + 1) last
    else [(first, last)]
termination_by last - first

/-- The bytes of the code points of a block, byte by byte. -/
def bytesOfBlock (block : Nat × Nat) : List ByteRange :=
  let encode (code : Nat) := String.utf8EncodeChar (Char.ofNat code)
  List.zipWith (fun a b => ⟨a.toNat, b.toNat⟩) (encode block.1) (encode block.2)

/-- The encodings of the characters of a range, as sequences of ranges of bytes. -/
def CharRange.encodings (range : CharRange) : List (List ByteRange) :=
  let first := range.first.toNat
  let last := range.last.toNat
  let parts := if first < 0xe000 && 0xd7ff < last then [(first, 0xd7ff), (0xe000, last)]
    else [(first, last)]
  (parts.flatMap fun (first, last) => if first ≤ last then blocks first last else []).map
    bytesOfBlock

/-- The encodings of the characters of a set, as sequences of ranges of bytes. -/
def CharSet.encodings (set : CharSet) : List (List ByteRange) :=
  set.ranges.flatMap (·.encodings)

end ParenC.Pattern
