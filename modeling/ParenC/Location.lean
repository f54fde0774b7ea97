/-
Places in a source text.

Tokens, tree nodes and findings all carry the place of their first character.  Lines and
columns count from one, and columns count bytes.  Both are counted in words of 32 bits, which
start again from zero; only a text of four gigabytes gets that far.  (A build that checks its
sums stops there instead.)
-/

namespace ParenC

/-- A line and a column of the source text. -/
structure Location where
  /-- The number of line breaks before the place, plus one, as a counter holds it. -/
  line : Nat
  /-- The number of bytes between the last line break and the place, plus one, as a counter holds
  it. -/
  column : Nat
deriving DecidableEq

namespace Location

/-- The first character of a text. -/
def start : Location := ⟨1, 1⟩

/-- The place of something that no text holds. -/
def nowhere : Location := ⟨0, 0⟩

/-- The number of lines, and of columns, that a counter tells apart. -/
def counterRange : Nat := 4294967296

/-- What counters hold of a place. -/
def counted (loc : Location) : Location := ⟨loc.line % counterRange, loc.column % counterRange⟩

/-- The first character of the following line. -/
def nextLine (loc : Location) : Location := counted ⟨loc.line + 1, 1⟩

/-- The place `width` bytes further along the same line. -/
def right (loc : Location) (width : Nat) : Location := counted ⟨loc.line, loc.column + width⟩

/-- Line and column with a colon between them, as messages show them. -/
def text (loc : Location) : String := toString loc.line ++ ":" ++ toString loc.column

end Location

end ParenC
