/-
Tries of texts.

The texts of an alternative are kept in a trie, so that what several of them start with is kept
once.  The order of the texts stays visible: where a text ends, the edges that are there already
are closed, and texts that are put in later get edges of their own.
-/

namespace ParenC.Pattern

/-- A node of a trie: its edges, and the places among them where texts end.  What was put in last
stands first. -/
inductive Trie
  /-- There is nothing. -/
  | bare
  /-- An edge for a byte, the node that it leads to, and everything else. -/
  | edge (byte : UInt8) (child rest : Trie)
  /-- A text ends here, and what was there before. -/
  | stop (rest : Trie)

namespace Trie

/-- Change the node behind the edge for a byte, which need not be there before. -/
def follow (change : Trie → Trie) (byte : UInt8) : Trie → Trie
  | edge other child rest =>
    if other = byte then edge other (change child) rest
    else edge other child (rest.follow change byte)
  | bare => edge byte (change bare) bare
  | stop rest => edge byte (change bare) (stop rest)

/-- Put in a text.  Where nothing goes on, one end is as good as several. -/
def insert : List UInt8 → Trie → Trie
  | [], stop bare => stop bare
  | [], trie => stop trie
  | byte :: rest, trie => trie.follow (insert rest) byte

/-- Whether no text goes on. -/
def isLeaf : Trie → Bool
  | bare => true
  | edge .. => false
  | stop rest => rest.isLeaf

/-- The trie of texts. -/
def ofTexts (texts : List (List UInt8)) : Trie :=
  texts.foldl (fun trie text => trie.insert text) bare

end Trie

end ParenC.Pattern
