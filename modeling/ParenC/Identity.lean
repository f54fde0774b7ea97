/-
Names for entries of the type table and of the symbol table.

Both tables hand out their entries in order of creation, and an entry keeps its number for
ever.  Types and symbols are numbered apart, so the two kinds of number are kept apart as well.
-/

namespace ParenC

/-- The number of an entry of the type table. -/
structure TypeId where
  /-- The number of types registered before it. -/
  index : Nat
deriving DecidableEq

/-- The number of an entry of the symbol table. -/
structure SymbolId where
  /-- The number of symbols declared before it. -/
  index : Nat
deriving DecidableEq

/-- The number with its table, as the log shows it. -/
def TypeId.text (id : TypeId) : String := "TypeId(" ++ toString id.index ++ ")"

/-- The number with its table, as the log shows it. -/
def SymbolId.text (id : SymbolId) : String := "SymbolId(" ++ toString id.index ++ ")"

end ParenC
