/-
Broken promises inside the compiler.

A defect is not a fault of the program that is compiled: it says that one part of the compiler
was handed something that the parts before it never produce.  Operations that rely on such a
promise name the defect they meet when it does not hold.
-/
import ParenC.Identity
import ParenC.Location
import ParenC.Text

namespace ParenC

/-- A promise between parts of the compiler that does not hold. -/
inductive Defect
  /-- The type table has no such entry. -/
  | invalidType (id : TypeId)
  /-- The symbol table has no such entry. -/
  | invalidSymbol (id : SymbolId)
  /-- Only the global scope is open, and it is never closed. -/
  | closingGlobalScope
  /-- Scopes were opened and not closed again, or the other way round. -/
  | unbalancedScopes
  /-- The type of the symbol is not known yet. -/
  | untypedSymbol (name : String)
  /-- The symbol has no place in a frame. -/
  | unplacedSymbol (name : String)
  /-- A symbol was to become a symbol of another sort. -/
  | sortChanged (id : SymbolId)
  /-- Something was to start at a multiple of zero. -/
  | zeroAlignment
  /-- No word holds a sum of sizes. -/
  | sumOverflow
  /-- No word holds a multiple of an alignment. -/
  | productOverflow
  /-- A function stands in the tree without a symbol. -/
  | namelessFunction (loc : Location)
  /-- A function stands where a statement is expected. -/
  | nestedFunction (loc : Location)
  /-- A call stands in the tree without a symbol. -/
  | callWithoutCallee (loc : Location)
  /-- Something other than a variable is read from or stored to. -/
  | notVariable (loc : Location)
  /-- Something other than an expression stands where a value is expected. -/
  | notExpression (loc : Location)
  /-- A value was to be taken from the stack of a function that has left none there. -/
  | emptyStack
  /-- A statement of a function left values on the stack. -/
  | leftoverValues
deriving DecidableEq

/-- The text that reports the defect. -/
def Defect.message : Defect → String
  | invalidType id => "invalid type id " ++ id.text
  | invalidSymbol id => "invalid symbol id " ++ id.text
  | closingGlobalScope => "popping the global scope"
  | unbalancedScopes => "assertion `left == right` failed: unbalanced scope stack"
  | untypedSymbol name => "symbol '" ++ name ++ "' used before its type was set"
  | unplacedSymbol name => "symbol '" ++ name ++ "' has no frame offset"
  | sortChanged id => "assertion `left == right` failed: symbol tag changed for " ++ id.text
  | zeroAlignment => "attempt to divide by zero"
  | sumOverflow => "attempt to add with overflow"
  | productOverflow => "attempt to multiply with overflow"
  | namelessFunction loc => "function at " ++ loc.text ++ " has no symbol"
  | nestedFunction loc => "function at " ++ loc.text ++ " is nested in another function"
  | callWithoutCallee loc => "call at " ++ loc.text ++ " has no callee"
  | notVariable loc => "node at " ++ loc.text ++ " is not a variable"
  | notExpression loc => "node at " ++ loc.text ++ " is not an expression"
  | emptyStack => "attempt to subtract with overflow"
  | leftoverValues => "assertion `left == right` failed: statement left values on the stack"

/-- The first line of the text that reports the defect. -/
def Defect.headline (defect : Defect) : String := Text.firstLine defect.message

end ParenC
