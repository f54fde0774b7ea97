/-
What can be wrong with a program whose parentheses and keywords are in order.

A complaint is recorded and reading goes on, so that one run shows as many of them as possible.
-/

namespace ParenC

/-- A recoverable finding of reading. -/
inductive Complaint
  /-- The name means nothing here. -/
  | undeclared (name : String)
  /-- The name means something that cannot be read from or stored to. -/
  | notVariable (name : String)
  /-- The variable is not in the frame of the function that mentions it. -/
  | foreignVariable (name : String)
  /-- The name at the head of a list means a variable. -/
  | notCallable (name : String)
  /-- The name does not mean a type. -/
  | undeclaredType (name : String)
  /-- The scope already has a declaration of the name. -/
  | redeclared (name : String)
  /-- The struct already has a field of the name. -/
  | duplicateField (name : String)
  /-- An operator does not have two operands. -/
  | operandCount (op : String) (count : Nat)
  /-- A cast does not have one operand. -/
  | castOperandCount (count : Nat)
  /-- A function is defined inside another one. -/
  | nestedFunction (name : String)
  /-- A function is defined inside a scope of the top level. -/
  | scopedFunction (name : String)
  /-- Nothing is there to return from. -/
  | returnOutside
  /-- No condition is there for the alternative. -/
  | strayElse
  /-- The program both defines its entry point and has statements to run. -/
  | mainAndStatements
deriving DecidableEq

/-- The text that reports the complaint. -/
def Complaint.message : Complaint → String
  | undeclared name => "'" ++ name ++ "' is not declared"
  | notVariable name => "'" ++ name ++ "' is not a variable"
  | foreignVariable name => "variable '" ++ name ++ "' belongs to another function's frame"
  | notCallable name => "'" ++ name ++ "' is not a function or a type"
  | undeclaredType name => "type '" ++ name ++ "' is not declared"
  | redeclared name => "'" ++ name ++ "' is already declared in this scope"
  | duplicateField name => "duplicate field '" ++ name ++ "' in struct"
  | operandCount op count => "'" ++ op ++ "' expects 2 operands, got " ++ toString count
  | castOperandCount count => "cast expects 1 operand, got " ++ toString count
  | nestedFunction name => "function '" ++ name ++ "' is nested in another function"
  | scopedFunction name => "function '" ++ name ++ "' must be defined at top level"
  | returnOutside => "'return' outside of a function"
  | strayElse => "'else' without a matching 'if'"
  | mainAndStatements => "'main' is defined while top-level statements are present"

end ParenC
