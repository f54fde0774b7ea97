/-
Binary operators.

There are three families.  An assignment stores its right operand, an arithmetic operator has
the type of its operands, and a comparison is a boolean.
-/

namespace ParenC

/-- Operators whose result has the type of their operands. -/
inductive ArithOp
  | add
  | sub
  | mul
  | div
  | mod
deriving DecidableEq

/-- Operators whose result is a boolean. -/
inductive CompareOp
  | eq
  | ne
  | le
  | lt
  | ge
  | gt
deriving DecidableEq

/-- An operator between two operands. -/
inductive BinOp
  /-- Store the right operand in the left one. -/
  | assign
  /-- Compute with the operands. -/
  | arith (op : ArithOp)
  /-- Compare the operands. -/
  | compare (op : CompareOp)
deriving DecidableEq

/-- The name of the operator in a dump of the tree. -/
def ArithOp.name : ArithOp → String
  | add => "Add"
  | sub => "Sub"
  | mul => "Mul"
  | div => "Div"
  | mod => "Mod"

/-- The name of the operator in a dump of the tree. -/
def CompareOp.name : CompareOp → String
  | eq => "Eq"
  | ne => "Ne"
  | le => "Le"
  | lt => "Lt"
  | ge => "Ge"
  | gt => "Gt"

namespace BinOp

/-- Every operator with the text that a program writes for it. -/
def table : List (String × BinOp) :=
  [(":=", assign), ("+", arith .add), ("-", arith .sub), ("*", arith .mul), ("/", arith .div),
    ("%", arith .mod), ("==", compare .eq), ("!=", compare .ne), ("<=", compare .le),
    ("<", compare .lt), (">=", compare .ge), (">", compare .gt)]

/-- The operator with the given text. -/
def ofText? (text : String) : Option BinOp := table.lookup text

/-- The name of the operator on one line. -/
def name : BinOp → String
  | assign => "Assign"
  | arith op => "Arith(" ++ op.name ++ ")"
  | compare op => "Compare(" ++ op.name ++ ")"

end BinOp

end ParenC
