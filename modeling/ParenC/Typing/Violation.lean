/-
The ways in which a node breaks the typing rules.
-/
import ParenC.Types

namespace ParenC

/-- A broken typing rule. -/
inductive Violation
  /-- The left operand has no value. -/
  | voidLeft
  /-- The right operand has no value. -/
  | voidRight
  /-- The operands have different types. -/
  | operandMismatch (lhs rhs : TypeId)
  /-- The operands are structs. -/
  | structOperands (type : TypeId)
  /-- A value is stored to something that is not a variable. -/
  | notStorage
  /-- An argument without a value is passed to a function without a signature. -/
  | voidArgument (callee : String)
  /-- A call has too many or too few arguments. -/
  | argumentCount (got expected : List TypeId)
  /-- The arguments of a call do not have the types of the parameters. -/
  | argumentTypes (callee : String) (got expected : List TypeId)
  /-- A condition is not a boolean, or a result is not of the type that the function returns. -/
  | unexpectedType (got expected : TypeId)
  /-- A value is turned into a struct. -/
  | castTarget (type : TypeId)
  /-- Something without a value is turned into a value. -/
  | castSource (type : TypeId)
  /-- A variable has a type without values. -/
  | voidVariable (type : TypeId)
  /-- A parameter does not fit into a register. -/
  | parameterType (param function : String) (type : TypeId)
  /-- A result does not fit into a register. -/
  | resultType (function : String) (type : TypeId)
deriving DecidableEq

/-- The texts of several types, in parentheses. -/
def TypeTable.describeAll (types : TypeTable) (ids : List TypeId) : Except Defect String := do
  return "(" ++ " ".intercalate (← ids.mapM types.describe) ++ ")"

/-- The text that reports the violation. -/
def Violation.message (types : TypeTable) : Violation → Except Defect String
  | voidLeft => do return "lvalue is of type " ++ (← types.describe Builtin.void.id)
  | voidRight => do return "rvalue is of type " ++ (← types.describe Builtin.void.id)
  | operandMismatch lhs rhs => do
    return "operand type mismatch: lvalue " ++ (← types.describe lhs) ++ ", rvalue " ++
      (← types.describe rhs)
  | structOperands type => do
    return "operands of type " ++ (← types.describe type) ++ " are not scalars"
  | notStorage => return "lvalue is not a storage location"
  | voidArgument callee => do
    return "argument of type " ++ (← types.describe Builtin.void.id) ++ " passed to '" ++
      callee ++ "'"
  | argumentCount got expected => do
    return "expected " ++ toString expected.length ++ " arguments, got " ++
      toString got.length ++ ": got " ++ (← types.describeAll got) ++ ", expected " ++
      (← types.describeAll expected)
  | argumentTypes callee got expected => do
    return "mismatched types in call to '" ++ callee ++ "': got " ++
      (← types.describeAll got) ++ ", expected " ++ (← types.describeAll expected)
  | unexpectedType got expected => do
    return "expected type " ++ (← types.describe expected) ++ ", got " ++ (← types.describe got)
  | castTarget type => do return "can't cast to type " ++ (← types.describe type)
  | castSource type => do return "can't cast from type " ++ (← types.describe type)
  | voidVariable type => do return "variable of type " ++ (← types.describe type)
  | parameterType param function type => do
    return "parameter '" ++ param ++ "' of '" ++ function ++ "' has non-scalar type " ++
      (← types.describe type)
  | resultType function type => do
    return "'" ++ function ++ "' returns non-scalar type " ++ (← types.describe type)

end ParenC
