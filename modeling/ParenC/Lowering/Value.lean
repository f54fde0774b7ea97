/-
Code for values.

The code of an expression pushes one value of eight bytes.  Operands are computed first, the
right one before the left one, and popped by the operator.  Arguments are popped into their
registers one by one; those loaded so far are saved on the stack while a later argument needs
the registers itself.

While code is emitted, the values that it leaves on the stack of the function are counted.
Before a call the stack is padded to an even number of values, because the callee expects it to
be aligned.
-/
import ParenC.Lowering.Basic

namespace ParenC

/-- The value of a literal as a number. -/
def IntegerValue.toInt : IntegerValue → Int
  | signed value => value
  | unsigned value => value

/-- The literal as a signed number of 64 bits with the same bit pattern. -/
def IntegerValue.word (value : IntegerValue) : Int := value.toInt.bmod wordCount

/-- The number of values of 32 bits that are negative: two to the power of 31. -/
def halfSignCount : Int := 0x80000000

/-- Whether the literal is the sign extension of a number of 32 bits. -/
def IntegerValue.fitsHalf (value : IntegerValue) : Bool :=
  -halfSignCount ≤ value.toInt && value.toInt < halfSignCount

namespace Lowering

/-! ## The stack -/

/-- Emit code, counting the values that the code emitted so far leaves on the stack of the
function. -/
abbrev Emitting := StateT Nat Lowered

/-- Push a value. -/
def push (src : Operand) : Emitting (List Instr) := do
  modify (· + 1)
  return [.pushq src]

/-- Push the value in `%rax`. -/
def pushResult : Emitting (List Instr) := push (.reg .rax)

/-- Pop a value; there has to be one. -/
def pop (dst : Reg) : Emitting (List Instr) := do
  match ← get with
  | 0 => throw (.defect .emptyStack)
  | depth + 1 =>
    set depth
    return [.popq dst]

/-- Push the values in several registers, one after the other. -/
def pushAll : List Reg → Emitting (List Instr)
  | [] => return []
  | reg :: rest => do return (← push (.reg reg)) ++ (← pushAll rest)

/-- Pop values into several registers, one after the other. -/
def popAll : List Reg → Emitting (List Instr)
  | [] => return []
  | reg :: rest => do return (← pop reg) ++ (← popAll rest)

/-! ## Operations on values -/

/-- Code for a literal. -/
def literal (value : IntegerValue) : Emitting (List Instr) := do
  if value.fitsHalf then push (.imm value.word)
  else return .movabsq value.word .rax :: (← pushResult)

/-- Code that divides `%rax` by `%rdi`: quotient to `%rax`, remainder to `%rdx`. -/
def division (unsigned : Bool) : List Instr :=
  if unsigned then [.xorl .rdx .rdx, .divq .rdi] else [.cqto, .idivq .rdi]

/-- Code for an arithmetic operator, its left operand in `%rax` and its right one in `%rdi`. -/
def arithmetic (unsigned : Bool) : ArithOp → Emitting (List Instr)
  | .add => return .addq (.reg .rdi) .rax :: (← pushResult)
  | .sub => return .subq (.reg .rdi) .rax :: (← pushResult)
  | .mul => return .imulq .rdi .rax :: (← pushResult)
  | .div => return division unsigned ++ (← pushResult)
  | .mod => return division unsigned ++ (← push (.reg .rdx))

/-- What a comparison of the given signedness asks for. -/
def condition (unsigned : Bool) : CompareOp → Condition
  | .eq => .equal
  | .ne => .notEqual
  | .lt => if unsigned then .below else .less
  | .le => if unsigned then .belowEqual else .lessEqual
  | .gt => if unsigned then .above else .greater
  | .ge => if unsigned then .aboveEqual else .greaterEqual

/-- Code for a comparison, its left operand in `%rax` and its right one in `%rdi`. -/
def comparison (unsigned : Bool) (op : CompareOp) : Emitting (List Instr) :=
  return [.xorq .rsi .rsi, .cmpq (.reg .rdi) .rax, .set (condition unsigned op) .rsi] ++
    (← push (.reg .rsi))

/-- Code for a call whose arguments are in their registers. -/
def callCode (name : String) (returnsBool : Bool) : Emitting (List Instr) := do
  let padded := (← get) % 2 = 1
  return (if padded then [.subq (.imm 8) .rsp] else []) ++
    [.movq (.imm 0) (.reg .rax), .call name] ++
    (if padded then [.addq (.imm 8) .rsp] else []) ++
    (if returnsBool then [.movzbq (.reg .rax) .rax] else []) ++
    (← pushResult)

/-- Code that turns the value on the stack into a boolean. -/
def toBool : Emitting (List Instr) := do
  let taken ← pop .rax
  let result ← pushResult
  return taken ++ [.cmpq (.imm 0) .rax, .set .notEqual .rax, .movzbq (.reg .rax) .rax] ++ result

/-- Whether an operator with the given left operand works on unsigned values. -/
def isUnsigned (tables : Tables) (lhs : Node) : Except Defect Bool := do
  tables.types.isUnsigned (← lhs.type tables.symbols)

mutual

/-- Code that pushes the value of an expression. -/
def value (tables : Tables) (node : Node) : Emitting (List Instr) :=
  match node with
  | .integer _ v => literal v
  | .boolean _ b => push (.imm (if b then 1 else 0))
  | .varRef .. | .varDecl .. => do
    let source ← storage tables node
    return source.load :: (← pushResult)
  | .binary _ .assign lhs rhs => do
    let code ← value tables rhs
    let taken ← pop .rax
    let target ← storage tables lhs
    return code ++ taken ++ [target.store .rax] ++ (← pushResult)
  | .binary _ (.arith op) lhs rhs => do
    let right ← value tables rhs
    let left ← value tables lhs
    let taken ← popAll [.rax, .rdi]
    let unsigned ← promised (isUnsigned tables lhs)
    return right ++ left ++ taken ++ (← arithmetic unsigned op)
  | .binary _ (.compare op) lhs rhs => do
    let right ← value tables rhs
    let left ← value tables lhs
    let taken ← popAll [.rax, .rdi]
    let unsigned ← promised (isUnsigned tables lhs)
    return right ++ left ++ taken ++ (← comparison unsigned op)
  | .call loc callee? args =>
    match callee? with
    | none => throw (.defect (.callWithoutCallee loc))
    | some callee => do
      let loading ← arguments tables [] Reg.arguments args
      let symbol ← promised (tables.symbols.get callee)
      let result ← promised (do tables.types.resolve (← symbol.type))
      return loading ++ (← callCode symbol.name (result = Builtin.bool.id))
  | .cast _ target operand => do
    let code ← value tables operand
    let goal ← promised (tables.types.resolve target)
    let source ← promised (operand.deepType tables)
    if goal = Builtin.bool.id && source ≠ Builtin.bool.id then return code ++ (← toBool)
    else return code
  | _ => throw (.defect (.notExpression node.location))
termination_by structural node

/-- Code that loads arguments into the `free` registers while the `used` ones keep theirs. -/
def arguments (tables : Tables) (used free : List Reg) (args : List Node) :
    Emitting (List Instr) :=
  match args with
  | [] => return []
  | arg :: rest =>
    match free with
    | [] => throw (.limit arg.location .stackArgument)
    | reg :: free => do
      let saved := if arg.isLeaf then [] else used
      let saving ← pushAll saved
      let code ← value tables arg
      let taken ← pop reg
      let restoring ← popAll saved.reverse
      let others ← arguments tables (used ++ [reg]) free rest
      return saving ++ code ++ taken ++ restoring ++ others
termination_by structural args

end

end Lowering

end ParenC
