/-
Assembly code for x86-64.

Only the registers, operands and instructions that the compiler emits are here.  A routine is a
sequence of lines: instructions that go on to the next line, jumps, returns and labels.  Labels
are numbered through the whole program.
-/

namespace ParenC

/-- The registers in use. -/
inductive Reg
  /-- Holds results. -/
  | rax
  /-- Holds the first argument; a scratch register otherwise. -/
  | rdi
  /-- Holds the second argument; a scratch register otherwise. -/
  | rsi
  /-- Holds the third argument; takes part in divisions otherwise. -/
  | rdx
  /-- Holds the fourth argument. -/
  | rcx
  /-- Holds the fifth argument. -/
  | r8
  /-- Holds the sixth argument. -/
  | r9
  /-- Points to the end of the frame. -/
  | rbp
  /-- Points to the top of the stack. -/
  | rsp
deriving DecidableEq

/-- The registers that hold arguments, in order. -/
def Reg.arguments : List Reg := [.rdi, .rsi, .rdx, .rcx, .r8, .r9]

/-- What an instruction works on. -/
inductive Operand
  /-- A register. -/
  | reg (reg : Reg)
  /-- A constant. -/
  | imm (value : Int)
  /-- The memory `offset` bytes below the address in `%rbp`. -/
  | frame (offset : Nat)
deriving DecidableEq

/-- What a comparison can ask for. -/
inductive Condition
  | equal
  | notEqual
  /-- Less, for signed operands. -/
  | less
  /-- Less or equal, for signed operands. -/
  | lessEqual
  /-- Greater, for signed operands. -/
  | greater
  /-- Greater or equal, for signed operands. -/
  | greaterEqual
  /-- Less, for unsigned operands. -/
  | below
  /-- Less or equal, for unsigned operands. -/
  | belowEqual
  /-- Greater, for unsigned operands. -/
  | above
  /-- Greater or equal, for unsigned operands. -/
  | aboveEqual
deriving DecidableEq

/-- Instructions after which the next line follows.  Sources come before destinations. -/
inductive Instr
  /-- Push eight bytes. -/
  | pushq (src : Operand)
  /-- Pop eight bytes. -/
  | popq (dst : Reg)
  /-- Copy eight bytes. -/
  | movq (src dst : Operand)
  /-- Store the low byte of a register in the frame. -/
  | movb (src : Reg) (offset : Nat)
  /-- Copy a byte, the low one of a register or one of the frame, and clear the other seven. -/
  | movzbq (src : Operand) (dst : Reg)
  /-- Load a constant of any size. -/
  | movabsq (value : Int) (dst : Reg)
  | addq (src : Operand) (dst : Reg)
  | subq (src : Operand) (dst : Reg)
  | imulq (src dst : Reg)
  /-- Extend the sign of `%rax` into `%rdx`. -/
  | cqto
  /-- Divide the signed number in `%rdx` and `%rax`. -/
  | idivq (src : Reg)
  /-- Divide the unsigned number in `%rdx` and `%rax`. -/
  | divq (src : Reg)
  | xorq (src dst : Reg)
  /-- Exclusive or of the low halves; the high half of the destination is cleared. -/
  | xorl (src dst : Reg)
  /-- Compare the destination with the source. -/
  | cmpq (src : Operand) (dst : Reg)
  /-- Set the low byte of a register to one or zero. -/
  | set (cond : Condition) (dst : Reg)
  /-- Call a function by name. -/
  | call (name : String)
deriving DecidableEq

/-- A line of a routine. -/
inductive Line
  /-- An instruction after which the next line follows. -/
  | instr (instr : Instr)
  /-- Go on at a label. -/
  | jmp (label : Nat)
  /-- Go on at a label if the last comparison found equal operands. -/
  | je (label : Nat)
  /-- Go back to the caller. -/
  | ret
  /-- A place to jump to. -/
  | label (label : Nat)
deriving DecidableEq

/-- The code of one function. -/
structure Routine where
  /-- The name that calls mention. -/
  name : String
  /-- The lines, from the entry on. -/
  lines : List Line
deriving DecidableEq

/-- The code of a program. -/
structure Assembly where
  /-- The names of functions that are defined elsewhere. -/
  externs : List String := []
  /-- The functions defined here. -/
  routines : List Routine := []
  /-- The number of labels. -/
  labels : Nat := 0
deriving DecidableEq

end ParenC
