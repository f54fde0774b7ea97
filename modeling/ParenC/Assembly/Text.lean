/-
The text of assembly code, as an assembler reads it.
-/
import ParenC.Assembly

namespace ParenC

/-- The register as eight bytes. -/
def Reg.quad : Reg → String
  | rax => "%rax"
  | rdi => "%rdi"
  | rsi => "%rsi"
  | rdx => "%rdx"
  | rcx => "%rcx"
  | r8 => "%r8"
  | r9 => "%r9"
  | rbp => "%rbp"
  | rsp => "%rsp"

/-- The low four bytes of the register. -/
def Reg.long : Reg → String
  | rax => "%eax"
  | rdi => "%edi"
  | rsi => "%esi"
  | rdx => "%edx"
  | rcx => "%ecx"
  | r8 => "%r8d"
  | r9 => "%r9d"
  | rbp => "%ebp"
  | rsp => "%esp"

/-- The low byte of the register. -/
def Reg.byte : Reg → String
  | rax => "%al"
  | rdi => "%dil"
  | rsi => "%sil"
  | rdx => "%dl"
  | rcx => "%cl"
  | r8 => "%r8b"
  | r9 => "%r9b"
  | rbp => "%bpl"
  | rsp => "%spl"

/-- A constant. -/
def immediateText (value : Int) : String := "$" ++ toString value

/-- A place in the frame. -/
def frameText (offset : Nat) : String := "-" ++ toString offset ++ "(%rbp)"

/-- The operand as eight bytes. -/
def Operand.quad : Operand → String
  | reg r => r.quad
  | imm value => immediateText value
  | frame offset => frameText offset

/-- The operand as one byte. -/
def Operand.byte : Operand → String
  | reg r => r.byte
  | imm value => immediateText value
  | frame offset => frameText offset

/-- The end of the names of instructions that ask for the condition. -/
def Condition.text : Condition → String
  | equal => "e"
  | notEqual => "ne"
  | less => "l"
  | lessEqual => "le"
  | greater => "g"
  | greaterEqual => "ge"
  | below => "b"
  | belowEqual => "be"
  | above => "a"
  | aboveEqual => "ae"

/-- A name and two operands. -/
def twoOperands (name src dst : String) : String := name ++ " " ++ src ++ ", " ++ dst

/-- The instruction on one line. -/
def Instr.text : Instr → String
  | pushq src => "pushq " ++ src.quad
  | popq dst => "popq " ++ dst.quad
  | movq src dst => twoOperands "movq" src.quad dst.quad
  | movb src offset => twoOperands "movb" src.byte (frameText offset)
  | movzbq src dst => twoOperands "movzbq" src.byte dst.quad
  | movabsq value dst => twoOperands "movabsq" (immediateText value) dst.quad
  | addq src dst => twoOperands "addq" src.quad dst.quad
  | subq src dst => twoOperands "subq" src.quad dst.quad
  | imulq src dst => twoOperands "imulq" src.quad dst.quad
  | cqto => "cqto"
  | idivq src => "idivq " ++ src.quad
  | divq src => "divq " ++ src.quad
  | xorq src dst => twoOperands "xorq" src.quad dst.quad
  | xorl src dst => twoOperands "xorl" src.long dst.long
  | cmpq src dst => twoOperands "cmpq" src.quad dst.quad
  | set cond dst => "set" ++ cond.text ++ " " ++ dst.byte
  | call name => "call " ++ name

/-- The name of a label. -/
def labelText (label : Nat) : String := ".L" ++ toString label

/-- The line; all but labels are indented. -/
def Line.text : Line → String
  | instr i => "    " ++ i.text
  | jmp target => "    jmp " ++ labelText target
  | je target => "    je " ++ labelText target
  | ret => "    ret"
  | label l => labelText l ++ ":"

/-- The routine after an empty line, its name first. -/
def Routine.textLines (routine : Routine) : List String :=
  "" :: (routine.name ++ ":") :: routine.lines.map Line.text

/-- All lines of a program: what the assembler has to know, the functions defined elsewhere and
those defined here. -/
def Assembly.textLines (assembly : Assembly) : List String :=
  [".section .text", ".globl main"] ++ assembly.externs.map (".extern " ++ ·) ++
    assembly.routines.flatMap Routine.textLines

/-- The text of a program; every line is ended. -/
def Assembly.text (assembly : Assembly) : String :=
  String.join (assembly.textLines.map (· ++ "\n"))

end ParenC
