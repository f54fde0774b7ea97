/-
What the emitted instructions do.

A machine has the registers in use, byte memory and flags.  A call is not followed: the callee is
free to answer with any result and to change every register but `%rbp` and `%rsp`, the flags, and
the memory below `%rsp`.  The answers are given by number, so a statement about all sequences of
answers covers callees that look at their arguments, at memory, or at earlier calls.
-/
import Mathlib.Algebra.Group.Int.Defs
import Mathlib.Algebra.Group.Nat.Defs
import Mathlib.Tactic.Common
import ParenC.Assembly

namespace ParenC

/-- The contents of a register. -/
abbrev Word := BitVec 64

/-- The contents of an address. -/
abbrev Byte := BitVec 8

/-! ## Memory -/

/-- Memory, one byte at each address. -/
abbrev Memory := Word → Byte

namespace Memory

/-- The byte that lies `i` places after an address. -/
def byte (mem : Memory) (addr : Word) (i : Nat) : Byte := mem (addr + BitVec.ofNat 64 i)

/-- The eight bytes from an address on, the least significant one first. -/
def quad (mem : Memory) (addr : Word) : Word :=
  mem.byte addr 7 ++ mem.byte addr 6 ++ mem.byte addr 5 ++ mem.byte addr 4 ++
    mem.byte addr 3 ++ mem.byte addr 2 ++ mem.byte addr 1 ++ mem.byte addr 0

/-- Change one byte. -/
def setByte (mem : Memory) (addr : Word) (byte : Byte) : Memory :=
  fun a => if a = addr then byte else mem a

/-- Change eight bytes. -/
def setQuad (mem : Memory) (addr : Word) (word : Word) : Memory :=
  fun a => if (a - addr).toNat < 8 then word.extractLsb' (8 * (a - addr).toNat) 8 else mem a

lemma offset_toNat (addr : Word) {i : Nat} (hi : i < 8) :
    (addr + BitVec.ofNat 64 i - addr).toNat = i := by
  rw [BitVec.add_comm, BitVec.add_sub_cancel, BitVec.toNat_ofNat]
  omega

/-- An address lies among the `n` from `addr` on. -/
lemma sub_toNat_lt_iff {a addr : Word} {n : Nat} (h : addr.toNat + n ≤ 2 ^ 64) :
    (a - addr).toNat < n ↔ addr.toNat ≤ a.toNat ∧ a.toNat < addr.toNat + n := by
  have ha := a.isLt
  rw [BitVec.toNat_sub]
  omega

/-- Eight bytes are read the same from memories that agree on them. -/
lemma quad_congr {mem mem' : Memory} {addr : Word}
    (h : ∀ a : Word, (a - addr).toNat < 8 → mem' a = mem a) : mem'.quad addr = mem.quad addr := by
  have hbyte : ∀ i < 8, mem'.byte addr i = mem.byte addr i := by
    intro i hi
    refine h _ ?_
    rw [offset_toNat addr hi]
    exact hi
  unfold quad
  rw [hbyte 0 (by decide), hbyte 1 (by decide), hbyte 2 (by decide), hbyte 3 (by decide),
    hbyte 4 (by decide), hbyte 5 (by decide), hbyte 6 (by decide), hbyte 7 (by decide)]

/-- What was written is read again. -/
@[simp] lemma quad_setQuad (mem : Memory) (addr word : Word) :
    (mem.setQuad addr word).quad addr = word := by
  have hbyte : ∀ i < 8, (mem.setQuad addr word).byte addr i = word.extractLsb' (8 * i) 8 := by
    intro i hi
    unfold byte setQuad
    rw [offset_toNat addr hi, if_pos hi]
  unfold quad
  rw [hbyte 0 (by decide), hbyte 1 (by decide), hbyte 2 (by decide), hbyte 3 (by decide),
    hbyte 4 (by decide), hbyte 5 (by decide), hbyte 6 (by decide), hbyte 7 (by decide)]
  apply BitVec.eq_of_getLsbD_eq
  intro i hi
  simp only [BitVec.getLsbD_append, BitVec.getLsbD_extractLsb']
  grind

/-- Nothing else changes. -/
lemma setQuad_of_not_mem {mem : Memory} {addr word a : Word} (h : addr.toNat + 8 ≤ 2 ^ 64)
    (ha : ¬ (addr.toNat ≤ a.toNat ∧ a.toNat < addr.toNat + 8)) : mem.setQuad addr word a = mem a :=
  if_neg fun hlt => ha ((sub_toNat_lt_iff h).mp hlt)

@[simp] lemma setByte_self (mem : Memory) (addr : Word) (byte : Byte) :
    mem.setByte addr byte addr = byte := if_pos rfl

lemma setByte_of_ne {mem : Memory} {addr a : Word} {byte : Byte} (h : a ≠ addr) :
    mem.setByte addr byte a = mem a := if_neg h

end Memory

/-! ## Machines -/

/-- What the last comparison or calculation left behind. -/
structure Flags where
  /-- The result is zero. -/
  zero : Bool
  /-- There was a carry or a borrow. -/
  carry : Bool
  /-- The result is negative. -/
  sign : Bool
  /-- The signed result does not fit. -/
  overflow : Bool

/-- A call with what the callee is given. -/
structure Call where
  /-- The function that is called. -/
  name : String
  /-- The arguments. -/
  args : List Word

/-- The state of the machine. -/
structure Machine where
  /-- The registers. -/
  regs : Reg → Word
  /-- The memory. -/
  mem : Memory
  /-- The flags, if they are defined. -/
  flags : Option Flags
  /-- The calls so far, each with the contents of all argument registers. -/
  calls : List Call

/-- What a callee leaves behind. -/
structure Answer where
  /-- The result. -/
  result : Word
  /-- The other registers that it does not have to keep. -/
  regs : Reg → Word
  /-- The flags. -/
  flags : Option Flags
  /-- The memory below the stack pointer. -/
  mem : Memory

/-- Why there is no next state. -/
inductive Trap
  /-- A division has no result, or one that does not fit.  There were the given calls before. -/
  | fault (calls : List Call)
  /-- There is no such instruction, or it depends on flags that are not defined. -/
  | stuck

namespace Machine

/-- Change a register. -/
def set (m : Machine) (reg : Reg) (word : Word) : Machine :=
  { m with regs := fun r => if r = reg then word else m.regs r }

/-- The address `offset` bytes below the one in `%rbp`. -/
def slotAddr (m : Machine) (offset : Nat) : Word := m.regs .rbp - BitVec.ofNat 64 offset

/-- The eight bytes that an operand stands for; constants of 32 bits are extended. -/
def read (m : Machine) : Operand → Word
  | .reg reg => m.regs reg
  | .imm value => (BitVec.ofInt 32 value).signExtend 64
  | .frame offset => m.mem.quad (m.slotAddr offset)

/-- Push eight bytes. -/
def push (m : Machine) (word : Word) : Machine :=
  { m.set .rsp (m.regs .rsp - 8) with mem := m.mem.setQuad (m.regs .rsp - 8) word }

/-- Pop eight bytes. -/
def pop (m : Machine) (dst : Reg) : Machine :=
  (m.set .rsp (m.regs .rsp + 8)).set dst (m.mem.quad (m.regs .rsp))

/-- Set a register to the result of a calculation with the given flags. -/
def calculate (m : Machine) (dst : Reg) (word : Word) (flags : Option Flags) : Machine :=
  { m.set dst word with flags }

/-- Stop because of a division. -/
def fault {α : Type} (m : Machine) : Except Trap α := .error (.fault m.calls)

end Machine

/-! ## Flags -/

/-- The flags after adding. -/
def Flags.ofAdd (a b : Word) : Flags where
  zero := a + b == 0
  carry := BitVec.uaddOverflow a b
  sign := (a + b).msb
  overflow := BitVec.saddOverflow a b

/-- The flags after subtracting `b` from `a`. -/
def Flags.ofSub (a b : Word) : Flags where
  zero := a - b == 0
  carry := a.ult b
  sign := (a - b).msb
  overflow := BitVec.ssubOverflow a b

/-- The flags after a logical operation. -/
def Flags.ofLogic {w : Nat} (result : BitVec w) : Flags where
  zero := result == 0
  carry := false
  sign := result.msb
  overflow := false

/-- Whether the flags satisfy a condition. -/
def Condition.holds (flags : Flags) : Condition → Bool
  | equal => flags.zero
  | notEqual => !flags.zero
  | less => flags.sign != flags.overflow
  | lessEqual => flags.zero || flags.sign != flags.overflow
  | greater => !flags.zero && flags.sign == flags.overflow
  | greaterEqual => flags.sign == flags.overflow
  | below => flags.carry
  | belowEqual => flags.carry || flags.zero
  | above => !flags.carry && !flags.zero
  | aboveEqual => !flags.carry

/-! ## Instructions -/

/-- A word with another low byte. -/
def Word.setLow (word : Word) (byte : Byte) : Word := word.extractLsb' 8 56 ++ byte

/-- The low byte of a word. -/
def Word.low (word : Word) : Byte := word.extractLsb' 0 8

namespace Machine

/-- Divide the signed number in `%rdx` and `%rax`, rounding towards zero. -/
def idiv (m : Machine) (divisor : Word) : Except Trap Machine :=
  let dividend := (m.regs .rdx ++ m.regs .rax).toInt
  let quotient := dividend.tdiv divisor.toInt
  if divisor = 0 ∨ quotient < -2 ^ 63 ∨ 2 ^ 63 ≤ quotient then m.fault
  else .ok { (m.set .rax (BitVec.ofInt 64 quotient)).set .rdx
    (BitVec.ofInt 64 (dividend.tmod divisor.toInt)) with flags := none }

/-- Divide the unsigned number in `%rdx` and `%rax`. -/
def div (m : Machine) (divisor : Word) : Except Trap Machine :=
  let dividend := (m.regs .rdx ++ m.regs .rax).toNat
  let quotient := dividend / divisor.toNat
  if divisor = 0 ∨ 2 ^ 64 ≤ quotient then m.fault
  else .ok { (m.set .rax (BitVec.ofNat 64 quotient)).set .rdx
    (BitVec.ofNat 64 (dividend % divisor.toNat)) with flags := none }

/-- Go on after a call that was answered. -/
def answered (m : Machine) (name : String) (answer : Answer) : Machine where
  regs
    | .rax => answer.result
    | .rbp => m.regs .rbp
    | .rsp => m.regs .rsp
    | reg => answer.regs reg
  mem a := if a.toNat < (m.regs .rsp).toNat then answer.mem a else m.mem a
  flags := answer.flags
  calls := m.calls ++ [⟨name, Reg.arguments.map m.regs⟩]

/-- Execute one instruction; call number `n` is answered by `answers n`. -/
def exec (answers : Nat → Answer) (m : Machine) : Instr → Except Trap Machine
  | .pushq src => .ok (m.push (m.read src))
  | .popq dst => .ok (m.pop dst)
  | .movq src (.reg dst) => .ok (m.set dst (m.read src))
  | .movq (.reg src) (.frame offset) =>
    .ok { m with mem := m.mem.setQuad (m.slotAddr offset) (m.regs src) }
  | .movq _ _ => .error .stuck
  | .movb src offset =>
    .ok { m with mem := m.mem.setByte (m.slotAddr offset) (m.regs src).low }
  | .movzbq (.reg src) dst => .ok (m.set dst ((m.regs src).low.setWidth 64))
  | .movzbq (.frame offset) dst => .ok (m.set dst ((m.mem (m.slotAddr offset)).setWidth 64))
  | .movzbq (.imm _) _ => .error .stuck
  | .movabsq value dst => .ok (m.set dst (BitVec.ofInt 64 value))
  | .addq src dst =>
    .ok (m.calculate dst (m.regs dst + m.read src) (some (.ofAdd (m.regs dst) (m.read src))))
  | .subq src dst =>
    .ok (m.calculate dst (m.regs dst - m.read src) (some (.ofSub (m.regs dst) (m.read src))))
  | .imulq src dst => .ok (m.calculate dst (m.regs dst * m.regs src) none)
  | .cqto => .ok (m.set .rdx (if (m.regs .rax).msb then -1 else 0))
  | .idivq src => m.idiv (m.regs src)
  | .divq src => m.div (m.regs src)
  | .xorq src dst =>
    let result := m.regs dst ^^^ m.regs src
    .ok (m.calculate dst result (some (.ofLogic result)))
  | .xorl src dst =>
    let result := (m.regs dst ^^^ m.regs src).setWidth 32
    .ok (m.calculate dst (result.setWidth 64) (some (.ofLogic result)))
  | .cmpq src dst => .ok { m with flags := some (.ofSub (m.regs dst) (m.read src)) }
  | .set cond dst =>
    match m.flags with
    | none => .error .stuck
    | some flags => .ok (m.set dst ((m.regs dst).setLow (if cond.holds flags then 1 else 0)))
  | .call name => .ok (m.answered name (answers m.calls.length))

/-- Execute instructions one after the other. -/
def run (answers : Nat → Answer) (code : List Instr) (m : Machine) : Except Trap Machine :=
  code.foldlM (exec answers) m

/-! ## What stays and what changes -/

variable {answers : Nat → Answer} {m : Machine}

@[simp] lemma run_nil : run answers [] m = .ok m := rfl

lemma run_cons (instr : Instr) (code : List Instr) :
    run answers (instr :: code) m = m.exec answers instr >>= run answers code := rfl

@[simp] lemma run_singleton (instr : Instr) : run answers [instr] m = m.exec answers instr := by
  rw [run_cons]
  cases m.exec answers instr <;> rfl

/-- Going on after an instruction that succeeds. -/
lemma run_cons_of_ok {instr : Instr} {m' : Machine} (h : m.exec answers instr = .ok m')
    (code : List Instr) : run answers (instr :: code) m = run answers code m' := by
  rw [run_cons, h]
  rfl

lemma run_append (first second : List Instr) :
    run answers (first ++ second) m = run answers first m >>= run answers second :=
  List.foldlM_append

@[simp] lemma set_regs (reg r : Reg) (word : Word) :
    (m.set reg word).regs r = if r = reg then word else m.regs r := rfl

@[simp] lemma set_mem (reg : Reg) (word : Word) : (m.set reg word).mem = m.mem := rfl

@[simp] lemma set_flags (reg : Reg) (word : Word) : (m.set reg word).flags = m.flags := rfl

@[simp] lemma set_calls (reg : Reg) (word : Word) : (m.set reg word).calls = m.calls := rfl

@[simp] lemma calculate_regs (dst r : Reg) (word : Word) (flags : Option Flags) :
    (m.calculate dst word flags).regs r = if r = dst then word else m.regs r := rfl

@[simp] lemma calculate_mem (dst : Reg) (word : Word) (flags : Option Flags) :
    (m.calculate dst word flags).mem = m.mem := rfl

@[simp] lemma calculate_flags (dst : Reg) (word : Word) (flags : Option Flags) :
    (m.calculate dst word flags).flags = flags := rfl

@[simp] lemma calculate_calls (dst : Reg) (word : Word) (flags : Option Flags) :
    (m.calculate dst word flags).calls = m.calls := rfl

@[simp] lemma push_regs (word : Word) (r : Reg) :
    (m.push word).regs r = if r = .rsp then m.regs .rsp - 8 else m.regs r := rfl

@[simp] lemma push_calls (word : Word) : (m.push word).calls = m.calls := rfl

@[simp] lemma push_flags (word : Word) : (m.push word).flags = m.flags := rfl

/-- The value on top of the stack is the one that was pushed. -/
@[simp] lemma push_top (word : Word) : (m.push word).mem.quad (m.regs .rsp - 8) = word :=
  Memory.quad_setQuad _ _ _

lemma sub_eight_toNat {sp : Word} (h : 8 ≤ sp.toNat) : (sp - 8).toNat = sp.toNat - 8 :=
  BitVec.toNat_sub_of_le (BitVec.le_def.mpr (by simpa using h))

lemma slotAddr_toNat {offset : Nat} (h : offset ≤ (m.regs .rbp).toNat) :
    (m.slotAddr offset).toNat = (m.regs .rbp).toNat - offset := by
  have hrbp := (m.regs .rbp).isLt
  have hmod : offset % 2 ^ 64 = offset := Nat.mod_eq_of_lt (by omega)
  rw [slotAddr, BitVec.toNat_sub_of_le, BitVec.toNat_ofNat, hmod]
  rw [BitVec.le_def, BitVec.toNat_ofNat, hmod]
  exact h

/-- What lies at the stack pointer and above stays where it is. -/
lemma push_mem {word a : Word} (h : 8 ≤ (m.regs .rsp).toNat)
    (ha : (m.regs .rsp).toNat ≤ a.toNat) : (m.push word).mem a = m.mem a := by
  have hsp := sub_eight_toNat h
  have hlt := (m.regs .rsp).isLt
  refine Memory.setQuad_of_not_mem ?_ ?_ <;> omega

@[simp] lemma pop_mem (dst : Reg) : (m.pop dst).mem = m.mem := rfl

@[simp] lemma pop_calls (dst : Reg) : (m.pop dst).calls = m.calls := rfl

@[simp] lemma pop_flags (dst : Reg) : (m.pop dst).flags = m.flags := rfl

@[simp] lemma pop_regs (dst r : Reg) : (m.pop dst).regs r =
    if r = dst then m.mem.quad (m.regs .rsp) else if r = .rsp then m.regs .rsp + 8 else m.regs r :=
  rfl

end Machine

end ParenC
