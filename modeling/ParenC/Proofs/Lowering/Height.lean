/-
The height of the stack in straight code.

Each instruction adds slots to the stack below the frame or takes them away.  While code is emitted
the values on the stack are counted; `Climbs` says that the count is the true height of the stack at
every instruction, but for the slot that pads the stack around a call, and that calls are made at
even heights only.
-/
import ParenC.Proofs.Lowering.Statement

namespace ParenC.Lowering

/-- How many slots of eight bytes an instruction adds to the stack. -/
def rise : Instr → Int
  | .pushq _ | .subq (.imm 8) .rsp => 1
  | .popq _ | .addq (.imm 8) .rsp => -1
  | _ => 0

/-- How many slots pad the stack after an instruction. -/
def padAfter (pad : Nat) : Instr → Nat
  | .subq (.imm 8) .rsp => pad + 1
  | .addq (.imm 8) .rsp => pad - 1
  | _ => pad

/-- Whether the instruction is fine at a height: it changes `%rsp` by pushing, popping and padding
only, and a call needs an even height. -/
def fineAt (height : Nat) : Instr → Bool
  | .call _ => height % 2 = 0
  | .subq (.imm 8) .rsp | .addq (.imm 8) .rsp => true
  | .popq dst | .movq _ (.reg dst) | .movzbq _ dst | .movabsq _ dst | .addq _ dst | .subq _ dst
  | .imulq _ dst | .xorq _ dst | .xorl _ dst | .set _ dst => dst ≠ .rsp
  | .pushq _ | .movq _ _ | .movb .. | .cqto | .idivq _ | .divq _ | .cmpq .. => true

/-- The code takes the stack from one height to another, starting with `pad` slots of padding and
ending without any; the height is the count plus the padding at each instruction. -/
inductive Climbs : (pad height : Nat) → Counted Instr → (height' : Nat) → Prop
  | nil {height} : Climbs 0 height [] height
  | cons {pad depth here height height' : Nat} {instr rest} (counted : here = depth + pad)
      (fine : fineAt here instr = true) (moved : (height : Int) = here + rise instr)
      (later : Climbs (padAfter pad instr) height rest height') :
      Climbs pad here ((depth, instr) :: rest) height'

namespace Climbs

variable {pad depth height height' height'' : Nat} {code code' : Counted Instr}

lemma append (h : Climbs pad height code height') (h' : Climbs 0 height' code' height'') :
    Climbs pad height (code ++ code') height'' := by
  induction h with
  | nil => exact h'
  | cons counted fine moved later ih => exact .cons counted fine moved (ih h')

/-- An instruction that keeps the height. -/
lemma keep {instr : Instr} (fine : fineAt depth instr = true) (level : rise instr = 0)
    (unpadded : padAfter 0 instr = 0) (h : Climbs 0 depth code height') :
    Climbs 0 depth ((depth, instr) :: code) height' := by
  have hmoved : (depth : Int) = depth + rise instr := by simp [level]
  refine .cons rfl fine hmoved ?_
  rwa [unpadded]

lemma push {src : Operand} (h : Climbs 0 (depth + 1) code height') :
    Climbs 0 depth ((depth, .pushq src) :: code) height' := .cons rfl rfl rfl h

lemma pop {dst : Reg} (hdst : dst ≠ .rsp) (h : Climbs 0 depth code height') :
    Climbs 0 (depth + 1) ((depth + 1, .popq dst) :: code) height' := by
  have hfine : fineAt (depth + 1) (.popq dst) = true := by simpa [fineAt] using hdst
  have hmoved : (depth : Int) = (depth + 1 : Nat) + rise (.popq dst) := by
    simp only [rise]
    omega
  exact .cons rfl hfine hmoved h

lemma pushes (depth : Nat) (regs : List Reg) :
    Climbs 0 depth (Counted.pushes depth regs) (depth + regs.length) := by
  induction regs generalizing depth with
  | nil => exact .nil
  | cons reg rest ih =>
    rw [List.length_cons, Nat.add_comm rest.length, ← Nat.add_assoc]
    exact .push (ih (depth + 1))

lemma pops (depth : Nat) {regs : List Reg} (h : ∀ reg ∈ regs, reg ≠ .rsp) :
    Climbs 0 (depth + regs.length) (Counted.pops depth regs) depth := by
  induction regs with
  | nil => exact .nil
  | cons reg rest ih =>
    exact .pop (h reg (by simp)) (ih fun r hr => h r (by simp [hr]))

lemma arithmetic (unsigned : Bool) (op : ArithOp) (depth : Nat) :
    Climbs 0 depth (Counted.level depth (Counted.arithmeticCode unsigned op)) (depth + 1) := by
  cases op with
  | add | sub | mul => exact .keep rfl rfl rfl (.push .nil)
  | div | mod => cases unsigned <;> exact .keep rfl rfl rfl (.keep rfl rfl rfl (.push .nil))

lemma comparison (unsigned : Bool) (op : CompareOp) (depth : Nat) :
    Climbs 0 depth (Counted.level depth (Counted.comparisonCode unsigned op)) (depth + 1) :=
  .keep rfl rfl rfl (.keep rfl rfl rfl (.keep rfl rfl rfl (.push .nil)))

lemma extension (returnsBool : Bool) (depth : Nat) :
    Climbs 0 depth (Counted.level depth (Counted.extension returnsBool)) depth := by
  cases returnsBool with
  | false => exact .nil
  | true => exact .keep rfl rfl rfl .nil

/-- A call is made at an even height, with padding or without. -/
lemma padded (name : String) (depth : Nat) :
    Climbs 0 depth (Counted.level depth
      (Counted.padded depth [.movq (.imm 0) (.reg .rax), .call name])) depth := by
  unfold Counted.padded
  split
  · rename_i hodd
    have hfine : fineAt (depth + 1) (.call name) = true := by
      simp only [fineAt, decide_eq_true_eq]
      omega
    have hback : (depth : Int) = (depth + 1 : Nat) + rise (.addq (.imm 8) .rsp) := by
      simp only [rise]
      omega
    have hrest : Climbs 1 (depth + 1) (Counted.level depth
        [.movq (.imm 0) (.reg .rax), .call name, .addq (.imm 8) .rsp]) depth :=
      .cons rfl rfl rfl (.cons rfl hfine rfl (.cons rfl rfl hback .nil))
    exact .cons rfl rfl rfl hrest
  · rename_i heven
    have hfine : fineAt depth (.call name) = true := by
      simp only [fineAt, decide_eq_true_eq]
      omega
    exact .keep rfl rfl rfl (.keep hfine rfl rfl .nil)

lemma call (name : String) (returnsBool : Bool) (depth : Nat) :
    Climbs 0 depth (Counted.level depth (Counted.callSequence depth name returnsBool))
      (depth + 1) := by
  simp only [Counted.callSequence, Counted.level, List.map_append]
  exact ((padded name depth).append (extension returnsBool depth)).append (.push .nil)

lemma load (slot : Slot) (depth : Nat) :
    Climbs 0 depth (Counted.level depth [slot.load, .pushq (.reg .rax)]) (depth + 1) := by
  rcases slot with ⟨offset, _ | _⟩ <;> exact .keep rfl rfl rfl (.push .nil)

/-- Storing a register in a variable keeps the height. -/
lemma store (slot : Slot) (src : Reg) (h : Climbs 0 depth code height') :
    Climbs 0 depth ((depth, slot.store src) :: code) height' := by
  rcases slot with ⟨offset, _ | _⟩ <;> exact .keep rfl rfl rfl h

end Climbs

variable {tables : Tables}

/-- The registers of a job are none that the stack depends on. -/
def Job.Harmless : Job → Prop
  | .value _ => True
  | .arguments used free _ => ∀ reg ∈ used ++ free, reg ≠ .rsp

/-- The counter is the height of the stack in the code of an expression. -/
theorem Lowers.climbs {job : Job} {depth : Nat} {code : Counted Instr}
    (h : Lowers tables job depth code) (harmless : job.Harmless) :
    Climbs 0 depth code (depth + job.pushed) := by
  have rax : Reg.rax ≠ .rsp := by decide
  have operands : ∀ depth, Climbs 0 (depth + 2) (Counted.pops depth [.rax, .rdi]) depth :=
    fun depth => .pop rax (.pop (by decide) .nil)
  induction h with
  | literal | boolean => exact .push .nil
  | wideLiteral => exact .keep rfl rfl rfl (.push .nil)
  | load => exact .load _ _
  | assign right target ih => exact (ih trivial).append (.pop rax (.store _ _ (.push .nil)))
  | arith right left sign ihRight ihLeft =>
    exact (((ihRight trivial).append (ihLeft trivial)).append (operands _)).append
      (.arithmetic _ _ _)
  | compare right left sign ihRight ihLeft =>
    exact (((ihRight trivial).append (ihLeft trivial)).append (operands _)).append
      (.comparison _ _ _)
  | call arguments target typed resolved ih =>
    have hregs : ∀ reg ∈ [] ++ Reg.arguments, reg ≠ .rsp := by decide
    exact (ih hregs).append (.call _ _ _)
  | toBool inner goal origin other ih =>
    exact (ih trivial).append (.pop rax (.keep rfl rfl rfl (.keep rfl rfl rfl
      (.keep rfl rfl rfl (.push .nil)))))
  | keep inner goal origin same ih => exact ih trivial
  | noArguments => exact .nil
  | @argument used reg free arg rest code others depth first later ihFirst ihLater =>
    -- what is saved is in use, and the stack pointer never is
    have hsaved : ∀ r ∈ (Counted.savedFor used arg).reverse, r ≠ .rsp := by
      intro r hr
      refine harmless r (List.mem_append_left _ ?_)
      unfold Counted.savedFor at hr
      split at hr <;> simp_all
    have hpops := Climbs.pops depth hsaved
    rw [List.length_reverse] at hpops
    refine (((Climbs.pushes depth _).append (ihFirst trivial)).append
      (.pop (harmless reg (by simp)) hpops)).append (ihLater ?_)
    intro r hr
    exact harmless r (by simpa using hr)

/-- The code of an action starts and ends with nothing on the stack. -/
theorem Emitted.climbs {action : Action} {code : Counted Instr} (h : Emitted tables action code) :
    Climbs 0 0 code 0 := by
  obtain ⟨-, inner, tail, hinner, hfinish, rfl⟩ := Action.emit_lowers h
  have htail : Climbs 0 0 (Counted.level 0 tail) 0 := by
    cases action with
    | effect | result =>
      rw [hfinish]
      exact .nil
    | assign =>
      obtain ⟨place, -, rfl⟩ := hfinish
      exact .store _ _ .nil
    | test =>
      rw [hfinish]
      exact .keep rfl rfl rfl .nil
  exact (hinner.climbs trivial).append (.pop (by decide) htail)

end ParenC.Lowering
