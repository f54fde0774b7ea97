/-
The code of operators, run on a machine.

Each piece of code that works on values in registers is followed here, down to the flags and the
128 bits of a dividend, and is found to compute what the operator means.
-/
import ParenC.Proofs.Lowering.Represents
import ParenC.Proofs.Lowering.Value

namespace ParenC

/-! ## Words -/

namespace Word

lemma low_setLow (word : Word) (byte : Byte) : (word.setLow byte).low = byte := by
  apply BitVec.eq_of_getLsbD_eq
  intro i hi
  simp only [low, setLow, BitVec.getLsbD_extractLsb', BitVec.getLsbD_append]
  grind

lemma lowByte_setLow (word : Word) (b : Bool) :
    (word.setLow (if b then 1 else 0)).lowByte = ofBool b := by
  rw [lowByte, low_setLow]
  cases b <;> rfl

lemma zero_setLow (b : Bool) : Word.setLow 0 (if b then 1 else 0) = ofBool b := by
  cases b <;> decide

end Word

namespace IntegerValue

lemma bits_eq (v : IntegerValue) : v.bits = BitVec.ofInt 64 v.toInt := by
  cases v with
  | signed value => rfl
  | unsigned value => exact (BitVec.ofInt_natCast 64 value).symm

/-- Any literal can be loaded as a constant of 64 bits. -/
lemma ofInt_word (v : IntegerValue) : BitVec.ofInt 64 v.word = v.bits := by
  rw [bits_eq, word]
  apply BitVec.eq_of_toInt_eq
  rw [BitVec.toInt_ofInt, BitVec.toInt_ofInt]
  exact Int.bmod_bmod

lemma fitsHalf_iff {v : IntegerValue} :
    v.fitsHalf = true ↔ -2 ^ 31 ≤ v.toInt ∧ v.toInt ≤ 2 ^ 31 - 1 := by
  have hcount : halfSignCount = 2 ^ 31 := rfl
  rw [fitsHalf, Bool.and_eq_true_iff, hcount]
  refine and_congr decide_eq_true_iff (decide_eq_true_iff.trans ?_)
  omega

/-- A literal that fits is written as it is. -/
lemma word_of_fitsHalf {v : IntegerValue} (h : v.fitsHalf = true) : v.word = v.toInt := by
  have hrange := fitsHalf_iff.mp h
  refine Int.bmod_eq_of_le ?_ ?_ <;> simp only [wordCount] <;> omega

/-- A literal that fits is the extension of a constant of 32 bits. -/
lemma signExtend_word {v : IntegerValue} (h : v.fitsHalf = true) :
    (BitVec.ofInt 32 v.word).signExtend 64 = v.bits := by
  have hrange := fitsHalf_iff.mp h
  rw [bits_eq, word_of_fitsHalf h]
  apply BitVec.eq_of_toInt_eq
  rw [BitVec.toInt_signExtend_of_le (by decide), BitVec.toInt_ofInt, BitVec.toInt_ofInt,
    Int.bmod_eq_of_le (by omega) (by omega), Int.bmod_eq_of_le (by omega) (by omega)]

end IntegerValue

/-! ## Comparisons -/

namespace Flags

lemma zero_eq (a b : Word) : (ofSub a b).zero = (a == b) := by
  have hiff : a - b = 0 ↔ a = b := by
    rw [BitVec.sub_eq_iff_eq_add]
    exact Eq.congr_right (BitVec.zero_add b)
  show (a - b == 0) = (a == b)
  rw [Bool.eq_iff_iff, beq_iff_eq, beq_iff_eq]
  exact hiff

/-- The sign of a difference is wrong just if the difference does not fit. -/
lemma less_eq (a b : Word) : ((ofSub a b).sign != (ofSub a b).overflow) = a.slt b := by
  show ((a - b).msb != BitVec.ssubOverflow a b) = a.slt b
  have ha := a.toInt_lt
  have hb := b.toInt_lt
  have ha' := a.le_toInt
  have hb' := b.le_toInt
  rw [BitVec.msb_eq_toInt, BitVec.slt_eq_decide, BitVec.ssubOverflow, BitVec.toInt_sub]
  simp only [Nat.reduceSub] at ha hb ha' hb' ⊢
  -- the difference is in range, or it is off by two to the power of 64 in one direction
  rcases Int.lt_or_le (a.toInt - b.toInt) (-2 ^ 63) with hlow | hlow
  · have hmod : (a.toInt - b.toInt).bmod (2 ^ 64) = a.toInt - b.toInt + 2 ^ 64 := by
      simp only [Int.bmod]
      omega
    rw [hmod]
    grind
  rcases Int.lt_or_le (a.toInt - b.toInt) (2 ^ 63) with hhigh | hhigh
  · rw [Int.bmod_eq_of_le (by omega) (by omega)]
    grind
  · have hmod : (a.toInt - b.toInt).bmod (2 ^ 64) = a.toInt - b.toInt - 2 ^ 64 := by
      simp only [Int.bmod]
      omega
    rw [hmod]
    grind

end Flags

namespace Lowering

/-- The condition that is tested after a comparison is the one that was asked for. -/
theorem condition_holds (unsigned : Bool) (op : CompareOp) (a b : Word) :
    (condition unsigned op).holds (.ofSub a b) = op.holds unsigned a b := by
  have hcarry : (Flags.ofSub a b).carry = a.ult b := rfl
  have hzero := Flags.zero_eq a b
  have hless := Flags.less_eq a b
  -- the flags of a signed comparison say that `a` is less just if sign and overflow differ
  have hgreater : ((Flags.ofSub a b).sign == (Flags.ofSub a b).overflow) = !a.slt b := by
    rw [← hless, bne, Bool.not_not]
  cases op with
  | eq => exact hzero
  | ne =>
    rw [condition, Condition.holds, hzero]
    rfl
  | lt => cases unsigned <;> [exact hless; exact hcarry]
  | le =>
    cases unsigned
    · simp only [condition, Condition.holds, CompareOp.holds, hzero, hless]
      rw [BitVec.sle_eq_slt_or_eq, Bool.or_comm]
      rfl
    · simp only [condition, Condition.holds, CompareOp.holds, hzero, hcarry]
      rw [BitVec.ult_eq_decide, BitVec.ule_eq_decide, Bool.eq_iff_iff]
      simp [← BitVec.toNat_inj]
      omega
  | gt =>
    cases unsigned
    · simp only [condition, Condition.holds, CompareOp.holds, hzero, hgreater]
      rw [BitVec.slt_eq_decide, BitVec.slt_eq_decide, Bool.eq_iff_iff]
      simp [← BitVec.toInt_inj]
      omega
    · simp only [condition, Condition.holds, CompareOp.holds, hzero, hcarry]
      rw [BitVec.ult_eq_decide, BitVec.ult_eq_decide, Bool.eq_iff_iff]
      simp [← BitVec.toNat_inj]
      omega
  | ge =>
    cases unsigned
    · simp only [condition, Condition.holds, CompareOp.holds, hgreater]
      exact BitVec.sle_eq_not_slt.symm
    · simp only [condition, Condition.holds, CompareOp.holds, hcarry]
      exact (BitVec.ule_eq_not_ult b a).symm

end Lowering

/-! ## Divisions -/

/-- Only scratch registers and flags have changed. -/
structure Machine.Still (m m' : Machine) : Prop where
  frame : m'.regs .rbp = m.regs .rbp
  stack : m'.regs .rsp = m.regs .rsp
  mem : m'.mem = m.mem
  calls : m'.calls = m.calls

/-- A number of 64 bits with its sign extended into the high half. -/
lemma Word.toInt_signExtended (a : Word) :
    ((if a.msb then -1 else 0 : Word) ++ a).toInt = a.toInt := by
  rw [BitVec.toInt_append, BitVec.toInt_eq_msb_cond]
  cases a.msb <;> simp
  omega

/-- The quotient of signed numbers fits, with one exception. -/
lemma Word.tdiv_fits {a b : Word} (h : ¬ (a = BitVec.intMin 64 ∧ b = -1)) :
    -2 ^ 63 ≤ a.toInt.tdiv b.toInt ∧ a.toInt.tdiv b.toInt < 2 ^ 63 := by
  rw [← BitVec.toInt_sdiv_of_ne_or_ne a b (by tauto)]
  exact ⟨BitVec.le_toInt _, BitVec.toInt_lt⟩

namespace Lowering

variable {answers : Nat → Answer} {m : Machine}

/-- An unsigned division of 64 bits. -/
lemma div_run {a b : Word} (hvalue : m.regs .rax = a) (hclear : m.regs .rdx = 0) :
    m.div b = if b = 0 then .error (.fault m.calls) else
      .ok { (m.set .rax (a / b)).set .rdx (a % b) with flags := none } := by
  have hdividend : (m.regs .rdx ++ m.regs .rax).toNat = a.toNat := by
    rw [hclear, hvalue, BitVec.toNat_append]
    simp
  have hfits : a.toNat / b.toNat < 2 ^ 64 := Nat.lt_of_le_of_lt (Nat.div_le_self _ _) a.isLt
  have hdiv : BitVec.ofNat 64 (a.toNat / b.toNat) = a / b :=
    BitVec.eq_of_toNat_eq (Nat.mod_eq_of_lt hfits)
  have hmod : BitVec.ofNat 64 (a.toNat % b.toNat) = a % b :=
    BitVec.eq_of_toNat_eq (Nat.mod_eq_of_lt (Nat.lt_of_le_of_lt (Nat.mod_le _ _) a.isLt))
  simp only [Machine.div, hdividend, Nat.not_le_of_lt hfits, or_false, hdiv, hmod, Machine.fault]

/-- A signed division of 64 bits. -/
lemma idiv_run {a b : Word} (hvalue : m.regs .rax = a)
    (hsign : m.regs .rdx = if a.msb then -1 else 0) :
    m.idiv b = if b = 0 ∨ a = BitVec.intMin 64 ∧ b = -1 then .error (.fault m.calls) else
      .ok { (m.set .rax (a.sdiv b)).set .rdx (a.srem b) with flags := none } := by
  have hdividend : (m.regs .rdx ++ m.regs .rax).toInt = a.toInt := by
    rw [hsign, hvalue]
    exact Word.toInt_signExtended a
  have hdiv : BitVec.ofInt 64 (a.toInt.tdiv b.toInt) = a.sdiv b :=
    BitVec.eq_of_toInt_eq (by rw [BitVec.toInt_ofInt, BitVec.toInt_sdiv])
  have hmod : BitVec.ofInt 64 (a.toInt.tmod b.toInt) = a.srem b := by
    rw [← BitVec.toInt_srem]
    exact BitVec.ofInt_toInt
  have hfits : (a.toInt.tdiv b.toInt < -2 ^ 63 ∨ 2 ^ 63 ≤ a.toInt.tdiv b.toInt) ↔
      a = BitVec.intMin 64 ∧ b = -1 := by
    constructor
    · intro hrange
      by_contra hother
      have := Word.tdiv_fits hother
      omega
    · rintro ⟨rfl, rfl⟩
      exact Or.inr (by decide)
  simp only [Machine.idiv, hdividend, hfits, hdiv, hmod, Machine.fault]

/-- The code of a division computes quotient and remainder, or faults if there are none. -/
theorem division_run (unsigned : Bool) :
    match Word.divMod unsigned (m.regs .rax) (m.regs .rdi) with
    | some (quotient, remainder) => ∃ m', m.run answers (division unsigned) = .ok m' ∧
        m.Still m' ∧ m'.regs .rax = quotient ∧ m'.regs .rdx = remainder
    | none => m.run answers (division unsigned) = .error (.fault m.calls) := by
  cases unsigned with
  | true =>
    -- the upper half of the dividend is zero
    have hzero : ((m.regs .rdx ^^^ m.regs .rdx).setWidth 32) = (0 : BitVec 32) := by
      rw [BitVec.xor_self]
      rfl
    have hclear : m.exec answers (.xorl .rdx .rdx) =
        .ok (m.calculate .rdx 0 (some (.ofLogic (0 : BitVec 32)))) := by
      simp only [Machine.exec, hzero]
      rfl
    have hrun : m.run answers (division true) =
        (m.calculate .rdx 0 (some (.ofLogic (0 : BitVec 32)))).div (m.regs .rdi) :=
      (Machine.run_cons_of_ok hclear _).trans (Machine.run_singleton _)
    rw [hrun, div_run rfl rfl]
    by_cases hb : m.regs .rdi = 0
    · simp [Word.divMod, hb]
    · rw [if_neg hb, Word.divMod, if_neg hb, if_pos rfl]
      exact ⟨_, rfl, ⟨rfl, rfl, rfl, rfl⟩, rfl, rfl⟩
  | false =>
    -- the upper half of the dividend repeats the sign
    have hextend : m.exec answers .cqto =
        .ok (m.set .rdx (if (m.regs .rax).msb then -1 else 0)) := rfl
    have hvalue : (m.set .rdx (if (m.regs .rax).msb then -1 else 0)).regs .rax = m.regs .rax := rfl
    have hrun : m.run answers (division false) =
        (m.set .rdx (if (m.regs .rax).msb then -1 else 0)).idiv (m.regs .rdi) :=
      (Machine.run_cons_of_ok hextend _).trans (Machine.run_singleton _)
    rw [hrun, idiv_run hvalue rfl]
    by_cases hb : m.regs .rdi = 0
    · simp [Word.divMod, hb]
    · by_cases hleast : m.regs .rax = BitVec.intMin 64 ∧ m.regs .rdi = -1
      · simp [Word.divMod, hleast]
      · have hok : ¬ (m.regs .rdi = 0 ∨ m.regs .rax = BitVec.intMin 64 ∧ m.regs .rdi = -1) := by
          tauto
        rw [if_neg hok, Word.divMod, if_neg hb, if_neg (by decide), if_neg hleast]
        exact ⟨_, rfl, ⟨rfl, rfl, rfl, rfl⟩, rfl, rfl⟩

/-! ## Agreement -/

/-- The machine comes to an end as the evaluation does: `post` holds at the end of both, or both
stop at a division after the same calls. -/
def Agrees {α : Type} (post : Machine → α → Store → Prop) :
    Except Trap Machine → Except Trap (α × Store) → Prop
  | .ok m, .ok (a, s) => post m a s
  | .error (.fault real), .error (.fault ideal) => List.Forall₂ Call.Shows real ideal
  | _, _ => False

namespace Agrees

variable {α β : Type} {post : Machine → α → Store → Prop} {post' : Machine → β → Store → Prop}

/-- One piece of code after the other does what one evaluation after the other does. -/
lemma seq {first second : List Instr} {act : Evaluating α} {next : α → Evaluating β} {s : Store}
    (h : Agrees post (m.run answers first) (act s))
    (hnext : ∀ m' a s', post m' a s' → Agrees post' (m'.run answers second) (next a s')) :
    Agrees post' (m.run answers (first ++ second)) ((act >>= next) s) := by
  rw [Machine.run_append]
  simp only [bind, StateT.bind, Except.bind]
  rcases hreal : m.run answers first with (real | _) | m' <;>
    rcases hideal : act s with (ideal | _) | ⟨a, s'⟩ <;> rw [hreal, hideal] at h
  case error.fault.error.fault => exact h
  case ok.ok => exact hnext m' a s' h
  all_goals exact h.elim

/-- Code that is sure to succeed comes first. -/
lemma after {first second : List Instr} {m' : Machine} {ideal : Except Trap (α × Store)}
    (hrun : m.run answers first = .ok m') (h : Agrees post (m'.run answers second) ideal) :
    Agrees post (m.run answers (first ++ second)) ideal := by
  rw [Machine.run_append, hrun]
  exact h

/-- An instruction that is sure to succeed comes first. -/
lemma instr {instr : Instr} {code : List Instr} {m' : Machine} {ideal : Except Trap (α × Store)}
    (hrun : m.exec answers instr = .ok m') (h : Agrees post (m'.run answers code) ideal) :
    Agrees post (m.run answers (instr :: code)) ideal := by
  rw [Machine.run_cons_of_ok hrun]
  exact h

/-- Code that is sure to succeed comes last. -/
lemma before {first second : List Instr} {ideal : Except Trap (α × Store)}
    {post' : Machine → α → Store → Prop} (h : Agrees post (m.run answers first) ideal)
    (hlast : ∀ m' a s, m.run answers first = .ok m' → post m' a s →
      ∃ m'', m'.run answers second = .ok m'' ∧ post' m'' a s) :
    Agrees post' (m.run answers (first ++ second)) ideal := by
  rw [Machine.run_append]
  simp only [bind, Except.bind]
  rcases hreal : m.run answers first with (real | _) | m' <;>
    rcases hideal : ideal with (ideal' | _) | ⟨a, s⟩ <;> rw [hreal, hideal] at h
  case error.fault.error.fault => exact h
  case ok.ok =>
    obtain ⟨m'', hrun, hpost⟩ := hlast m' a s hreal h
    simp only [hrun]
    exact hpost
  all_goals exact h.elim

/-- Something is made of the result. -/
lemma returns {real : Except Trap Machine} {act : Evaluating α} {f : α → β} {s : Store}
    (h : Agrees post real (act s)) (hpost : ∀ m a s, post m a s → post' m (f a) s) :
    Agrees post' real ((act >>= fun a => pure (f a)) s) := by
  simp only [bind, StateT.bind, Except.bind]
  rcases real with (real | _) | m <;> rcases hideal : act s with (ideal | _) | ⟨a, s'⟩ <;>
    rw [hideal] at h
  case error.fault.error.fault => exact h
  case ok.ok => exact hpost m a s' h
  all_goals exact h.elim

end Agrees

variable {tables : Tables} {owner : Option SymbolId} {used : Nat}

/-- From `m` the machine got to `m'` with `word` on top of the stack. -/
structure Leaves (tables : Tables) (owner : Option SymbolId) (used : Nat) (m m' : Machine)
    (word : Word) (s : Store) : Prop extends Reaches tables owner used 1 m m' s where
  /-- The value lies on top of the stack. -/
  top : m'.mem.quad (m'.regs .rsp) = word

variable {m' : Machine} {s : Store} {word : Word}

lemma Reaches.still {k : Nat} {m'' : Machine} (framed : Framed tables owner used)
    (h : Reaches tables owner used k m m' s) (hstill : m'.Still m'') :
    Reaches tables owner used k m m'' s :=
  h.same framed hstill.frame hstill.stack hstill.mem hstill.calls

/-- Pushing the value of an operand. -/
lemma push_leaves (framed : Framed tables owner used) (h : Reaches tables owner used 0 m m' s)
    (hroom : 8 ≤ (m.regs .rsp).toNat) {src : Operand} (hword : m'.read src = word) :
    Agrees (Leaves tables owner used m) (m'.run answers [.pushq src]) (.ok (word, s)) := by
  have hstack := h.stack
  rw [Machine.run_singleton]
  refine ⟨h.push framed (by omega), ?_⟩
  rw [hword]
  exact Machine.push_top word

/-- The code of an arithmetic operator. -/
lemma arithmetic_leaves (framed : Framed tables owner used) (op : ArithOp) (unsigned : Bool)
    (h : Reaches tables owner used 0 m m' s) (hroom : 8 ≤ (m.regs .rsp).toNat) :
    Agrees (Leaves tables owner used m) (m'.run answers (Counted.arithmeticCode unsigned op))
      (match op.apply unsigned (m'.regs .rax) (m'.regs .rdi) with
        | some word => .ok (word, s)
        | none => .error (.fault s.calls)) := by
  have hdivision := @division_run answers m' unsigned
  cases op with
  | add =>
    refine .instr rfl (push_leaves framed (h.still framed ?_) hroom rfl)
    exact ⟨rfl, rfl, rfl, rfl⟩
  | sub =>
    refine .instr rfl (push_leaves framed (h.still framed ?_) hroom rfl)
    exact ⟨rfl, rfl, rfl, rfl⟩
  | mul =>
    refine .instr rfl (push_leaves framed (h.still framed ?_) hroom rfl)
    exact ⟨rfl, rfl, rfl, rfl⟩
  | div =>
    -- a division traps on both sides or on none
    simp only [Counted.arithmeticCode, ArithOp.apply]
    split at hdivision
    · rename_i quotient remainder hword
      obtain ⟨m'', hrun, hstill, hquotient, -⟩ := hdivision
      rw [hword]
      exact .after hrun (push_leaves framed (h.still framed hstill) hroom hquotient)
    · rename_i hnone
      rw [hnone, Machine.run_append, hdivision]
      exact h.represents.calls
  | mod =>
    simp only [Counted.arithmeticCode, ArithOp.apply]
    split at hdivision
    · rename_i quotient remainder hword
      obtain ⟨m'', hrun, hstill, -, hremainder⟩ := hdivision
      rw [hword]
      exact .after hrun (push_leaves framed (h.still framed hstill) hroom hremainder)
    · rename_i hnone
      rw [hnone, Machine.run_append, hdivision]
      exact h.represents.calls

/-- The code of a comparison. -/
lemma comparison_leaves (framed : Framed tables owner used) (op : CompareOp) (unsigned : Bool)
    (h : Reaches tables owner used 0 m m' s) (hroom : 8 ≤ (m.regs .rsp).toNat) :
    Agrees (Leaves tables owner used m) (m'.run answers (Counted.comparisonCode unsigned op))
      (.ok (.ofBool (op.holds unsigned (m'.regs .rax) (m'.regs .rdi)), s)) := by
  refine .instr rfl (.instr rfl (.instr rfl (push_leaves framed (h.still framed ?_) hroom ?_)))
  · exact ⟨rfl, rfl, rfl, rfl⟩
  have hclear : m'.regs .rsi ^^^ m'.regs .rsi = 0 := BitVec.xor_self
  rw [← condition_holds, ← Word.zero_setLow, ← hclear]
  rfl

/-- The code that makes a boolean of the value in `%rax`. -/
lemma bool_leaves (framed : Framed tables owner used) (h : Reaches tables owner used 0 m m' s)
    (hroom : 8 ≤ (m.regs .rsp).toNat) :
    Agrees (Leaves tables owner used m) (m'.run answers Counted.boolCode)
      (.ok (.ofBool (m'.regs .rax != 0), s)) := by
  refine .instr rfl (.instr rfl (.instr rfl (push_leaves framed (h.still framed ?_) hroom ?_)))
  · exact ⟨rfl, rfl, rfl, rfl⟩
  have hzero := Flags.zero_eq (m'.regs .rax) 0
  rw [bne, ← hzero, ← Word.lowByte_setLow]
  rfl

/-! ## Calls -/

/-- A call is answered, whether or not the stack is padded around it. -/
lemma padded_call (framed : Framed tables owner used) (depth : Nat) (name : String)
    {words : List Word} (h : Reaches tables owner used 0 m m' s)
    (hroom : 8 ≤ (m.regs .rsp).toNat) (hwords : words <+: Reg.arguments.map m'.regs) :
    ∃ m'', m'.run answers (Counted.padded depth [.movq (.imm 0) (.reg .rax), .call name]) =
        .ok m'' ∧ m''.regs .rax = (answers s.calls.length).result ∧
      Reaches tables owner used 0 m m'' (s.called name words) := by
  have hstack := h.stack
  have hcount : m'.calls.length = s.calls.length := h.represents.calls.length_eq
  have hcalls : List.Forall₂ Call.Shows (m'.calls ++ [⟨name, Reg.arguments.map m'.regs⟩])
      (s.called name words).calls :=
    List.rel_append h.represents.calls (.cons ⟨rfl, hwords⟩ .nil)
  by_cases hodd : depth % 2 = 1
  · -- the slot that pads the stack is given back behind the call
    have hback : m'.regs .rsp - 8 + 8 = m'.regs .rsp := BitVec.sub_add_cancel _ _
    have hlower := Machine.sub_eight_toNat (show 8 ≤ (m'.regs .rsp).toNat by omega)
    rw [Counted.padded, if_pos hodd]
    refine ⟨_, rfl, ?_, h.step framed rfl ?_ ?_ rfl hcalls⟩
    · exact congrArg (fun n => (answers n).result) hcount
    · show (m'.regs .rsp - 8 + 8).toNat + 8 * 0 = (m.regs .rsp).toNat
      rw [hback]
      exact h.stack
    · intro a ha
      refine if_neg (Nat.not_lt.mpr ?_)
      show (m'.regs .rsp - 8).toNat ≤ a.toNat
      omega
  · rw [Counted.padded, if_neg hodd]
    refine ⟨_, rfl, ?_, h.step framed rfl ?_ ?_ rfl hcalls⟩
    · exact congrArg (fun n => (answers n).result) hcount
    · exact h.stack
    · intro a ha
      refine if_neg (Nat.not_lt.mpr ?_)
      show (m'.regs .rsp).toNat ≤ a.toNat
      omega

/-- The code of a call whose arguments are in their registers. -/
lemma call_leaves (framed : Framed tables owner used) (depth : Nat) (name : String)
    (returnsBool : Bool) {words : List Word} (h : Reaches tables owner used 0 m m' s)
    (hroom : 8 ≤ (m.regs .rsp).toNat) (hwords : words <+: Reg.arguments.map m'.regs) :
    Agrees (Leaves tables owner used m)
      (m'.run answers (Counted.callSequence depth name returnsBool))
      (.ok (if returnsBool then (answers s.calls.length).result.lowByte
        else (answers s.calls.length).result, s.called name words)) := by
  obtain ⟨m'', hrun, hresult, hreaches⟩ := padded_call framed depth name h hroom hwords
  rw [Counted.callSequence, List.append_assoc]
  refine .after hrun ?_
  cases returnsBool with
  | false => exact push_leaves framed hreaches hroom hresult
  | true =>
    refine .instr rfl (push_leaves framed (hreaches.still framed ?_) hroom ?_)
    · exact ⟨rfl, rfl, rfl, rfl⟩
    · exact congrArg Word.lowByte hresult

end Lowering

end ParenC
