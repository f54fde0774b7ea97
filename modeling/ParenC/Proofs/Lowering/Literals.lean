/-
Integer literals from their digits to a word of the machine.

The digits of a literal are read into a number of 64 bits, signed or not; the code pushes that
number as a constant that an assembler reads from a decimal text.  Two ways of writing the
constant and two ways of reading the bits meet here: `pushq` extends 32 bits by their sign,
`movabsq` takes all 64, and an unsigned number from 2^63 on is written as the negative number
with the same bits.

Both ends are texts of decimal numbers, and both are taken apart as a `Numeral`.  The main result
is `literal_keeps_value`.
-/
import Mathlib.Data.Int.ModEq
import ParenC.Proofs.Lowering.Encoding
import ParenC.Proofs.Token
import ParenC.Reading.Basic

namespace ParenC

/-! ## Decimal texts -/

lemma decimal_toDigits (n : Nat) : decimal 0 (Nat.toDigits 10 n) = n :=
  Nat.ofDigitChars_ten_toDigits

/-- Only zero is written with a zero in front. -/
lemma head?_toDigits {n : Nat} (h : 0 < n) : (Nat.toDigits 10 n).head? ≠ some '0' := by
  induction n using Nat.strongRecOn with
  | _ n ih =>
    rw [Nat.toDigits_eq_if (by decide)]
    split
    · rename_i hsmall
      interval_cases n <;> decide
    · rw [List.head?_append_of_ne_nil _ Nat.toDigits_ne_nil]
      exact ih (n / 10) (by omega) (by omega)

namespace Numeral

/-- The decimal text of a number, taken apart. -/
def ofInt (i : Int) : Numeral where
  negative := decide (i < 0)
  digits := Nat.toDigits 10 i.natAbs
  unsigned := false
  nonempty := Nat.toDigits_ne_nil
  isDigit _ hc := Nat.isDigit_of_mem_toDigits (by decide) (by decide) hc
  leading hhead := by
    have hzero : i.natAbs = 0 := by
      by_contra hne
      exact head?_toDigits (Nat.pos_of_ne_zero hne) hhead
    obtain rfl := Int.natAbs_eq_zero.mp hzero
    decide

lemma number_ofInt (i : Int) : (ofInt i).number = i := by
  simp only [number, magnitude, ofInt, decimal_toDigits, decide_eq_true_eq]
  split <;> omega

lemma text_ofInt (i : Int) : (ofInt i).text = toString i := by
  cases i with
  | ofNat n =>
    have hsign : ¬ (Int.ofNat n < 0) := by simp
    simp only [text, chars, ofInt, hsign, decide_false, Bool.false_eq_true, if_false,
      List.nil_append, List.append_nil]
    exact Nat.repr_eq_ofList_toDigits.symm
  | negSucc n =>
    have hrepr : toString (Int.negSucc n) = "-" ++ toString (n + 1) := rfl
    have hdigits : toString (n + 1) = String.ofList (Nat.toDigits 10 (n + 1)) :=
      Nat.repr_eq_ofList_toDigits
    simp only [text, chars, ofInt, Int.negSucc_lt_zero, decide_true, if_true, Bool.false_eq_true,
      if_false, List.append_nil, Int.natAbs_negSucc, String.ofList_append, hrepr, hdigits]

end Numeral

/-- The text is that of a whole number in decimal digits. -/
def IsDecimal (text : String) (number : Int) : Prop :=
  ∃ n : Numeral, n.unsigned = false ∧ n.text = text ∧ n.number = number

lemma isDecimal_toString (i : Int) : IsDecimal (toString i) i :=
  ⟨.ofInt i, rfl, Numeral.text_ofInt i, Numeral.number_ofInt i⟩

/-! ## Constants -/

lemma IntegerValue.word_modEq (v : IntegerValue) : v.word ≡ v.toInt [ZMOD 2 ^ 64] := by
  have hcount : (wordCount : Int) = 2 ^ 64 := rfl
  rw [word, Int.ModEq, ← hcount]
  exact Int.bmod_emod

namespace Lowering

/-- The code pushes the number as one word, its constant written in decimal digits: by `pushq`
just if the number is the sign extension of 32 bits, and through `movabsq` otherwise. -/
structure Pushes (number : Int) (code : List Instr) : Prop where
  /-- The constant has the bits of the number, and is one that an assembler accepts there. -/
  written : ∃ text constant, IsDecimal text constant ∧ constant ≡ number [ZMOD 2 ^ 64] ∧
    if -2 ^ 31 ≤ number ∧ number ≤ 2 ^ 31 - 1 then
      constant = number ∧ code.map Instr.text = ["pushq $" ++ text]
    else
      (-2 ^ 63 ≤ constant ∧ constant ≤ 2 ^ 63 - 1) ∧
        code.map Instr.text = ["movabsq $" ++ text ++ ", %rax", "pushq %rax"]
  /-- The machine has the number on its stack afterwards. -/
  reaches : ∀ answers m, ∃ m', Machine.run answers code m = .ok m' ∧
    m'.regs .rsp = m.regs .rsp - 8 ∧ m'.mem.quad (m'.regs .rsp) = BitVec.ofInt 64 number

lemma literal_pushes (v : IntegerValue) (depth : Nat) :
    ∃ code, literal v depth = .ok (code, depth + 1) ∧ Pushes v.toInt code := by
  by_cases half : v.fitsHalf = true
  · -- a small literal is pushed as it is; it is extended by its sign
    refine ⟨[.pushq (.imm v.word)], by simp only [literal, if_pos half]; rfl, ?_, ?_⟩
    · refine ⟨toString v.word, v.word, isDecimal_toString _, v.word_modEq, ?_⟩
      rw [if_pos (IntegerValue.fitsHalf_iff.mp half)]
      exact ⟨IntegerValue.word_of_fitsHalf half, by
        simp [Instr.text, Operand.quad, immediateText, ← String.append_assoc]⟩
    · intro answers m
      refine ⟨m.push (m.read (.imm v.word)), Machine.run_singleton _, by simp, ?_⟩
      rw [Machine.push_regs, if_pos rfl, Machine.push_top, ← IntegerValue.bits_eq]
      exact IntegerValue.signExtend_word half
  · -- any other goes through a register, which takes all of its bits
    refine ⟨[.movabsq v.word .rax, .pushq (.reg .rax)], by
      simp only [literal, if_neg half]; rfl, ?_, ?_⟩
    · refine ⟨toString v.word, v.word, isDecimal_toString _, v.word_modEq, ?_⟩
      have hwhole := IntegerValue.fitsWhole_word (v := v)
      rw [if_neg (mt IntegerValue.fitsHalf_iff.mpr half)]
      refine ⟨by simp only [FitsWhole, signCount] at hwhole; omega, ?_⟩
      simp only [List.map_cons, List.map_nil, Instr.text, Operand.quad, twoOperands,
        immediateText, Reg.quad, String.append_assoc]
      rfl
    · intro answers m
      refine ⟨(m.set .rax (BitVec.ofInt 64 v.word)).push (BitVec.ofInt 64 v.word), ?_, ?_, ?_⟩
      · rw [Machine.run_cons]
        simp [Machine.exec, Machine.read, bind, Except.bind]
      · simp
      · rw [Machine.push_regs, if_pos rfl, Machine.push_top, ← IntegerValue.bits_eq]
        exact IntegerValue.ofInt_word v

end Lowering

/-! ## Literals -/

namespace Numeral

variable {n : Numeral}

lemma toInt_value (h : n.InRange) : n.value.toInt = n.number := by
  unfold InRange at h
  unfold value number
  split at h
  · simp_all [IntegerValue.toInt]
  · simp_all [IntegerValue.toInt, number]

lemma inRange_iff : n.InRange ↔
    (n.unsigned = false ∧ -2 ^ 63 ≤ n.number ∧ n.number ≤ 2 ^ 63 - 1) ∨
      (n.unsigned = true ∧ n.negative = false ∧ n.number < 2 ^ 64) := by
  unfold InRange number
  cases n.unsigned <;> cases n.negative <;> simp
  omega

end Numeral

namespace Reading

lemma integerNode_eq_ok {token : Token} {n : Numeral} (htext : token.text = n.text)
    {ws ws' : Workspace} {node : Node} : integerNode token ws = .ok node ws' ↔
      n.InRange ∧ node = .integer token.location n.value ∧ ws' = ws := by
  cases hread : IntegerValue.ofText token.text with
  | ok value =>
    simp only [integerNode, hread, CompileM.pure_eq_ok]
    rw [htext, n.ofText_eq_ok] at hread
    simp [hread.1, hread.2, eq_comm]
  | error fault =>
    simp only [integerNode, hread]
    refine iff_of_false (fun h => by cases h) ?_
    rintro ⟨hrange, -⟩
    rw [htext, n.ofText_eq_ok.mpr ⟨hrange, rfl⟩] at hread
    cases hread

/-- Every integer token is the text of a numeral; it is read just if the number is in range, and
then the code for it pushes that number. -/
theorem literal_keeps_value {source : String} {start ws : Workspace} {tokens : List Token}
    (h : CompileM.tokenize source start = .ok tokens ws) {token : Token} (hmem : token ∈ tokens)
    (hkind : token.kind = .integer) :
    ∃ n : Numeral, token.text = n.text ∧
      (∀ ws, (∃ node ws', integerNode token ws = .ok node ws') ↔
        (n.unsigned = false ∧ -2 ^ 63 ≤ n.number ∧ n.number ≤ 2 ^ 63 - 1) ∨
          (n.unsigned = true ∧ n.negative = false ∧ n.number < 2 ^ 64)) ∧
      ∀ ws node ws', integerNode token ws = .ok node ws' →
        ∀ tables depth, ∃ code, Lowering.value tables node depth = .ok (code, depth + 1) ∧
          Lowering.Pushes n.number code := by
  obtain ⟨body, loc, rfl, -, -, hlexical⟩ := tokenize_eq_ok h
  have hbody : token ∈ body := by
    rcases List.mem_append.mp hmem with hbody | hend
    · exact hbody
    · rw [List.mem_singleton.mp hend] at hkind
      cases hkind
  have hallows := (hlexical token hbody).1
  rw [Token.Lexical, hkind] at hallows
  obtain ⟨n, htext⟩ : ∃ n : Numeral, token.text = n.text := hallows
  refine ⟨n, htext, fun ws => ?_, fun ws node ws' hnode tables depth => ?_⟩
  · simp only [integerNode_eq_ok htext, ← Numeral.inRange_iff]
    constructor
    · rintro ⟨-, -, hrange, -, -⟩
      exact hrange
    · intro hrange
      exact ⟨_, _, hrange, rfl, rfl⟩
  · obtain ⟨hrange, rfl, -⟩ := (integerNode_eq_ok htext).mp hnode
    rw [← Numeral.toInt_value hrange]
    exact Lowering.literal_pushes n.value depth

/-- The greatest unsigned literal has the bits of minus one, and that is how it is written. -/
theorem literal_keeps_value_greatest : ∃ (ws : Workspace) (token : Token) (tokens : List Token),
    (CompileM.tokenize "18446744073709551615u" (.initial "greatest") = .ok tokens ws ∧
      token ∈ tokens ∧ token.kind = .integer) ∧
    ∃ n : Numeral, n.text = "18446744073709551615u" ∧
      ∃ node, integerNode token ws = .ok node ws ∧
        ∃ code, Lowering.value {} node 0 = .ok (code, 1) ∧ Lowering.Pushes n.number code ∧
          code.map Instr.text = ["movabsq $-1, %rax", "pushq %rax"] := by
  let source := "18446744073709551615u"
  have hscan : Scan.run source = ⟨[⟨.integer, ⟨1, 1⟩, source⟩], .finished ⟨1, 22⟩⟩ := by
    decide +kernel
  have htokenize : ∃ ws, CompileM.tokenize source (.initial "greatest") =
      .ok ([⟨.integer, ⟨1, 1⟩, source⟩] ++ [Token.eof ⟨1, 22⟩]) ws := by
    unfold CompileM.tokenize
    rw [hscan]
    exact ⟨_, rfl⟩
  obtain ⟨ws, htokenize⟩ := htokenize
  obtain ⟨n, htext, -, hpushes⟩ := literal_keeps_value htokenize (.head _) rfl
  refine ⟨ws, _, _, ⟨htokenize, .head _, rfl⟩, n, htext.symm, ?_⟩
  have hread : IntegerValue.ofText source = .ok (.unsigned 18446744073709551615) := by
    decide +kernel
  have hnode : integerNode ⟨.integer, ⟨1, 1⟩, source⟩ ws =
      .ok (.integer ⟨1, 1⟩ (.unsigned 18446744073709551615)) ws := by
    rw [integerNode, hread]
    rfl
  obtain ⟨code, hcode, hpushed⟩ := hpushes ws _ ws hnode {} 0
  refine ⟨_, hnode, code, hcode, hpushed, ?_⟩
  cases hcode
  decide +kernel

end Reading

end ParenC
