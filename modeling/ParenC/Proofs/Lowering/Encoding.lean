/-
Numbers in instructions.

An instruction has room for a number of 32 bits, which is extended by its sign: a constant, or the
distance of an operand from the frame pointer.  Only `movabsq` has room for 64 bits.  Literals are
held to this when code is emitted for them.  Nothing holds the frame to it, so its size decides:
`encodable_iff` says that the code of a function can be encoded just if its frame is smaller than
two to the power of 31 bytes.
-/
import ParenC.Proofs.Lowering.Access

namespace ParenC

open Lowering

/-- The number is one of 32 bits, signed. -/
def FitsHalf (n : Int) : Prop := -halfSignCount ≤ n ∧ n < halfSignCount

/-- The number is one of 64 bits, signed. -/
def FitsWhole (n : Int) : Prop := -(signCount : Int) ≤ n ∧ n < signCount

instance (n : Int) : Decidable (FitsHalf n) := inferInstanceAs (Decidable (_ ∧ _))

instance (n : Int) : Decidable (FitsWhole n) := inferInstanceAs (Decidable (_ ∧ _))

/-! ## Instructions -/

/-- The number of the operand fits, if it has one. -/
def Operand.Encodable : Operand → Prop
  | reg _ => True
  | imm value => FitsHalf value
  | frame offset => FitsHalf (-(offset : Int))

/-- The operand is not a constant, or one that fits. -/
def Operand.ConstantFits : Operand → Prop
  | imm value => FitsHalf value
  | reg _ | frame _ => True

instance : (operand : Operand) → Decidable operand.Encodable
  | .reg _ => .isTrue trivial
  | .imm value => inferInstanceAs (Decidable (FitsHalf value))
  | .frame offset => inferInstanceAs (Decidable (FitsHalf (-(offset : Int))))

instance : (operand : Operand) → Decidable operand.ConstantFits
  | .imm value => inferInstanceAs (Decidable (FitsHalf value))
  | .reg _ | .frame _ => .isTrue trivial

/-- The operands of an instruction other than registers that it has to work on. -/
def Instr.operands : Instr → List Operand
  | pushq src | addq src _ | subq src _ | cmpq src _ | movzbq src _ => [src]
  | movq src dst => [src, dst]
  | movb _ offset => [.frame offset]
  | popq _ | movabsq .. | imulq .. | cqto | idivq _ | divq _ | xorq .. | xorl .. | set ..
  | call _ => []

/-- The constant of any size that an instruction loads. -/
def Instr.wide? : Instr → Option Int
  | movabsq value _ => some value
  | _ => none

/-- All numbers of the instruction fit. -/
def Instr.Encodable (instr : Instr) : Prop :=
  (∀ operand ∈ instr.operands, operand.Encodable) ∧ ∀ value ∈ instr.wide?, FitsWhole value

/-- All constants of the instruction fit. -/
def Instr.ConstantsFit (instr : Instr) : Prop :=
  (∀ operand ∈ instr.operands, operand.ConstantFits) ∧ ∀ value ∈ instr.wide?, FitsWhole value

instance (instr : Instr) : Decidable instr.Encodable := inferInstanceAs (Decidable (_ ∧ _))

instance (instr : Instr) : Decidable instr.ConstantsFit := inferInstanceAs (Decidable (_ ∧ _))

/-- All numbers of the line fit. -/
def Line.Encodable : Line → Prop
  | instr i => i.Encodable
  | jmp _ | je _ | ret | label _ => True

/-- All constants of the line fit. -/
def Line.ConstantsFit : Line → Prop
  | instr i => i.ConstantsFit
  | jmp _ | je _ | ret | label _ => True

instance : (line : Line) → Decidable line.Encodable
  | .instr i => inferInstanceAs (Decidable i.Encodable)
  | .jmp _ | .je _ | .ret | .label _ => .isTrue trivial

/-- All numbers in the code of a program fit. -/
def Assembly.Encodable (assembly : Assembly) : Prop :=
  ∀ routine ∈ assembly.routines, ∀ line ∈ routine.lines, line.Encodable

instance (assembly : Assembly) : Decidable assembly.Encodable :=
  inferInstanceAs
    (Decidable (∀ routine ∈ assembly.routines, ∀ line ∈ routine.lines, line.Encodable))

/-- An operand in the frame is touched by its instruction. -/
lemma Instr.exists_access {instr : Instr} {offset : Nat} (h : .frame offset ∈ instr.operands) :
    ∃ access ∈ instr.accesses, access.offset = offset := by
  cases instr with
  | pushq src | addq src | subq src | cmpq src | movzbq src =>
    obtain rfl := List.mem_singleton.mp h
    exact ⟨_, List.mem_singleton_self _, rfl⟩
  | movq src dst =>
    rcases List.mem_pair.mp h with rfl | rfl
    · exact ⟨⟨offset, 8⟩, List.mem_append_left _ (List.mem_singleton_self _), rfl⟩
    · exact ⟨⟨offset, 8⟩, List.mem_append_right _ (List.mem_singleton_self _), rfl⟩
  | movb src dst =>
    cases List.mem_singleton.mp h
    exact ⟨⟨offset, 1⟩, List.mem_singleton_self _, rfl⟩
  | _ => cases h

/-- What is left are places in the frame. -/
lemma Instr.ConstantsFit.encodable {instr : Instr} (h : instr.ConstantsFit)
    (hnear : ∀ access ∈ instr.accesses, (access.offset : Int) ≤ halfSignCount) :
    instr.Encodable := by
  refine ⟨fun operand hoperand => ?_, h.2⟩
  cases operand with
  | reg r => trivial
  | imm value => exact h.1 _ hoperand
  | frame offset =>
    obtain ⟨access, haccess, rfl⟩ := Instr.exists_access hoperand
    have hoffset := hnear access haccess
    show -halfSignCount ≤ -(access.offset : Int) ∧ -(access.offset : Int) < halfSignCount
    simp only [halfSignCount] at hoffset ⊢
    omega

lemma Line.ConstantsFit.encodable {line : Line} (h : line.ConstantsFit)
    (hnear : ∀ access ∈ line.accesses, (access.offset : Int) ≤ halfSignCount) :
    line.Encodable := by
  cases line with
  | instr i => exact Instr.ConstantsFit.encodable h hnear
  | jmp | je | ret | label => trivial

namespace IntegerValue

variable {v : IntegerValue}

/-- A literal that is pushed as it is fits into 32 bits. -/
lemma fitsHalf_word (h : v.fitsHalf = true) : FitsHalf v.word := by
  have hrange := fitsHalf_iff.mp h
  rw [word_of_fitsHalf h]
  simp only [FitsHalf, halfSignCount]
  omega

/-- Any literal is written as a number of 64 bits. -/
lemma fitsWhole_word : FitsWhole v.word := by
  have hleast : -((wordCount : Int) / 2) ≤ v.word := Int.le_bmod (by decide)
  have hgreatest : v.word < ((wordCount : Int) + 1) / 2 := Int.bmod_lt (by decide)
  simp only [FitsWhole, signCount, wordCount] at *
  omega

end IntegerValue

namespace Lowering

variable {tables : Tables}

/-! ## Code -/

/-- All constants of the instructions fit. -/
def ConstantsFit (code : List Instr) : Prop := ∀ instr ∈ code, instr.ConstantsFit

instance (code : List Instr) : Decidable (ConstantsFit code) :=
  inferInstanceAs (Decidable (∀ instr ∈ code, instr.ConstantsFit))

namespace ConstantsFit

variable {code first second : List Instr} {instr : Instr}

lemma append (h₁ : ConstantsFit first) (h₂ : ConstantsFit second) :
    ConstantsFit (first ++ second) := by
  intro instr hinstr
  rcases List.mem_append.mp hinstr with hinstr | hinstr
  · exact h₁ instr hinstr
  · exact h₂ instr hinstr

lemma cons (hinstr : instr.ConstantsFit) (h : ConstantsFit code) :
    ConstantsFit (instr :: code) := by
  intro other hother
  rcases List.mem_cons.mp hother with rfl | hother
  · exact hinstr
  · exact h other hother

lemma popq (regs : List Reg) : ConstantsFit (regs.map Instr.popq) := by
  intro instr hinstr
  obtain ⟨reg, -, rfl⟩ := List.mem_map.mp hinstr
  exact ⟨by simp [Instr.operands], by simp [Instr.wide?]⟩

lemma pushq (regs : List Reg) : ConstantsFit (regs.map fun reg => Instr.pushq (.reg reg)) := by
  intro instr hinstr
  obtain ⟨reg, -, rfl⟩ := List.mem_map.mp hinstr
  exact ⟨by simp [Instr.operands, Operand.ConstantFits], by simp [Instr.wide?]⟩

end ConstantsFit

lemma Slot.load_constantsFit (slot : Slot) : slot.load.ConstantsFit := by
  rcases slot with ⟨offset, _ | _⟩ <;>
    simp [load, Instr.ConstantsFit, Instr.operands, Operand.ConstantFits, Instr.wide?]

lemma Slot.store_constantsFit (src : Reg) (slot : Slot) : (slot.store src).ConstantsFit := by
  rcases slot with ⟨offset, _ | _⟩ <;>
    simp [store, Instr.ConstantsFit, Instr.operands, Operand.ConstantFits, Instr.wide?]

lemma constantsFit_arithmetic (unsigned : Bool) (op : ArithOp) :
    ConstantsFit (Counted.arithmeticCode unsigned op) := by
  cases op <;> cases unsigned <;> decide

lemma constantsFit_comparison (unsigned : Bool) (op : CompareOp) :
    ConstantsFit (Counted.comparisonCode unsigned op) := by
  cases op <;> cases unsigned <;> decide

lemma constantsFit_call (depth : Nat) (name : String) (returnsBool : Bool) :
    ConstantsFit (Counted.callSequence depth name returnsBool) := by
  have hcall : ConstantsFit [.movq (.imm 0) (.reg .rax), .call name] :=
    .cons (by decide) (.cons ⟨by simp [Instr.operands], by simp [Instr.wide?]⟩ (by decide))
  have hpadded : ConstantsFit
      (Counted.padded depth [.movq (.imm 0) (.reg .rax), .call name]) := by
    unfold Counted.padded
    split
    · exact .cons (by decide) (hcall.append (by decide))
    · exact hcall
  have hextension : ConstantsFit (Counted.extension returnsBool) := by
    cases returnsBool <;> decide
  exact (hpadded.append hextension).append (by decide)

/-- The constants in the code of expressions fit, by induction on its shape: they are literals,
which were compared with the bounds, and a few small numbers. -/
theorem Lowers.constantsFit {job : Job} {depth : Nat} {code : Counted Instr}
    (h : Lowers tables job depth code) : ConstantsFit code.erase := by
  induction h with
  | literal half =>
    refine .cons ⟨fun operand hoperand => ?_, by simp [Instr.wide?]⟩ (by decide)
    rw [List.mem_singleton.mp hoperand]
    exact IntegerValue.fitsHalf_word half
  | wideLiteral wide =>
    rw [Counted.erase_level]
    refine .cons ⟨by simp [Instr.operands], ?_⟩ (by decide)
    rintro value ⟨⟩
    exact IntegerValue.fitsWhole_word
  | @boolean loc b depth =>
    show ConstantsFit [.pushq (.imm (if b then 1 else 0))]
    cases b <;> decide
  | load isStorage source =>
    rw [Counted.erase_level]
    exact .cons (Slot.load_constantsFit _) (by decide)
  | assign right target ih =>
    rw [Counted.erase_append, Counted.erase_cons, Counted.erase_level]
    exact ih.append (.cons (by decide) (.cons (Slot.store_constantsFit _ _) (by decide)))
  | @arith loc op lhs rhs rightCode leftCode unsigned depth right left sign ihRight ihLeft =>
    simp only [Counted.erase_append, Counted.erase_pops, Counted.erase_level]
    exact ((ihRight.append ihLeft).append (.popq _)).append (constantsFit_arithmetic unsigned op)
  | @compare loc op lhs rhs rightCode leftCode unsigned depth right left sign ihRight ihLeft =>
    simp only [Counted.erase_append, Counted.erase_pops, Counted.erase_level]
    exact ((ihRight.append ihLeft).append (.popq _)).append (constantsFit_comparison unsigned op)
  | call arguments target typed resolved ih =>
    rw [Counted.erase_append, Counted.erase_level]
    exact ih.append (constantsFit_call _ _ _)
  | toBool inner goal origin other ih =>
    rw [Counted.erase_append, Counted.erase_cons, Counted.erase_level]
    exact ih.append (by decide)
  | keep inner goal origin same ih => exact ih
  | noArguments => decide
  | @argument used reg free arg rest code others depth first later ihFirst ihLater =>
    simp only [Counted.erase_append, Counted.erase_cons, Counted.erase_pushes, Counted.erase_pops]
    have htaken : Instr.ConstantsFit (.popq reg) := ConstantsFit.popq [reg] _ (by simp)
    exact (((ConstantsFit.pushq _).append ihFirst).append (.cons htaken (.popq _))).append ihLater

/-- So do those in the code of actions. -/
lemma Action.constantsFit {action : Action} {code : Counted Instr}
    (h : Emitted tables action code) : ConstantsFit code.erase := by
  obtain ⟨-, inner, tail, hinner, hfinish, rfl⟩ := Action.emit_lowers h
  rw [Counted.erase_append, Counted.erase_cons, Counted.erase_level]
  refine hinner.constantsFit.append (.cons (by decide) ?_)
  cases action with
  | effect | result =>
    rw [show tail = _ from hfinish]
    decide
  | test =>
    rw [show tail = _ from hfinish]
    decide
  | assign lhs rhs =>
    obtain ⟨place, -, rfl⟩ := hfinish
    exact .cons (Slot.store_constantsFit _ _) (by decide)

/-- The lines of a chunk hold constants of actions and a zero. -/
lemma Chunk.constantsFit {chunk : Chunk} {depth : Nat} {line : Line}
    (hemitted : ∀ action code, chunk = .action action code → Emitted tables action code)
    (h : (depth, line) ∈ chunk.lines) : line.ConstantsFit := by
  cases chunk with
  | action action code =>
    have hline : line ∈ Counted.erase (Counted.plain code) := List.mem_map_of_mem (f := Prod.snd) h
    rw [Counted.erase_plain] at hline
    obtain ⟨instr, hinstr, rfl⟩ := List.mem_map.mp hline
    exact Action.constantsFit (hemitted action code rfl) instr hinstr
  | jump | branch | label =>
    cases List.mem_singleton.mp h
    trivial
  | zero =>
    cases List.mem_singleton.mp h
    exact (by decide : Instr.ConstantsFit (.movq (.imm 0) (.reg .rax)))
  | leave =>
    simp only [lines, epilogue, Counted.level, List.map_cons, List.map_nil, List.mem_cons,
      List.not_mem_nil, Prod.mk.injEq, or_false] at h
    rcases h with ⟨-, rfl⟩ | ⟨-, rfl⟩ | ⟨-, rfl⟩
    · exact (by decide : Instr.ConstantsFit (.movq (.reg .rbp) (.reg .rsp)))
    · exact (by decide : Instr.ConstantsFit (.popq .rbp))
    · trivial

lemma spill_constantsFit {loc : Location} {pairs : List (SymbolId × Reg)} {spills : List Instr}
    (h : spill tables loc pairs = .ok spills) : ConstantsFit spills := by
  induction pairs generalizing spills with
  | nil =>
    cases h
    decide
  | cons pair rest ih =>
    obtain ⟨place, others, -, hrest, rfl⟩ := spill_cons_eq_ok h
    exact .cons (Slot.store_constantsFit _ _) (ih hrest)

/-! ## Routines -/

/-- The line that makes room for a frame. -/
def reservation (frame : Nat) : Line := .instr (.subq (.imm frame) .rsp)

/-- All constants of the code of a function fit, but perhaps for the size of its frame. -/
theorem Function.constantsFit {function : Function} {frame next : Nat} {code : Code}
    (h : function.code tables frame next = .ok code) :
    ∀ line ∈ code.lines, line.ConstantsFit ∨ line = reservation frame := by
  obtain ⟨counted, spills, chunks, -, rfl, hspills, hchunks, hlines⟩ := Function.code_lays h
  intro line hline
  rw [Counted.Code.erase, hlines, Counted.erase_append, Counted.erase_level] at hline
  rcases List.mem_append.mp hline with hline | hline
  · obtain ⟨instr, hinstr, rfl⟩ := List.mem_map.mp hline
    rcases List.mem_append.mp hinstr with hinstr | hinstr
    · rcases List.mem_append.mp hinstr with hinstr | hinstr
      · exact .inl ((by decide : ConstantsFit [.pushq (.reg .rbp), .movq (.reg .rsp) (.reg .rbp)])
          instr hinstr)
      · split at hinstr
        · cases hinstr
        · exact .inr (congrArg Line.instr (List.mem_singleton.mp hinstr))
    · exact .inl (spill_constantsFit hspills instr hinstr)
  · obtain ⟨⟨depth, line⟩, hmem, rfl⟩ := List.mem_map.mp hline
    obtain ⟨chunk, hchunk, hmem⟩ := List.mem_flatMap.mp hmem
    have hemitted : ∀ action code, chunk = .action action code → Emitted tables action code := by
      rintro action code rfl
      rcases List.mem_append.mp hchunk with hchunk | hchunk
      · exact (hchunks.action hchunk).1
      · cases hzero : function.exitsZero <;> simp [Function.ending, hzero] at hchunk
    exact .inl (Chunk.constantsFit hemitted hmem)

/-- Room is made for every frame that is not empty. -/
lemma Function.reservation_mem {function : Function} {frame next : Nat} {code : Code}
    (h : function.code tables frame next = .ok code) (hframe : frame ≠ 0) :
    reservation frame ∈ code.lines := by
  obtain ⟨counted, spills, chunks, -, rfl, hspills, hchunks, hlines⟩ := Function.code_lays h
  rw [Counted.Code.erase, hlines, Counted.erase_append, Counted.erase_level]
  refine List.mem_append_left _ (List.mem_map_of_mem ?_)
  simp [prologue, hframe]

end Lowering

/-! ## Programs -/

/-- The numbers in a routine are constants that fit, distances that end in the frame, and the size
of the frame. -/
structure HasNumbers (frame : Nat) (routine : Routine) : Prop where
  /-- The code can be encoded just if the frame is small enough. -/
  encodable_iff : (∀ line ∈ routine.lines, line.Encodable) ↔ (frame : Int) < halfSignCount
  /-- Constants are never at fault. -/
  constants : ∀ line ∈ routine.lines, line.ConstantsFit ∨ line = reservation frame
  /-- All that is touched lies in the frame. -/
  within : ∀ line ∈ routine.lines, ∀ access ∈ line.accesses, access.offset ≤ frame

/-- Where the frame of a function is laid out, its size decides whether the code can be encoded. -/
lemma HasLayout.hasNumbers {tables : Tables} {unit : Program.Owned} {routine : Routine}
    {frame : Nat} (h : HasLayout tables unit routine frame) (hroom : HasRoom tables unit.1 frame) :
    HasNumbers frame routine := by
  obtain ⟨before, next, code, -, hcode, rfl⟩ := h.code
  have hconstants := Function.constantsFit hcode
  have hwithin : ∀ line ∈ code.lines, ∀ access ∈ line.accesses, access.offset ≤ frame := by
    intro line hline access haccess
    obtain ⟨hbytes, id, hid, hlies⟩ := h.access line hline access haccess
    -- the first byte of the operand belongs to its variable
    have hfirst : tables.Occupies id (-(access.offset : Int)) :=
      ⟨access.offset, access.bytes, hlies, le_refl _, by omega⟩
    have hbyte := (hroom.within hid hfirst).1
    omega
  refine ⟨⟨fun hall => ?_, fun hframe => ?_⟩, hconstants, hwithin⟩
  · by_cases hempty : frame = 0
    · rw [hempty]
      decide
    · exact ((hall _ (Function.reservation_mem hcode hempty)).1 _ (List.mem_singleton_self _)).2
  · intro line hline
    rcases hconstants line hline with hfits | rfl
    · refine hfits.encodable fun access haccess => ?_
      have hoffset := hwithin line hline access haccess
      omega
    · refine ⟨fun operand hoperand => ?_, by simp [Instr.wide?]⟩
      rw [List.mem_singleton.mp hoperand]
      exact ⟨by simp only [halfSignCount]; omega, hframe⟩

/-- The code of a program that is analyzed and compiled can be encoded just if each of its frames is
smaller than two to the power of 31 bytes; and in each routine nothing but the size of the frame and
the distances in it can be at fault.  A word has to hold the sizes of the frames: what is made of
larger ones is smaller than they are. -/
theorem encodable_iff {file source : String} {program : Program} {ws ws' : Workspace}
    {assembly : Assembly} (hanalyze : analyze source (.initial file) = .ok program ws)
    (hgenerate : generate program ws = .ok assembly ws')
    (hfits : ∀ unit ∈ program.functions ws.symbols, ws'.toTables.Fits unit.1) :
    (assembly.Encodable ↔ ∀ unit ∈ program.functions ws.symbols,
      (ws'.toTables.frameSize unit.1 : Int) < halfSignCount) ∧
    List.Forall₂ (fun unit routine => HasNumbers (ws'.toTables.frameSize unit.1) routine)
      (program.functions ws.symbols) assembly.routines := by
  have hall : List.Forall₂ (fun unit routine => HasNumbers (ws'.toTables.frameSize unit.1) routine)
      (program.functions ws.symbols) assembly.routines := by
    have hanalyzed := ((analyze_does file source).run hanalyze).2
    obtain ⟨hsame, hframes⟩ := generate_frames hanalyzed hgenerate
    obtain ⟨hlength, hcode⟩ := List.forall₂_iff_get.mp (generated_routines hanalyze hgenerate)
    refine List.forall₂_iff_get.mpr ⟨hlength, fun i hunit hroutine => ?_⟩
    have hmem := List.get_mem (program.functions ws.symbols) ⟨i, hunit⟩
    obtain ⟨frame, hlayout⟩ := (hcode i hunit hroutine).hasLayout hsame (hframes _ hmem)
    have hroom : HasRoom ws'.toTables _ frame :=
      hlayout.size ▸ (hframes _ hmem).hasRoom_iff.mpr (hfits _ hmem)
    exact hroom.frame_eq ▸ hlayout.hasNumbers hroom
  refine ⟨?_, hall⟩
  unfold Assembly.Encodable
  generalize program.functions ws.symbols = units at hall ⊢
  generalize assembly.routines = routines at hall ⊢
  induction hall with
  | nil => simp
  | cons hnumbers hrest ih =>
    rw [List.forall_mem_cons, List.forall_mem_cons, ih, hnumbers.encodable_iff]

/-- Literals of 64 bits beside frames of three sizes. -/
theorem encodable_iff_literals : ∃ program ws assembly ws',
    analyze "(defun f (b: bool n: u64) bool (let (struct x: s64 y: bool) s) (return b))
      (:= (let s64 i) 9223372036854775807) (f true 18446744073709551615u)"
      (.initial "literals") = .ok program ws ∧
    generate program ws = .ok assembly ws' ∧
    (∀ unit ∈ program.functions ws.symbols, ws'.toTables.Fits unit.1) ∧ assembly.Encodable ∧
    ∀ unit ∈ program.functions ws.symbols,
      (ws'.toTables.frameSize unit.1 : Int) < halfSignCount := by
  have hcompiles : compilesAnd "literals"
      "(defun f (b: bool n: u64) bool (let (struct x: s64 y: bool) s) (return b))
      (:= (let s64 i) 9223372036854775807) (f true 18446744073709551615u)"
      (fun program tables assembly => assembly.Encodable ∧
        ∀ unit ∈ program.functions tables.symbols, tables.Fits unit.1) = true := by
    rw [compilesAnd_ofList]
    decide +kernel
  obtain ⟨program, ws, assembly, ws', hanalyze, hgenerate, htest⟩ := runs_of_compilesAnd hcompiles
  obtain ⟨hencodable, hanalyzed⟩ := of_decide_eq_true htest
  have hfits : ∀ unit ∈ program.functions ws.symbols, ws'.toTables.Fits unit.1 :=
    fun unit hunit => (fits_congr hanalyze hgenerate unit.1).mpr (hanalyzed unit hunit)
  exact ⟨program, ws, assembly, ws', hanalyze, hgenerate, hfits, hencodable,
    (encodable_iff hanalyze hgenerate hfits).1.mp hencodable⟩

/-- A variable of a type that is four times as large as the one before it, and so on. -/
def nestedTypes : String :=
  "(typedef a (struct x: s64 y: s64 z: s64 w: s64))
  (typedef b (struct x: a y: a z: a w: a)) (typedef c (struct x: b y: b z: b w: b))
  (typedef d (struct x: c y: c z: c w: c)) (typedef e (struct x: d y: d z: d w: d))
  (typedef f (struct x: e y: e z: e w: e)) (typedef g (struct x: f y: f z: f w: f))
  (typedef h (struct x: g y: g z: g w: g)) (typedef i (struct x: h y: h z: h w: h))
  (typedef j (struct x: i y: i z: i w: i)) (typedef k (struct x: j y: j z: j w: j))
  (typedef l (struct x: k y: k z: k w: k)) (typedef m (struct x: l y: l z: l w: l))
  (typedef n (struct x: m y: m z: m w: m)) (let n v)"

set_option maxRecDepth 4000 in
/-- The frame of `main` has two to the power of 31 bytes, and no constant of 32 bits reserves it. -/
theorem not_encodable_nested : ∃ program ws assembly ws',
    analyze nestedTypes (.initial "nested") = .ok program ws ∧
    generate program ws = .ok assembly ws' ∧
    (∃ routine ∈ assembly.routines, reservation 0x80000000 ∈ routine.lines) ∧
    ¬ assembly.Encodable := by
  have hcompiles : compilesAnd "nested" nestedTypes (fun _ _ assembly =>
      (∃ routine ∈ assembly.routines, reservation 0x80000000 ∈ routine.lines) ∧
        ¬ assembly.Encodable) = true := by
    unfold nestedTypes
    rw [compilesAnd_ofList]
    decide +kernel
  obtain ⟨program, ws, assembly, ws', hanalyze, hgenerate, hlarge⟩ := runs_of_compilesAnd hcompiles
  exact ⟨program, ws, assembly, ws', hanalyze, hgenerate, of_decide_eq_true hlarge⟩

end ParenC
