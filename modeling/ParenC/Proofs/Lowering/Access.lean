/-
What the code of a function touches in its frame.

Every operand in the frame belongs to a variable of the function, and the instruction reads or
writes just the bytes of that variable.  This is shown by induction on the shapes of code for the
tables that the code was generated from; with the layout of the frames at the end of code
generation it becomes a statement about the routines of the program.
-/
import Mathlib.Order.Bounds.Basic
import ParenC.Proofs.Lowering.Layout

namespace ParenC

open Lowering

/-! ## Operands in the frame -/

/-- Some bytes of the frame. -/
structure Access where
  /-- The distance of the first byte below the frame pointer. -/
  offset : Nat
  /-- The number of bytes. -/
  bytes : Nat
deriving DecidableEq

/-- The bytes of the frame that an operand with the given number of bytes stands for. -/
def Operand.accesses (bytes : Nat) : Operand → List Access
  | frame offset => [⟨offset, bytes⟩]
  | reg _ | imm _ => []

/-- The bytes of the frame that an instruction reads or writes. -/
def Instr.accesses : Instr → List Access
  | pushq src | addq src _ | subq src _ | cmpq src _ => src.accesses 8
  | movq src dst => src.accesses 8 ++ dst.accesses 8
  | movb _ offset => [⟨offset, 1⟩]
  | movzbq src _ => src.accesses 1
  | popq _ | movabsq .. | imulq .. | cqto | idivq _ | divq _ | xorq .. | xorl .. | set .. | call _ =>
    []

/-- The bytes of the frame that a line reads or writes. -/
def Line.accesses : Line → List Access
  | instr i => i.accesses
  | jmp _ | je _ | ret | label _ => []

lemma Operand.bytes_of_mem_accesses {operand : Operand} {bytes : Nat} {access : Access}
    (h : access ∈ operand.accesses bytes) : access.bytes = bytes := by
  cases operand with
  | frame offset => rw [List.mem_singleton.mp h]
  | reg | imm => simp [accesses] at h

/-- One byte or eight bytes at a time are touched. -/
lemma Instr.bytes_of_mem_accesses {instr : Instr} {access : Access}
    (h : access ∈ instr.accesses) : access.bytes = 1 ∨ access.bytes = 8 := by
  cases instr with
  | pushq | addq | subq | cmpq => exact Or.inr (Operand.bytes_of_mem_accesses h)
  | movq src dst =>
    rcases List.mem_append.mp h with h | h <;> exact Or.inr (Operand.bytes_of_mem_accesses h)
  | movb src offset =>
    rw [List.mem_singleton.mp h]
    exact Or.inl rfl
  | movzbq src dst => exact Or.inl (Operand.bytes_of_mem_accesses h)
  | _ => simp [accesses] at h

lemma Line.bytes_of_mem_accesses {line : Line} {access : Access}
    (h : access ∈ line.accesses) : access.bytes = 1 ∨ access.bytes = 8 := by
  cases line with
  | instr instr => exact Instr.bytes_of_mem_accesses h
  | _ => simp [accesses] at h

namespace Lowering

lemma Slot.load_accesses (slot : Slot) :
    slot.load.accesses = [⟨slot.offset, slot.width.bytes⟩] := by
  rcases slot with ⟨offset, _ | _⟩ <;> rfl

lemma Slot.store_accesses (src : Reg) (slot : Slot) :
    (slot.store src).accesses = [⟨slot.offset, slot.width.bytes⟩] := by
  rcases slot with ⟨offset, _ | _⟩ <;> rfl

variable {tables : Tables} {owner : Option SymbolId}

/-! ## Code that keeps to the variables of its function -/

/-- The bytes are those of a variable of `owner`. -/
def Owns (tables : Tables) (owner : Option SymbolId) (access : Access) : Prop :=
  ∃ id, tables.symbols.HasVariable owner id ∧ tables.Lies id access.offset access.bytes

/-- The instructions touch variables of `owner` only. -/
def KeepsTo (tables : Tables) (owner : Option SymbolId) (code : List Instr) : Prop :=
  ∀ access ∈ code.flatMap Instr.accesses, Owns tables owner access

namespace KeepsTo

variable {code first second : List Instr} {instr : Instr}

/-- Instructions that touch no byte of the frame. -/
lemma of_nil (h : code.flatMap Instr.accesses = []) : KeepsTo tables owner code := by
  intro access haccess
  rw [h] at haccess
  cases haccess

lemma append (h₁ : KeepsTo tables owner first) (h₂ : KeepsTo tables owner second) :
    KeepsTo tables owner (first ++ second) := by
  intro access haccess
  rw [List.flatMap_append] at haccess
  rcases List.mem_append.mp haccess with haccess | haccess
  · exact h₁ access haccess
  · exact h₂ access haccess

/-- One more instruction, which touches no byte of the frame. -/
lemma cons (hinstr : instr.accesses = []) (h : KeepsTo tables owner code) :
    KeepsTo tables owner (instr :: code) := by
  intro access haccess
  rw [List.flatMap_cons, hinstr] at haccess
  exact h access haccess

/-- One more instruction, which touches a variable of the function. -/
lemma place (complete : tables.Complete) {id : SymbolId} {slot : Slot}
    (hplace : HasPlace tables owner id slot)
    (hinstr : instr.accesses = [⟨slot.offset, slot.width.bytes⟩])
    (h : KeepsTo tables owner code) : KeepsTo tables owner (instr :: code) := by
  intro access haccess
  rw [List.flatMap_cons, hinstr] at haccess
  rcases List.mem_cons.mp haccess with rfl | haccess
  · exact ⟨id, hplace.1, (hplace.lies complete).1⟩
  · exact h access haccess

end KeepsTo

lemma flatMap_accesses_popq (regs : List Reg) :
    (regs.map Instr.popq).flatMap Instr.accesses = [] := by
  simp [List.flatMap_map, Instr.accesses]

lemma flatMap_accesses_pushq (regs : List Reg) :
    (regs.map fun reg => Instr.pushq (.reg reg)).flatMap Instr.accesses = [] := by
  simp [List.flatMap_map, Instr.accesses, Operand.accesses]

lemma keepsTo_arithmetic (unsigned : Bool) (op : ArithOp) :
    KeepsTo tables owner (Counted.arithmeticCode unsigned op) := by
  cases op <;> cases unsigned <;> exact .of_nil rfl

lemma keepsTo_call (depth : Nat) (name : String) (returnsBool : Bool) :
    KeepsTo tables owner (Counted.callSequence depth name returnsBool) := by
  have hpadded : KeepsTo tables owner
      (Counted.padded depth [.movq (.imm 0) (.reg .rax), .call name]) := by
    unfold Counted.padded
    split <;> exact .of_nil rfl
  have hextension : KeepsTo tables owner (Counted.extension returnsBool) := by
    cases returnsBool <;> exact .of_nil rfl
  exact (hpadded.append hextension).append (.of_nil rfl)

/-- What code is emitted for is usable. -/
def Job.Usable (tables : Tables) (owner : Option SymbolId) : Job → Prop
  | value node => node.Usable tables owner
  | arguments _ _ args => ∀ arg ∈ args, arg.Usable tables owner

/-- The code of expressions touches variables of the function only, by induction on its shape. -/
theorem Lowers.keepsTo (complete : tables.Complete) {job : Job} {depth : Nat}
    {code : Counted Instr} (h : Lowers tables job depth code) (hjob : job.Usable tables owner) :
    KeepsTo tables owner code.erase := by
  induction h with
  | literal | wideLiteral | boolean | noArguments => exact .of_nil rfl
  | load isStorage source =>
    obtain ⟨id, -, hplace, -⟩ := storage_place complete hjob source
    rw [Counted.erase_level]
    exact .place complete hplace (Slot.load_accesses _) (.of_nil rfl)
  | @assign loc lhs rhs code slot depth right target ih =>
    obtain ⟨hlhs, hrhs⟩ := Node.Usable.operands hjob
    obtain ⟨id, -, hplace, -⟩ := storage_place complete hlhs target
    rw [Counted.erase_append, Counted.erase_cons, Counted.erase_level]
    refine (ih hrhs).append (.cons rfl ?_)
    exact .place complete hplace (Slot.store_accesses _ _) (.of_nil rfl)
  | @arith loc op lhs rhs rightCode leftCode unsigned depth right left sign ihRight ihLeft =>
    obtain ⟨hlhs, hrhs⟩ := Node.Usable.operands hjob
    simp only [Counted.erase_append, Counted.erase_pops, Counted.erase_level]
    exact (((ihRight hrhs).append (ihLeft hlhs)).append (.of_nil rfl)).append
      (keepsTo_arithmetic unsigned op)
  | @compare loc op lhs rhs rightCode leftCode unsigned depth right left sign ihRight ihLeft =>
    obtain ⟨hlhs, hrhs⟩ := Node.Usable.operands hjob
    simp only [Counted.erase_append, Counted.erase_pops, Counted.erase_level]
    exact (((ihRight hrhs).append (ihLeft hlhs)).append (.of_nil rfl)).append (.of_nil rfl)
  | call arguments target typed resolved ih =>
    rw [Counted.erase_append, Counted.erase_level]
    exact (ih fun arg harg => Node.Usable.part hjob harg rfl).append (keepsTo_call _ _ _)
  | toBool inner goal origin other ih =>
    rw [Counted.erase_append, Counted.erase_cons, Counted.erase_level]
    exact (ih (Node.Usable.operand hjob)).append (.of_nil rfl)
  | keep inner goal origin same ih => exact ih (Node.Usable.operand hjob)
  | argument first later ihFirst ihLater =>
    simp only [Counted.erase_append, Counted.erase_cons, Counted.erase_pushes, Counted.erase_pops]
    refine (((KeepsTo.of_nil (flatMap_accesses_pushq _)).append (ihFirst (hjob _ (by simp)))).append
      (.cons rfl (.of_nil (flatMap_accesses_popq _)))).append ?_
    exact ihLater fun arg harg => hjob arg (by simp [harg])

/-- What an action works on is usable. -/
structure Action.Usable (tables : Tables) (owner : Option SymbolId) (action : Action) : Prop where
  /-- The value that is computed first. -/
  value : action.value.Usable tables owner
  /-- The variable that is assigned to. -/
  target : ∀ {lhs rhs}, action = .assign lhs rhs → lhs.Usable tables owner

/-- So does the code of actions. -/
lemma Action.keepsTo (complete : tables.Complete) {action : Action} {code : Counted Instr}
    (h : Emitted tables action code) (haction : action.Usable tables owner) :
    KeepsTo tables owner code.erase := by
  obtain ⟨-, inner, tail, hinner, hfinish, rfl⟩ := Action.emit_lowers h
  rw [Counted.erase_append, Counted.erase_cons, Counted.erase_level]
  refine (hinner.keepsTo complete haction.value).append (.cons rfl ?_)
  cases action with
  | effect | result | test =>
    rw [show tail = _ from hfinish]
    exact .of_nil rfl
  | assign lhs rhs =>
    obtain ⟨place, hstorage, rfl⟩ := hfinish
    obtain ⟨id, -, hplace, -⟩ := storage_place complete (haction.target rfl) hstorage
    exact .place complete hplace (Slot.store_accesses _ _) (.of_nil rfl)

/-- What is laid out is usable. -/
def Work.Usable (tables : Tables) (owner : Option SymbolId) : Work → Prop
  | statement node => node.Usable tables owner
  | statements nodes => ∀ node ∈ nodes, node.Usable tables owner

/-- The actions of statements work on what the statements are made of. -/
lemma Lays.usable {work : Work} {next stop : Nat} {chunks : List Chunk}
    (h : Lays tables work next chunks stop) (hwork : work.Usable tables owner) {action : Action}
    {code : Counted Instr} (hmem : .action action code ∈ chunks) : action.Usable tables owner := by
  induction h with
  | block inner ih => exact ih (fun node hnode => Node.Usable.part hwork hnode rfl) hmem
  | @assign loc lhs rhs next code emitted =>
    cases List.mem_singleton.mp hmem
    obtain ⟨hlhs, hrhs⟩ := Node.Usable.operands hwork
    refine ⟨hrhs, ?_⟩
    rintro _ _ ⟨⟩
    exact hlhs
  | effect isEffect emitted =>
    cases List.mem_singleton.mp hmem
    exact ⟨hwork, by rintro _ _ ⟨⟩⟩
  | ifThen emitted inner ih | whileLoop emitted inner ih =>
    -- the condition and the statements are both parts of the construct
    have hbody := ih fun node hnode => Node.Usable.part hwork (by simp [Node.parts, hnode]) rfl
    simp only [List.mem_cons, List.mem_append, List.mem_nil_iff, reduceCtorEq, Chunk.action.injEq,
      false_or, or_false] at hmem
    rcases hmem with ⟨rfl, -⟩ | hmem
    · exact ⟨Node.Usable.part hwork (by simp [Node.parts, Action.value]) rfl, by rintro _ _ ⟨⟩⟩
    · exact hbody hmem
  | ifElse emitted onTrue onFalse ihTrue ihFalse =>
    have hfirst := ihTrue fun node hnode =>
      Node.Usable.part hwork (by simp [Node.parts, hnode]) rfl
    have hsecond := ihFalse fun node hnode =>
      Node.Usable.part hwork (by simp [Node.parts, hnode]) rfl
    simp only [List.mem_cons, List.mem_append, List.mem_nil_iff, reduceCtorEq, Chunk.action.injEq,
      false_or, or_false] at hmem
    rcases hmem with (⟨rfl, -⟩ | hmem) | hmem
    · exact ⟨Node.Usable.part hwork (by simp [Node.parts, Action.value]) rfl, by rintro _ _ ⟨⟩⟩
    · exact hfirst hmem
    · exact hsecond hmem
  | forLoop before emitted inner after ihBefore ihInner ihAfter =>
    have hinit := ihBefore (Node.Usable.part hwork (by simp [Node.parts]) rfl)
    have hbody := ihInner fun node hnode => Node.Usable.part hwork (by simp [Node.parts, hnode]) rfl
    have hstep := ihAfter (Node.Usable.part hwork (by simp [Node.parts]) rfl)
    simp only [List.mem_cons, List.mem_append, List.mem_nil_iff, reduceCtorEq, Chunk.action.injEq,
      false_or, or_false] at hmem
    rcases hmem with hmem | ⟨rfl, -⟩ | hmem | hmem
    · exact hinit hmem
    · exact ⟨Node.Usable.part hwork (by simp [Node.parts, Action.value]) rfl, by rintro _ _ ⟨⟩⟩
    · exact hbody hmem
    · exact hstep hmem
  | returnVoid | silent | nil => simp at hmem
  | returnResult isExpression emitted =>
    simp only [List.mem_cons, List.mem_nil_iff, reduceCtorEq, Chunk.action.injEq,
      or_false] at hmem
    obtain ⟨rfl, -⟩ := hmem
    exact ⟨Node.Usable.part hwork (by simp [Node.parts, Action.value]) rfl, by rintro _ _ ⟨⟩⟩
  | returnStatement isStatement inner ih =>
    refine ih (Node.Usable.part hwork (by simp [Node.parts]) rfl) ?_
    simpa using hmem
  | cons head tail ihHead ihTail =>
    rcases List.mem_append.mp hmem with hmem | hmem
    · exact ihHead (hwork _ (by simp)) hmem
    · exact ihTail (fun node hnode => hwork node (by simp [hnode])) hmem

/-! ## Routines -/

lemma flatMap_accesses_plain (code : List Instr) :
    (plain code).flatMap Line.accesses = code.flatMap Instr.accesses := by
  simp [plain, List.flatMap_map, Line.accesses]

/-- Only actions touch the frame. -/
lemma Chunk.mem_accesses {chunk : Chunk} {access : Access}
    (h : access ∈ chunk.lines.erase.flatMap Line.accesses) :
    ∃ action code, chunk = .action action code ∧ access ∈ code.erase.flatMap Instr.accesses := by
  cases chunk with
  | action action code =>
    rw [Chunk.lines, Counted.erase_plain, flatMap_accesses_plain] at h
    exact ⟨action, code, rfl, h⟩
  | _ => simp [Chunk.lines, epilogue, Line.accesses, Instr.accesses, Operand.accesses] at h

lemma mem_chunkLines_accesses {chunks : List Chunk} {access : Access}
    (h : access ∈ (chunkLines chunks).erase.flatMap Line.accesses) :
    ∃ chunk ∈ chunks, access ∈ chunk.lines.erase.flatMap Line.accesses := by
  induction chunks with
  | nil => simp at h
  | cons chunk rest ih =>
    rw [chunkLines_cons, Counted.erase_append, List.flatMap_append] at h
    rcases List.mem_append.mp h with h | h
    · exact ⟨chunk, by simp, h⟩
    · obtain ⟨other, hother, h⟩ := ih h
      exact ⟨other, by simp [hother], h⟩

/-- Parameters are stored in the variables that hold them. -/
lemma spill_keepsTo (complete : tables.Complete) {loc : Location}
    {pairs : List (SymbolId × Reg)} {spills : List Instr}
    (h : spill tables loc pairs = .ok spills)
    (hpairs : ∀ pair ∈ pairs, tables.symbols.HasVariable owner pair.1) :
    KeepsTo tables owner spills := by
  induction pairs generalizing spills with
  | nil =>
    cases h
    exact .of_nil rfl
  | cons pair rest ih =>
    obtain ⟨place, others, hslot, hrest, rfl⟩ := spill_cons_eq_ok h
    exact .place complete ⟨hpairs pair (by simp), loc, hslot⟩ (Slot.store_accesses _ _)
      (ih hrest fun pair hpair => hpairs pair (by simp [hpair]))

lemma prologue_accesses (frame : Nat) : (prologue frame).flatMap Instr.accesses = [] := by
  unfold prologue
  split <;> rfl

/-- All code of a function touches variables of the function only. -/
theorem Compiled.owns {function : Function} {used next : Nat} {code : Code}
    (h : Compiled tables owner function used next code) :
    ∀ access ∈ code.lines.flatMap Line.accesses, Owns tables owner access := by
  obtain ⟨counted, spills, chunks, -, rfl, hspills, hchunks, hlines⟩ := Function.code_lays h.code
  have hbody : Work.Usable tables owner (.statements function.body) := h.usable_statement
  intro access haccess
  rw [Counted.Code.erase, hlines, Counted.erase_append, Counted.erase_level, List.flatMap_append,
    flatMap_accesses_plain, List.flatMap_append, prologue_accesses, List.nil_append] at haccess
  rcases List.mem_append.mp haccess with haccess | haccess
  · refine spill_keepsTo h.ready.complete hspills ?_ access haccess
    intro pair hpair
    exact h.mem_variables.mp (List.mem_append_left _ (List.of_mem_zip hpair).1)
  · obtain ⟨chunk, hchunk, haccess⟩ := mem_chunkLines_accesses haccess
    obtain ⟨action, code, rfl, htouched⟩ := Chunk.mem_accesses haccess
    have hmem : .action action code ∈ chunks := by
      rcases List.mem_append.mp hchunk with hmem | hmem
      · exact hmem
      · cases hzero : function.exitsZero <;> simp [Function.ending, hzero] at hmem
    exact Action.keepsTo h.ready.complete ((hchunks.action hmem).1) (hchunks.usable hbody hmem)
      access htouched

end Lowering

/-! ## Programs -/

/-- The byte at a distance from the frame pointer belongs to the variable. -/
def Tables.Occupies (tables : Tables) (id : SymbolId) (byte : Int) : Prop :=
  ∃ offset size : Nat, tables.Lies id offset size ∧
    -(offset : Int) ≤ byte ∧ byte < -(offset : Int) + size

/-- The number of bytes that the variables of `owner` take together. -/
def Tables.total (tables : Tables) (owner : Option SymbolId) : Nat :=
  ((tables.symbols.locals owner).map tables.sizeOf).sum

/-- The number of bytes that the frame of a function should have. -/
def Tables.frameSize (tables : Tables) (owner : Option SymbolId) : Nat :=
  roundUp (tables.total owner) stackAlign

/-- A word holds the number of bytes that the frame of a function should have. -/
def Tables.Fits (tables : Tables) (owner : Option SymbolId) : Prop :=
  tables.frameSize owner < wordCount

instance (tables : Tables) : DecidablePred tables.Fits := fun owner =>
  inferInstanceAs (Decidable (tables.frameSize owner < wordCount))

/-- The routine is the code of the function with a frame of the given size, in which the variables
of the function are placed in order and beside which nothing is touched.  The size of the frame and
the offsets in it are what words hold of the numbers that they should be. -/
structure HasLayout (tables : Tables) (unit : Program.Owned) (routine : Routine) (frame : Nat) :
    Prop where
  /-- The variables of the function are its parameters and what is declared anywhere in its body. -/
  declarations : (unit.2.params ++ (Node.checkOrderAll unit.2.body).filterMap Node.declares?).Perm
    (tables.symbols.locals unit.1)
  /-- They are listed by number, each of them once. -/
  sorted : (tables.symbols.locals unit.1).Pairwise (·.index < ·.index)
  /-- They are placed in this order. -/
  placed : Function.variables unit.2 = tables.symbols.locals unit.1
  /-- The offset of a variable is the sum of the sizes up to its own. -/
  offset : ∀ {i : Nat} {id : SymbolId}, (tables.symbols.locals unit.1)[i]? = some id →
    tables.Lies id ((((tables.symbols.locals unit.1).take (i + 1)).map tables.sizeOf).sum % wordCount)
      (tables.sizeOf id)
  /-- All sizes together, rounded up, are the size of the frame. -/
  size : frame = tables.frameSize unit.1 % wordCount
  /-- The routine reserves this frame. -/
  code : ∃ before next code, Repositioned tables before ∧
    unit.2.code before frame next = .ok code ∧ routine = ⟨unit.2.name, code.lines⟩
  /-- Every operand in the frame is a variable of the function, in its full width. -/
  access : ∀ line ∈ routine.lines, ∀ access ∈ line.accesses,
    (access.bytes = 1 ∨ access.bytes = 8) ∧
      ∃ id ∈ tables.symbols.locals unit.1, tables.Lies id access.offset access.bytes

/-- The frame has room for the variables of `owner`, each in bytes of its own. -/
structure HasRoom (tables : Tables) (owner : Option SymbolId) (frame : Nat) : Prop where
  /-- The offset of a variable is the sum of the sizes up to its own. -/
  offset : ∀ {i : Nat} {id : SymbolId}, (tables.symbols.locals owner)[i]? = some id →
    tables.Lies id (((tables.symbols.locals owner).take (i + 1)).map tables.sizeOf).sum
      (tables.sizeOf id)
  /-- No byte belongs to two variables. -/
  apart : ∀ {id id' : SymbolId} {byte : Int}, id ∈ tables.symbols.locals owner →
    id' ∈ tables.symbols.locals owner → tables.Occupies id byte → tables.Occupies id' byte →
    id = id'
  /-- Every byte of a variable lies in the frame. -/
  within : ∀ {id : SymbolId} {byte : Int}, id ∈ tables.symbols.locals owner →
    tables.Occupies id byte → -(frame : Int) ≤ byte ∧ byte < 0
  /-- The frame is as small as its alignment lets it be. -/
  least : IsLeast { n | 16 ∣ n ∧ tables.total owner ≤ n } frame

/-- The least multiple of the alignment that is not below a number of bytes. -/
lemma frame_isLeast (used : Nat) : IsLeast { n | 16 ∣ n ∧ used ≤ n } (roundUp used stackAlign) :=
  roundUp_isLeast used (by decide)

/-- A frame has room for its variables just if a word holds its size. -/
lemma Tables.HasFrame.hasRoom_iff {tables : Tables} {owner : Option SymbolId}
    (h : tables.HasFrame owner) :
    HasRoom tables owner (tables.frameSize owner % wordCount) ↔ tables.Fits owner := by
  have hleast := frame_isLeast (tables.total owner)
  refine ⟨fun hroom => ?_, fun hfits => ?_⟩
  · exact Nat.lt_of_le_of_lt (hleast.2 hroom.least.1) (Nat.mod_lt _ (by decide))
  · obtain ⟨stop, hlaid⟩ := h
    have hstop : stop = tables.total owner := by
      rw [hlaid.stop_eq, Nat.zero_add]
      rfl
    have htotal : tables.total owner ≤ tables.frameSize owner := hleast.1.2
    have hlt : stop < wordCount := hstop ▸ Nat.lt_of_le_of_lt htotal hfits
    rw [Nat.mod_eq_of_lt hfits]
    refine ⟨?_, ?_, ?_, hleast⟩
    · intro i id hid
      -- the sum for one variable is part of the sum for all
      have hle : (((tables.symbols.locals owner).take (i + 1)).map tables.sizeOf).sum ≤ stop := by
        rw [hstop, Tables.total, ← List.take_append_drop (i + 1) (tables.symbols.locals owner),
          List.map_append, List.sum_append, List.take_append_drop]
        exact Nat.le_add_right _ _
      have hlies := hlaid.lies hid
      rwa [Nat.zero_add, Nat.mod_eq_of_lt (Nat.lt_of_le_of_lt hle hlt)] at hlies
    · rintro id id' byte hid hid' ⟨offset, size, hlies, hlow, hhigh⟩
        ⟨offset', size', hlies', hlow', hhigh'⟩
      by_contra hne
      have := hlaid.apart hlt hid hid' hne hlies hlies'
      omega
    · rintro id byte hid ⟨offset, size, hlies, hlow, hhigh⟩
      obtain ⟨offset', size', hlies', hbelow, habove⟩ := hlaid.within hlt hid
      obtain ⟨rfl, rfl⟩ := hlies.unique hlies'
      omega

namespace Lowering

variable {tables placed : Tables} {owner : Option SymbolId}

/-- In all tables in which the frame is laid out, the variables have the same places. -/
lemma Owns.congr {access : Access} (h : Owns placed owner access) {used : Nat}
    (hlaid : placed.Laid 0 (placed.symbols.locals owner) used)
    (hsame : Repositioned placed tables) (hframe : tables.HasFrame owner) :
    ∃ id ∈ tables.symbols.locals owner, tables.Lies id access.offset access.bytes := by
  obtain ⟨id, hvariable, hlies⟩ := h
  obtain ⟨stop, hstop⟩ := hframe
  have hid := SymbolTable.mem_locals.mpr hvariable
  obtain ⟨i, hget⟩ := List.mem_iff_getElem?.mp hid
  have hlocals := hsame.alike.locals owner
  have hsizes : placed.sizeOf = tables.sizeOf :=
    funext fun id => (Tables.sizeOf_congr hsame id).symm
  have hbefore := hlaid.lies hget
  rw [hlocals] at hget hid
  have hafter := hstop.lies hget
  obtain ⟨hoffset, hbytes⟩ := hlies.unique hbefore
  rw [hoffset, hbytes, hsizes, hlocals]
  exact ⟨id, hid, hafter⟩

/-- What the frame of a compiled function looks like in the final tables. -/
lemma Compiled.hasLayout {function : Function} {used next : Nat} {code : Code}
    (h : Compiled placed owner function used next code) (hsame : Repositioned placed tables)
    (hframe : tables.HasFrame owner) :
    HasLayout tables (owner, function) ⟨function.name, code.lines⟩ (frameSize used) := by
  have hlocals := hsame.alike.locals owner
  have hlaid : placed.Laid 0 (placed.symbols.locals owner) used := h.locals ▸ h.laid
  obtain ⟨stop, hstop⟩ := hframe
  -- types are not touched after the frame was laid out, so neither are sizes
  have htotal : used = tables.total owner := by
    have hsizes : placed.sizeOf = tables.sizeOf :=
      funext fun id => (Tables.sizeOf_congr hsame id).symm
    rw [hlaid.stop_eq, Nat.zero_add, hlocals, hsizes]
    rfl
  refine {
    declarations := ?_
    sorted := tables.symbols.locals_sorted owner
    placed := h.locals.symm.trans hlocals
    offset := ?_
    size := ?_
    code := ⟨placed, next, code, hsame.symm, h.code, rfl⟩
    access := ?_ }
  · rw [← hlocals, h.locals]
    exact h.variables_perm h.ready
  · intro i id hid
    simpa using hstop.lies hid
  · rw [htotal]
    rfl
  · intro line hline access haccess
    refine ⟨Line.bytes_of_mem_accesses haccess, ?_⟩
    exact (h.owns access (List.mem_flatMap.mpr ⟨line, hline, haccess⟩)).congr hlaid hsame
      ⟨stop, hstop⟩

/-- So it is for each of the functions of a program. -/
lemma IsCodeOf.hasLayout {unit : Program.Owned} {routine : Routine}
    (h : IsCodeOf tables unit routine) {tables' : Tables} (hsame : Repositioned tables tables')
    (hframe : tables'.HasFrame unit.1) : ∃ frame, HasLayout tables' unit routine frame := by
  obtain ⟨placed, used, next, code, hplaced, hcompiled, rfl⟩ := h
  exact ⟨_, hcompiled.hasLayout (hplaced.symm.trans hsame) hframe⟩

end Lowering

lemma HasRoom.frame_eq {tables : Tables} {owner : Option SymbolId} {frame : Nat}
    (h : HasRoom tables owner frame) : frame = tables.frameSize owner :=
  h.least.unique (frame_isLeast _)

/-- The size of a frame does not depend on where its variables lie. -/
lemma Lowering.Repositioned.frameSize_eq {tables tables' : Tables} (h : Repositioned tables tables')
    (owner : Option SymbolId) : tables'.frameSize owner = tables.frameSize owner := by
  rw [Tables.frameSize, Tables.frameSize, Tables.total, Tables.total, h.alike.locals owner,
    funext (Tables.sizeOf_congr h)]

/-- Whether a word holds the size of a frame is known before the frame is laid out. -/
lemma fits_congr {file source : String} {program : Program} {ws ws' : Workspace}
    {assembly : Assembly} (hanalyze : analyze source (.initial file) = .ok program ws)
    (hgenerate : generate program ws = .ok assembly ws') (owner : Option SymbolId) :
    ws'.toTables.Fits owner ↔ ws.toTables.Fits owner := by
  have hanalyzed := ((analyze_does file source).run hanalyze).2
  rw [Tables.Fits, Tables.Fits, (generate_frames hanalyzed hgenerate).1.frameSize_eq]

/-- The frames of every program that is analyzed and compiled are laid out in order, and the frame
of a function has room for its variables just if a word holds its size. -/
theorem frames_laid_out {file source : String} {program : Program} {ws ws' : Workspace}
    {assembly : Assembly} (hanalyze : analyze source (.initial file) = .ok program ws)
    (hgenerate : generate program ws = .ok assembly ws') :
    List.Forall₂ (fun unit routine => ∃ frame, HasLayout ws'.toTables unit routine frame ∧
        (HasRoom ws'.toTables unit.1 frame ↔ ws'.toTables.Fits unit.1))
      (program.functions ws.symbols) assembly.routines := by
  have hanalyzed := ((analyze_does file source).run hanalyze).2
  obtain ⟨hsame, hframes⟩ := generate_frames hanalyzed hgenerate
  refine List.forall₂_iff_get.mpr ?_
  obtain ⟨hlength, hall⟩ := List.forall₂_iff_get.mp (generated_routines hanalyze hgenerate)
  refine ⟨hlength, fun i hunit hroutine => ?_⟩
  have hframe := hframes _ (List.get_mem (program.functions ws.symbols) ⟨i, hunit⟩)
  obtain ⟨frame, hlayout⟩ := (hall i hunit hroutine).hasLayout hsame hframe
  exact ⟨frame, hlayout, hlayout.size ▸ hframe.hasRoom_iff⟩

/-- A program with variables of several sizes, one of them declared in a condition. -/
theorem frames_laid_out_nested : ∃ program ws assembly ws',
    analyze
      "(defun f (p: bool n: s64) s64 (while (:= (let bool q) p) (let (struct a: u64) s)) (return n))"
      (.initial "nested") = .ok program ws ∧
    generate program ws = .ok assembly ws' ∧
    (∀ unit ∈ program.functions ws.symbols, ws'.toTables.Fits unit.1) ∧
    List.Forall₂ (fun unit routine => ∃ frame, HasLayout ws'.toTables unit routine frame ∧
        (HasRoom ws'.toTables unit.1 frame ↔ ws'.toTables.Fits unit.1))
      (program.functions ws.symbols) assembly.routines := by
  have hcompiles : compilesAnd "nested"
      "(defun f (p: bool n: s64) s64 (while (:= (let bool q) p) (let (struct a: u64) s)) (return n))"
      (fun program tables _ => ∀ unit ∈ program.functions tables.symbols, tables.Fits unit.1)
      = true := by
    decide +kernel
  obtain ⟨program, ws, assembly, ws', hanalyze, hgenerate, hfits⟩ := runs_of_compilesAnd hcompiles
  have hfits := of_decide_eq_true hfits
  exact ⟨program, ws, assembly, ws', hanalyze, hgenerate,
    fun unit hunit => (fits_congr hanalyze hgenerate unit.1).mpr (hfits unit hunit),
    frames_laid_out hanalyze hgenerate⟩

/-- A frame whose size no word holds has no room for its variables. -/
lemma not_hasRoom {file source : String} {program : Program} {ws ws' : Workspace}
    {assembly : Assembly} (hanalyze : analyze source (.initial file) = .ok program ws)
    (hgenerate : generate program ws = .ok assembly ws') {unit : Program.Owned}
    (hunit : unit ∈ program.functions ws.symbols) (hlarge : ¬ ws.toTables.Fits unit.1) :
    ¬ List.Forall₂ (fun unit routine => ∃ frame, HasLayout ws'.toTables unit routine frame ∧
        HasRoom ws'.toTables unit.1 frame)
      (program.functions ws.symbols) assembly.routines := by
  intro hall
  obtain ⟨i, rfl⟩ := List.get_of_mem hunit
  obtain ⟨hlength, hget⟩ := List.forall₂_iff_get.mp hall
  obtain ⟨frame, hlayout, hroom⟩ := hget i i.isLt (Nat.lt_of_lt_of_eq i.isLt hlength)
  -- the frame that is made is a word
  have hword : frame < wordCount := hlayout.size ▸ Nat.mod_lt _ (by decide)
  rw [hroom.frame_eq] at hword
  exact hlarge ((fits_congr hanalyze hgenerate _).mp hword)

/-- Two variables of half of all bytes each, and one more. -/
def largeTypes : String :=
  "(typedef a (struct x: s64 y: s64 z: s64 w: s64 p: s64 q: s64 r: s64 s: s64))
  (typedef b (struct x: a y: a z: a w: a p: a q: a r: a s: a))
  (typedef c (struct x: b y: b z: b w: b p: b q: b r: b s: b))
  (typedef d (struct x: c y: c z: c w: c p: c q: c r: c s: c))
  (typedef e (struct x: d y: d z: d w: d p: d q: d r: d s: d))
  (typedef f (struct x: e y: e z: e w: e p: e q: e r: e s: e))
  (typedef g (struct x: f y: f z: f w: f p: f q: f r: f s: f))
  (typedef h (struct x: g y: g z: g w: g p: g q: g r: g s: g))
  (typedef i (struct x: h y: h z: h w: h p: h q: h r: h s: h))
  (typedef j (struct x: i y: i z: i w: i p: i q: i r: i s: i))
  (typedef k (struct x: j y: j z: j w: j p: j q: j r: j s: j))
  (typedef l (struct x: k y: k z: k w: k p: k q: k r: k s: k))
  (typedef m (struct x: l y: l z: l w: l p: l q: l r: l s: l))
  (typedef n (struct x: m y: m z: m w: m p: m q: m r: m s: m))
  (typedef o (struct x: n y: n z: n w: n p: n q: n r: n s: n))
  (typedef p (struct x: o y: o z: o w: o p: o q: o r: o s: o))
  (typedef q (struct x: p y: p z: p w: p p: p q: p r: p s: p))
  (typedef r (struct x: q y: q z: q w: q p: q q: q r: q s: q))
  (typedef s (struct x: r y: r z: r w: r p: r q: r r: r s: r))
  (typedef t (struct x: s y: s z: s w: s p: s q: s r: s s: s))
  (let t u) (let t v) (let s64 w)"

set_option maxRecDepth 4000 in
/-- The sizes of the three variables add up to eight bytes as words, and the frame that is made for
them has no room for the first. -/
theorem not_laid_out_large : ∃ program ws assembly ws',
    analyze largeTypes (.initial "large") = .ok program ws ∧
    generate program ws = .ok assembly ws' ∧
    (∃ routine ∈ assembly.routines, .instr (.subq (.imm 16) .rsp) ∈ routine.lines) ∧
    ¬ List.Forall₂ (fun unit routine => ∃ frame, HasLayout ws'.toTables unit routine frame ∧
        HasRoom ws'.toTables unit.1 frame)
      (program.functions ws.symbols) assembly.routines := by
  have hcompiles : compilesAnd "large" largeTypes (fun program tables assembly =>
      (∃ routine ∈ assembly.routines, .instr (.subq (.imm 16) .rsp) ∈ routine.lines) ∧
        ∃ unit ∈ program.functions tables.symbols, ¬ tables.Fits unit.1) = true := by
    unfold largeTypes
    rw [compilesAnd_ofList]
    decide +kernel
  obtain ⟨program, ws, assembly, ws', hanalyze, hgenerate, htest⟩ := runs_of_compilesAnd hcompiles
  obtain ⟨hsmall, unit, hunit, hlarge⟩ := of_decide_eq_true htest
  exact ⟨program, ws, assembly, ws', hanalyze, hgenerate, hsmall,
    not_hasRoom hanalyze hgenerate hunit hlarge⟩

end ParenC
