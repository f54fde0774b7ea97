/-
The stack of every routine is kept in order.

The heights of a routine are read off the counts that were kept while it was emitted.  All paths
agree with them, nothing is on the stack between statements, no value is popped that was not
pushed, and the stack pointer is aligned at every call.
-/
import ParenC.Proofs.Lowering.Stack

namespace ParenC

open Lowering

mutual

/-- The statements that a statement consists of, itself first. -/
def Node.nested (node : Node) : List Node :=
  match node with
  | .block _ body | .ifThen _ _ body | .whileLoop _ _ body => node :: nestedAll body
  | .ifElse _ _ thenBody elseBody => node :: (nestedAll thenBody ++ nestedAll elseBody)
  | .forLoop _ init _ step body => node :: (init.nested ++ (nestedAll body ++ step.nested))
  | .returnValue _ value _ => node :: if value.isExpression then [] else value.nested
  | .functionDef .. | .externDecl .. | .varDecl .. | .typedefDecl .. | .returnVoid .. | .empty _
  | .integer .. | .boolean .. | .varRef .. | .binary .. | .call .. | .cast .. => [node]
termination_by structural node

/-- The same for statements. -/
def Node.nestedAll (nodes : List Node) : List Node :=
  match nodes with
  | [] => []
  | node :: rest => node.nested ++ nestedAll rest
termination_by structural nodes

end

namespace Lowering

/-- The statements that the work consists of. -/
def Work.nested : Work → List Node
  | statement node => node.nested
  | statements nodes => Node.nestedAll nodes

variable {tables : Tables}

/-! ## Statements among chunks -/

/-- The chunks of the statement are among the chunks, one after the other. -/
def HasStatement (tables : Tables) (chunks : List Chunk) (node : Node) : Prop :=
  ∃ inner next stop, inner <:+: chunks ∧ Lays tables (.statement node) next inner stop

lemma HasStatement.mono {chunks chunks' : List Chunk} {node : Node}
    (h : HasStatement tables chunks node) (hwithin : chunks <:+: chunks') :
    HasStatement tables chunks' node := by
  obtain ⟨inner, next, stop, hinner, hlays⟩ := h
  exact ⟨inner, next, stop, hinner.trans hwithin, hlays⟩

/-- Each statement has its chunks. -/
theorem Lays.hasStatement {work : Work} {next stop : Nat} {chunks : List Chunk}
    (h : Lays tables work next chunks stop) :
    ∀ node ∈ work.nested, HasStatement tables chunks node := by
  have self : ∀ {node next chunks stop}, Lays tables (.statement node) next chunks stop →
      HasStatement tables chunks node := fun h => ⟨_, _, _, List.infix_refl _, h⟩
  -- A statement without statements in it.
  have single : ∀ {node chunks} (next : Nat), Lays tables (.statement node) next chunks next →
      node.nested = [node] → ∀ other ∈ node.nested, HasStatement tables chunks other := by
    intro node chunks next h hnested other hother
    rw [hnested] at hother
    exact List.mem_singleton.mp hother ▸ self h
  induction h with
  | block inner ih =>
    intro node hnode
    rcases List.mem_cons.mp hnode with rfl | hnode
    · exact self (.block inner)
    · exact ih node hnode
  | @assign loc lhs rhs next code emitted => exact single next (.assign emitted) rfl
  | @effect node next code isEffect emitted =>
    refine single next (.effect isEffect emitted) ?_
    cases node <;> first | rfl | simp [Lowering.isEffect, Node.isExpression] at isEffect
  | @ifThen loc cond body next code chunks stop emitted inner ih =>
    intro node hnode
    rcases List.mem_cons.mp hnode with rfl | hnode
    · exact self (.ifThen emitted inner)
    · exact (ih node hnode).mono
        ⟨[.action (.test cond) code, .branch next], [.label next], by simp⟩
  | @ifElse loc cond thenBody elseBody next code first second middle stop emitted onTrue onFalse
      ihTrue ihFalse =>
    intro node hnode
    rcases List.mem_cons.mp hnode with rfl | hnode
    · exact self (.ifElse emitted onTrue onFalse)
    rcases List.mem_append.mp hnode with hnode | hnode
    · exact (ihTrue node hnode).mono ⟨[.action (.test cond) code, .branch next],
        .jump middle :: .label next :: second ++ [.label middle], by simp⟩
    · exact (ihFalse node hnode).mono ⟨.action (.test cond) code :: .branch next :: first ++
        [.jump middle, .label next], [.label middle], by simp⟩
  | @whileLoop loc cond body next code chunks stop emitted inner ih =>
    intro node hnode
    rcases List.mem_cons.mp hnode with rfl | hnode
    · exact self (.whileLoop emitted inner)
    · exact (ih node hnode).mono ⟨[.label next, .action (.test cond) code, .branch (next + 1)],
        [.jump next, .label (next + 1)], by simp⟩
  | @forLoop loc init cond step body next code start chunks last first second stop before emitted
      inner after ihBefore ihInner ihAfter =>
    intro node hnode
    rcases List.mem_cons.mp hnode with rfl | hnode
    · exact self (.forLoop before emitted inner after)
    rcases List.mem_append.mp hnode with hnode | hnode
    · exact (ihBefore node hnode).mono ⟨[], .label next :: .action (.test cond) code ::
        .branch (next + 1) :: (chunks ++ last) ++ [.jump next, .label (next + 1)], by simp⟩
    rcases List.mem_append.mp hnode with hnode | hnode
    · exact (ihInner node hnode).mono ⟨start ++ [.label next, .action (.test cond) code,
        .branch (next + 1)], last ++ [.jump next, .label (next + 1)], by simp⟩
    · exact (ihAfter node hnode).mono ⟨start ++ .label next :: .action (.test cond) code ::
        .branch (next + 1) :: chunks, [.jump next, .label (next + 1)], by simp⟩
  | @returnVoid loc function next => exact single next .returnVoid rfl
  | @returnResult loc value function next code isExpression emitted =>
    exact single next (.returnResult isExpression emitted) (by simp [Node.nested, isExpression])
  | @returnStatement loc value function next chunks stop isStatement inner ih =>
    intro node hnode
    simp only [Work.nested, Node.nested, isStatement, Bool.false_eq_true, if_false] at hnode
    rcases List.mem_cons.mp hnode with rfl | hnode
    · exact self (.returnStatement isStatement inner)
    · exact (ih node hnode).mono ⟨[], [.leave], by simp⟩
  | @silent node next isSilent =>
    refine single next (.silent isSilent) ?_
    cases node <;> first | rfl | simp [Lowering.isSilent] at isSilent
  | nil => simp [Work.nested, Node.nestedAll]
  | @cons _ _ _ first others _ _ head tail ihHead ihTail =>
    intro node hnode
    rcases List.mem_append.mp hnode with hnode | hnode
    · exact (ihHead node hnode).mono ⟨[], others, by simp⟩
    · exact (ihTail node hnode).mono ⟨first, [], by simp⟩

/-! ## The chunks of a routine -/

/-- The chunks of a function are in order. -/
lemma Lays.wellLaid {function : Function} {next stop : Nat} {chunks : List Chunk}
    (h : Lays tables (.statements function.body) next chunks stop) :
    WellLaid (chunks ++ function.ending) where
  climbs {action code} hmem := by
    have hchunk : .action action code ∈ chunks := by
      rcases List.mem_append.mp hmem with hmem | hmem
      · exact hmem
      · cases hzero : function.exitsZero <;> simp [Function.ending, hzero] at hmem
    have hemitted := (h.action hchunk).1
    obtain ⟨-, inner, tail, -, -, hcode⟩ := Action.emit_lowers hemitted
    exact ⟨hemitted.climbs, by simp [hcode]⟩
  targets {target} hmem := by
    have hchunk : .jump target ∈ chunks ∨ .branch target ∈ chunks := by
      cases hzero : function.exitsZero <;> simpa [Function.ending, hzero] using hmem
    exact List.mem_append_left _ (h.target hchunk)
  last := by
    cases hzero : function.exitsZero <;> simp [Function.ending, hzero]

/-- Storing parameters leaves the stack alone. -/
lemma spill_climbs {loc : Location} {pairs : List (SymbolId × Reg)} {spills : List Instr}
    (h : spill tables loc pairs = .ok spills) : Climbs 0 0 (Counted.level 0 spills) 0 := by
  induction pairs generalizing spills with
  | nil =>
    cases h
    exact .nil
  | cons pair rest ih =>
    obtain ⟨target, others, -, hrest, rfl⟩ := spill_cons_eq_ok h
    exact .store target pair.2 (ih hrest)

/-- Whether a line is a label or a jump. -/
def isControl : Line → Bool
  | .label _ | .jmp _ | .je _ => true
  | .instr _ | .ret => false

/-- Labels and jumps stand between chunks. -/
lemma WellLaid.control {chunks : List Chunk} (h : WellLaid chunks) {n : Nat} {line : Line}
    (hcontrol : isControl line = true) (hmem : (n, line) ∈ heights 0 (chunkLines chunks)) :
    n = 0 := by
  have hclimbs : ∀ {action code}, .action action code ∈ chunks → Climbs 0 0 code 0 :=
    fun hmem => (h.climbs hmem).1
  clear h
  induction chunks with
  | nil => simp [heights] at hmem
  | cons chunk rest ih =>
    have hfirst : ∀ {action code}, .action action code ∈ [chunk] → Climbs 0 0 code 0 :=
      fun hmem => hclimbs (List.mem_cons.mpr (Or.inl (List.mem_singleton.mp hmem)))
    -- each chunk ends at the height at which the next one begins
    have hpad := padEnd_chunks hfirst
    rw [chunkLines_cons, chunkLines_nil, List.append_nil] at hpad
    rw [chunkLines_cons, heights_append, hpad, List.mem_append] at hmem
    rcases hmem with hmem | hmem
    · cases chunk with
      | action action code =>
        have hline : line ∈ ((heights 0 (Counted.plain code)).map Prod.snd) :=
          List.mem_map_of_mem hmem
        rw [heights_lines, Counted.erase_plain, plain, List.mem_map] at hline
        obtain ⟨instr, -, rfl⟩ := hline
        simp [isControl] at hcontrol
      | leave =>
        simp only [Chunk.lines, Counted.level, epilogue, List.map, heights, List.mem_cons] at hmem
        grind [isControl]
      | _ =>
        simp only [Chunk.lines, heights, List.mem_singleton, Prod.mk.injEq] at hmem
        exact hmem.1
    · exact ih hmem fun hmem => hclimbs (List.mem_cons_of_mem _ hmem)

/-! ## Routines -/

/-- A position of the program with nothing on the stack. -/
def IsLevel (program position : List (Nat × Line)) : Prop :=
  position <:+ program ∧ ∃ line rest, position = (0, line) :: rest

/-- The stack is kept in order along the lines of a program that is entered by a prologue for a
frame of the given size and goes on at `start`. -/
structure InOrder (frame : Nat) (program start : List (Nat × Line)) : Prop where
  /-- All paths to a line give the height that is written beside it. -/
  paths : ∀ {position height}, Passes program start position height →
    ∃ n line rest, position = (n, line) :: rest ∧ height = n ∧ LineAt n rest line
  /-- Nothing is on the stack at labels and jumps, be there a path to them or not. -/
  control : ∀ {n line}, isControl line = true → (n, line) ∈ start → n = 0
  /-- A machine that was called with an aligned stack makes calls with an aligned stack, and its
  stack pointer is always as far down as the height says. -/
  aligned : ∀ {answers position} {m m₀ m' : Machine}, (m.regs .rsp).toNat % 16 = 8 →
    m.run answers (prologue frame) = .ok m₀ → Executes answers program start m₀ position m' →
    ∃ (n : Nat) (line : Line) (rest : List (Nat × Line)), position = (n, line) :: rest ∧
      m'.regs .rsp = m₀.regs .rsp - BitVec.ofInt 64 (8 * n) ∧
      ∀ name, line = .instr (.call name) → (m'.regs .rsp).toNat % 16 = 0

lemma inOrder_of_wellLaid {frame : Nat} (hframe : frame % 16 = 0) {chunks : List Chunk}
    (h : WellLaid chunks) {spills : List Instr} (hspills : Climbs 0 0 (Counted.level 0 spills) 0)
    {program start : List (Nat × Line)} (hprogram : start <:+ program)
    (hstart : start = heights 0 (Counted.plain (Counted.level 0 spills) ++ chunkLines chunks))
    (hnodup : (labels (program.map Prod.snd)).Nodup) : InOrder frame program start := by
  have hmore : chunks ≠ [] := by
    rintro rfl
    simpa using h.last
  have hsplit : start = heights 0 (Counted.plain (Counted.level 0 spills)) ++
      heights 0 (chunkLines chunks) := by
    rw [hstart, heights_append, hspills.padEnd]
  have hlines : heights 0 (chunkLines chunks) <:+ program := by
    refine List.IsSuffix.trans ?_ hprogram
    rw [hsplit]
    exact List.suffix_append _ _
  have hstands : Stands chunks start 0 := by
    rw [hstart]
    exact .of_climbs h hspills hmore List.suffix_rfl
  refine ⟨?_, ?_, ?_⟩
  · intro position height hpath
    obtain ⟨n, rfl, hposition⟩ := hpath.stands h hlines hnodup hstands
    obtain ⟨line, rest, rfl, hline⟩ := hposition.lineAt
    exact ⟨n, line, rest, rfl, rfl, hline⟩
  · intro n line hcontrol hmem
    rw [hsplit, List.mem_append] at hmem
    rcases hmem with hmem | hmem
    · -- what stores the parameters is no control flow
      have hline : line ∈ ((heights 0 (Counted.plain (Counted.level 0 spills))).map Prod.snd) :=
        List.mem_map_of_mem hmem
      rw [heights_lines, Counted.erase_plain, plain, List.mem_map] at hline
      obtain ⟨instr, -, rfl⟩ := hline
      simp [isControl] at hcontrol
    · exact h.control hcontrol hmem
  · intro answers position m m₀ m' hentry hprologue hrun
    -- behind the prologue the stack is aligned, and calls are made at even heights only
    have haligned := prologue_aligned hframe hentry hprologue
    obtain ⟨n, hrsp, hposition⟩ := hrun.stands h hlines hnodup hstands
    obtain ⟨line, rest, rfl, hline⟩ := hposition.lineAt
    refine ⟨n, line, rest, rfl, hrsp, ?_⟩
    rintro name rfl
    have heven : n % 2 = 0 := hline
    rw [hrsp, BitVec.toNat_sub, BitVec.toNat_ofInt]
    omega

lemma WellLaid.isLevel {chunks after : List Chunk} (h : WellLaid chunks)
    {program : List (Nat × Line)} (hprogram : heights 0 (chunkLines chunks) <:+ program)
    (hafter : after <:+ chunks) (hmore : after ≠ []) :
    IsLevel program (heights 0 (chunkLines after)) := by
  obtain ⟨line, rest, hposition, -⟩ := (Stands.of_climbs h .nil hmore hafter).lineAt
  exact ⟨(h.suffix hafter).trans hprogram, line, rest, hposition⟩

/-- The routine is the code of the function.  With the heights that follow from the counts beside
its lines, the stack is kept in order, and nothing is on it where a statement begins or ends. -/
def KeepsStack (tables : Tables) (unit : Program.Owned) (routine : Routine) : Prop :=
  ∃ placed used next code counted body, Repositioned tables placed ∧
    Compiled placed unit.1 unit.2 used next code ∧ routine = ⟨unit.2.name, code.lines⟩ ∧
    let frame := frameSize used
    let entry := Counted.level 0 (plain (prologue frame))
    Counted.code unit.2 placed frame next = .ok counted ∧ counted.erase = code ∧
    counted.lines = entry ++ body ∧ InOrder frame (entry ++ heights 0 body) (heights 0 body) ∧
    ∀ node ∈ Node.nestedAll unit.2.body, ∃ inner after first stop,
      Lays placed (.statement node) first inner stop ∧
      IsLevel (entry ++ heights 0 body) (heights 0 (chunkLines (inner ++ after))) ∧
      IsLevel (entry ++ heights 0 body) (heights 0 (chunkLines after))

lemma Compiled.keepsStack {placed : Tables} {unit : Program.Owned} {used next : Nat} {code : Code}
    (hplaced : Repositioned tables placed) (h : Compiled placed unit.1 unit.2 used next code) :
    KeepsStack tables unit ⟨unit.2.name, code.lines⟩ := by
  obtain ⟨counted, spills, chunks, hcounted, rfl, hspills, hchunks, hlines⟩ :=
    Function.code_lays h.code
  have hclimbs := spill_climbs hspills
  have hwell := hchunks.wellLaid
  have hsplit : counted.lines = Counted.level 0 (plain (prologue (frameSize used))) ++
      (Counted.plain (Counted.level 0 spills) ++ chunkLines (chunks ++ unit.2.ending)) := by
    rw [hlines, ← List.append_assoc]
    simp [Counted.level, Counted.plain, plain]
  -- spilling the parameters ends at height zero, where the chunks begin
  have hbody : heights 0 (Counted.plain (Counted.level 0 spills) ++
      chunkLines (chunks ++ unit.2.ending)) = heights 0 (Counted.plain (Counted.level 0 spills)) ++
      heights 0 (chunkLines (chunks ++ unit.2.ending)) := by
    rw [heights_append, hclimbs.padEnd]
  refine ⟨placed, used, next, _, counted, _, hplaced, h, rfl, hcounted, rfl, hsplit, ?_, ?_⟩
  · refine inOrder_of_wellLaid ?_ hwell hclimbs (List.suffix_append _ _) rfl ?_
    · exact frameSize_mod_align used
    · have hnodup := Function.labels_nodup h.code
      rw [Counted.Code.erase, hsplit, Counted.erase_append] at hnodup
      rw [List.map_append, heights_lines]
      exact hnodup
  · intro node hnode
    -- the stack is level in front of every statement and behind it
    obtain ⟨inner, first, stop, ⟨before, after, hparts⟩, hlays⟩ := hchunks.hasStatement node hnode
    have hending : unit.2.ending ≠ [] := by
      cases hzero : unit.2.exitsZero <;> simp [Function.ending, hzero]
    have hprogram : heights 0 (chunkLines (chunks ++ unit.2.ending)) <:+
        Counted.level 0 (plain (prologue (frameSize used))) ++
          heights 0 (Counted.plain (Counted.level 0 spills) ++
            chunkLines (chunks ++ unit.2.ending)) := by
      rw [hbody, ← List.append_assoc]
      exact List.suffix_append _ _
    refine ⟨inner, after ++ unit.2.ending, first, stop, hlays, ?_, ?_⟩
    · refine hwell.isLevel hprogram ⟨before, ?_⟩ (by simp [hending])
      rw [← hparts]
      simp
    · refine hwell.isLevel hprogram ⟨before ++ inner, ?_⟩ (by simp [hending])
      rw [← hparts]
      simp

end Lowering

/-- In every program that is analyzed and compiled, each routine keeps its stack in order. -/
theorem stack_in_order {file source : String} {program : Program} {ws ws' : Workspace}
    {assembly : Assembly} (hanalyze : analyze source (.initial file) = .ok program ws)
    (hgenerate : generate program ws = .ok assembly ws') :
    List.Forall₂ (KeepsStack ws.toTables) (program.functions ws.symbols) assembly.routines := by
  refine (generated_routines hanalyze hgenerate).imp ?_
  rintro unit routine ⟨placed, used, next, code, hplaced, hcompiled, rfl⟩
  exact hcompiled.keepsStack hplaced

/-- A program with a call that needs padding. -/
theorem stack_in_order_padded : ∃ program ws assembly ws',
    analyze "(exfun f () s64) (while true (+ (f) 1))" (.initial "padded") = .ok program ws ∧
    generate program ws = .ok assembly ws' ∧
    List.Forall₂ (KeepsStack ws.toTables) (program.functions ws.symbols) assembly.routines := by
  have hcompiles : compiles "padded" "(exfun f () s64) (while true (+ (f) 1))" = true := by
    decide +kernel
  obtain ⟨program, ws, assembly, ws', hanalyze, hgenerate⟩ := runs_of_compiles hcompiles
  exact ⟨program, ws, assembly, ws', hanalyze, hgenerate, stack_in_order hanalyze hgenerate⟩

end ParenC
