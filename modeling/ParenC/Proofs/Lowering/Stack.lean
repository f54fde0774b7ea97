/-
The height of the stack in routines.

Along every path through the lines of a routine the stack has one height at each line: the count
that was kept while the line was emitted, and one more where it is padded.  So a machine that runs
the routine has its stack pointer aligned at every call, if it was called the same way.
-/
import ParenC.Proofs.Compilation
import ParenC.Proofs.Lowering.Height
import ParenC.Proofs.Lowering.Labels
import ParenC.Proofs.Machine

namespace ParenC

namespace Lowering

/-! ## Paths -/

/-- How many slots of eight bytes a line adds to the stack. -/
def lineRise : Line → Int
  | .instr instr => rise instr
  | _ => 0

/-- How many slots pad the stack after a line. -/
def linePad (pad : Nat) : Line → Nat
  | .instr instr => padAfter pad instr
  | _ => pad

/-- Lines with heights: the count, and the padding on top of it. -/
def heights : (pad : Nat) → Counted Line → List (Nat × Line)
  | _, [] => []
  | pad, (depth, line) :: rest => (depth + pad, line) :: heights (linePad pad line) rest

/-- The lines that may follow a line, unless it begins an epilogue. -/
def successors {α : Type} (program : List (α × Line)) (line : Line) (rest : List (α × Line)) :
    List (List (α × Line)) :=
  match line with
  | .instr (.movq (.reg .rbp) (.reg .rsp)) | .ret => []
  | .instr _ | .label _ => [rest]
  | .jmp target => (findLabel target program).toList
  | .je target => rest :: (findLabel target program).toList

/-- There is a path to the position along which the stack grows by `height` slots. -/
inductive Passes {α : Type} (program start : List (α × Line)) : List (α × Line) → Int → Prop
  | start : Passes program start start 0
  | step {note line rest height next} (before : Passes program start ((note, line) :: rest) height)
      (follows : next ∈ successors program line rest) :
      Passes program start next (height + lineRise line)

/-- Execute a line; jumps and labels change nothing. -/
def lineExec (answers : Nat → Answer) (m : Machine) : Line → Except Trap Machine
  | .instr instr => m.exec answers instr
  | _ => .ok m

/-- A machine gets to the position, whichever way conditional jumps go. -/
inductive Executes {α : Type} (answers : Nat → Answer) (program start : List (α × Line))
    (m₀ : Machine) : List (α × Line) → Machine → Prop
  | start : Executes answers program start m₀ start m₀
  | step {note line rest m m' next}
      (before : Executes answers program start m₀ ((note, line) :: rest) m)
      (run : lineExec answers m line = .ok m') (follows : next ∈ successors program line rest) :
      Executes answers program start m₀ next m'

/-! ## Heights of lines -/

/-- How many slots pad the stack after lines. -/
def padEnd (pad : Nat) (lines : Counted Line) : Nat := lines.foldl (fun pad entry =>
  linePad pad entry.2) pad

lemma padEnd_append (pad : Nat) (first second : Counted Line) :
    padEnd pad (first ++ second) = padEnd (padEnd pad first) second := List.foldl_append

lemma heights_append (pad : Nat) (first second : Counted Line) :
    heights pad (first ++ second) = heights pad first ++ heights (padEnd pad first) second := by
  induction first generalizing pad with
  | nil => rfl
  | cons entry rest ih =>
    rw [List.cons_append, heights, heights, ih]
    rfl

lemma heights_lines (pad : Nat) (lines : Counted Line) :
    (heights pad lines).map Prod.snd = lines.erase := by
  induction lines generalizing pad with
  | nil => rfl
  | cons entry rest ih =>
    rw [heights, List.map_cons, ih]
    rfl

/-- Straight code leaves no padding behind. -/
lemma Climbs.padEnd {pad height height' : Nat} {code : Counted Instr}
    (h : Climbs pad height code height') : Lowering.padEnd pad (Counted.plain code) = 0 := by
  induction h with
  | nil => rfl
  | cons counted fine moved later ih => exact ih

/-- The chunks of a routine: code is straight, jumps have targets, and the function is left at the
end. -/
structure WellLaid (chunks : List Chunk) : Prop where
  /-- The code of actions starts and ends with nothing on the stack. -/
  climbs : ∀ {action code}, .action action code ∈ chunks → Climbs 0 0 code 0 ∧ code ≠ []
  /-- There is a label for each jump. -/
  targets : ∀ {target}, .jump target ∈ chunks ∨ .branch target ∈ chunks → .label target ∈ chunks
  /-- The last chunk is an epilogue. -/
  last : chunks.getLast? = some .leave

variable {chunks : List Chunk}

/-- No padding is left between chunks. -/
lemma padEnd_chunks {before : List Chunk}
    (h : ∀ {action code}, .action action code ∈ before → Climbs 0 0 code 0) :
    padEnd 0 (chunkLines before) = 0 := by
  induction before with
  | nil => rfl
  | cons chunk rest ih =>
    have hchunk : padEnd 0 chunk.lines = 0 := by
      cases chunk with
      | action action code => exact (h List.mem_cons_self).padEnd
      | _ => rfl
    rw [chunkLines_cons, padEnd_append, hchunk]
    exact ih fun hmem => h (List.mem_cons_of_mem _ hmem)

/-- The rest of the chunks stands at the end of the lines. -/
lemma WellLaid.suffix (h : WellLaid chunks) {after : List Chunk} (hafter : after <:+ chunks) :
    heights 0 (chunkLines after) <:+ heights 0 (chunkLines chunks) := by
  obtain ⟨before, rfl⟩ := hafter
  have hpad : padEnd 0 (chunkLines before) = 0 :=
    padEnd_chunks fun hmem => (h.climbs (List.mem_append_left _ hmem)).1
  rw [chunkLines_append, heights_append, hpad]
  exact List.suffix_append _ _

/-- Every target of a jump is found, and it stands between chunks. -/
lemma WellLaid.found (h : WellLaid chunks) {program : List (Nat × Line)}
    (hprogram : heights 0 (chunkLines chunks) <:+ program)
    (hnodup : (labels (program.map Prod.snd)).Nodup) {target : Nat}
    (htarget : .jump target ∈ chunks ∨ .branch target ∈ chunks) :
    ∃ after, .label target :: after <:+ chunks ∧
      findLabel target program = some (heights 0 (chunkLines after)) := by
  obtain ⟨before, after, hchunks⟩ := List.append_of_mem (h.targets htarget)
  have hsuffix : .label target :: after <:+ chunks := ⟨before, hchunks.symm⟩
  refine ⟨after, hsuffix, ?_⟩
  have hlines : heights 0 (chunkLines (.label target :: after)) =
      (0, .label target) :: heights 0 (chunkLines after) := rfl
  exact findLabel_of_suffix hnodup (hlines ▸ (h.suffix hsuffix).trans hprogram)

/-! ## Heights along paths -/

/-- A position that can be reached, with its height: in the code of an action or between chunks. -/
inductive Stands (chunks : List Chunk) : List (Nat × Line) → Nat → Prop
  | inside {pad depth here height : Nat} {instr code after} (counted : here = depth + pad)
      (fine : fineAt here instr = true) (moved : (height : Int) = here + rise instr)
      (later : Climbs (padAfter pad instr) height code 0) (more : after ≠ [])
      (suffix : after <:+ chunks) :
      Stands chunks (heights pad ((depth, .instr instr) :: (Counted.plain code ++ chunkLines after)))
        here
  | between {chunk after} (control : ∀ action code, chunk ≠ .action action code)
      (suffix : chunk :: after <:+ chunks) :
      Stands chunks (heights 0 (chunkLines (chunk :: after))) 0

/-- What is known of a line at a height, and of what follows. -/
def LineAt (height : Nat) (rest : List (Nat × Line)) : Line → Prop
  | .instr (.movq (.reg .rbp) (.reg .rsp)) =>
    height = 0 ∧ ∃ after, rest = (0, .instr (.popq .rbp)) :: (0, .ret) :: after
  | .instr (.popq _) => 1 ≤ height
  | .instr (.call _) => height % 2 = 0
  | .instr _ => True
  | .label _ | .jmp _ | .je _ => height = 0
  | .ret => False

/-- An instruction of straight code does not begin an epilogue. -/
lemma lineAt_of_fine {here height : Nat} {instr : Instr} (fine : fineAt here instr = true)
    (moved : (height : Int) = here + rise instr) (rest : List (Nat × Line)) :
    LineAt here rest (.instr instr) := by
  unfold LineAt
  split
  case h_1 heq =>
    cases heq
    simp [fineAt] at fine
  case h_2 heq =>
    cases heq
    simp only [rise] at moved
    omega
  case h_3 heq =>
    cases heq
    simpa [fineAt] using fine
  all_goals trivial

lemma successors_of_fine {here : Nat} {instr : Instr} (fine : fineAt here instr = true)
    (program rest : List (Nat × Line)) : successors program (.instr instr) rest = [rest] := by
  unfold successors
  split
  case h_1 heq =>
    cases heq
    simp [fineAt] at fine
  all_goals first | rfl | contradiction

namespace Stands

variable {position : List (Nat × Line)} {height : Nat}

/-- Only the last chunk has none after it. -/
lemma more_of_ne_leave (h : WellLaid chunks) {chunk : Chunk} {after : List Chunk}
    (hsuffix : chunk :: after <:+ chunks) (hchunk : chunk ≠ .leave) : after ≠ [] := by
  rintro rfl
  obtain ⟨before, rfl⟩ := hsuffix
  have hlast := h.last
  rw [List.getLast?_append, List.getLast?_singleton, Option.some_or, Option.some.injEq] at hlast
  exact hchunk hlast

/-- Straight code before chunks. -/
lemma of_climbs (h : WellLaid chunks) {pad : Nat} {code : Counted Instr} {after : List Chunk}
    (hcode : Climbs pad height code 0) (more : after ≠ []) (hsuffix : after <:+ chunks) :
    Stands chunks (heights pad (Counted.plain code ++ chunkLines after)) height := by
  cases hcode with
  | nil =>
    obtain ⟨chunk, rest, rfl⟩ := List.exists_cons_of_ne_nil more
    cases chunk with
    | action action code =>
      obtain ⟨hclimbs, hne⟩ := h.climbs (hsuffix.subset List.mem_cons_self)
      have hrest := more_of_ne_leave h hsuffix (by simp)
      cases hclimbs with
      | nil => exact absurd rfl hne
      | cons counted fine moved later =>
        exact .inside counted fine moved later hrest ((List.suffix_cons _ _).trans hsuffix)
    | _ => exact .between (by simp) hsuffix
  | cons counted fine moved later => exact .inside counted fine moved later more hsuffix

/-- Chunks without code before them. -/
lemma of_suffix (h : WellLaid chunks) {chunk : Chunk} {after : List Chunk}
    (hsuffix : chunk :: after <:+ chunks) (hchunk : chunk ≠ .leave) :
    Stands chunks (heights 0 (chunkLines after)) 0 :=
  of_climbs h .nil (more_of_ne_leave h hsuffix hchunk) ((List.suffix_cons _ _).trans hsuffix)

/-- The height is written beside the line. -/
lemma lineAt (h : Stands chunks position height) :
    ∃ line rest, position = (height, line) :: rest ∧ LineAt height rest line := by
  cases h with
  | @inside pad depth here height instr code after counted fine moved later more suffix =>
    exact ⟨.instr instr, _, by rw [counted]; rfl, lineAt_of_fine fine moved _⟩
  | @between chunk after control suffix =>
    cases chunk with
    | action action code => exact absurd rfl (control action code)
    | jump target => exact ⟨_, _, rfl, rfl⟩
    | branch target => exact ⟨_, _, rfl, rfl⟩
    | label name => exact ⟨_, _, rfl, rfl⟩
    | zero => exact ⟨_, _, rfl, trivial⟩
    | leave => exact ⟨_, _, rfl, rfl, _, rfl⟩

/-- One step along a path. -/
lemma next (h : WellLaid chunks) {program : List (Nat × Line)}
    (hprogram : heights 0 (chunkLines chunks) <:+ program)
    (hnodup : (labels (program.map Prod.snd)).Nodup) {note : Nat} {line : Line}
    {rest follower : List (Nat × Line)} (hstands : Stands chunks ((note, line) :: rest) height)
    (hfollower : follower ∈ successors program line rest) :
    ∃ height', Stands chunks follower height' ∧ (height' : Int) = height + lineRise line := by
  generalize hposition : (note, line) :: rest = position at hstands
  cases hstands with
  | @inside pad depth here height instr code after counted fine moved later more suffix =>
    cases hposition
    -- inside the code of an action, control goes to the next line
    rw [successors_of_fine fine, List.mem_singleton] at hfollower
    subst hfollower
    exact ⟨height, of_climbs h later more suffix, moved⟩
  | @between chunk after control suffix =>
    -- between two chunks the stack is level, and control may go to a label
    have jumps : ∀ {target}, chunk = .jump target ∨ chunk = .branch target →
        ∀ lines ∈ findLabel target program, Stands chunks lines 0 := by
      intro target hchunk lines hlines
      have hmem : .jump target ∈ chunks ∨ .branch target ∈ chunks := by
        rcases hchunk with rfl | rfl
        · exact Or.inl (suffix.subset List.mem_cons_self)
        · exact Or.inr (suffix.subset List.mem_cons_self)
      obtain ⟨target', hsuffix, hfound⟩ := h.found hprogram hnodup hmem
      rw [hfound, Option.mem_some_iff] at hlines
      subst hlines
      exact of_suffix h hsuffix (by simp)
    cases chunk with
    | action action code => exact absurd rfl (control action code)
    | jump target =>
      cases hposition
      exact ⟨0, jumps (Or.inl rfl) _ (Option.mem_toList.mp hfollower), rfl⟩
    | branch target =>
      cases hposition
      rcases List.mem_cons.mp hfollower with rfl | hfollower
      · exact ⟨0, of_suffix h suffix (by simp), rfl⟩
      · exact ⟨0, jumps (Or.inr rfl) _ (Option.mem_toList.mp hfollower), rfl⟩
    | label name =>
      cases hposition
      cases List.mem_singleton.mp hfollower
      exact ⟨0, of_suffix h suffix (by simp), rfl⟩
    | zero =>
      cases hposition
      cases List.mem_singleton.mp hfollower
      exact ⟨0, of_suffix h suffix (by simp), rfl⟩
    | leave =>
      cases hposition
      cases hfollower

end Stands

/-- Every path gives the height that is written beside the line. -/
theorem Passes.stands (h : WellLaid chunks) {program start position : List (Nat × Line)}
    (hprogram : heights 0 (chunkLines chunks) <:+ program)
    (hnodup : (labels (program.map Prod.snd)).Nodup) (hstart : Stands chunks start 0) {height : Int}
    (hpath : Passes program start position height) :
    ∃ n : Nat, height = n ∧ Stands chunks position n := by
  induction hpath with
  | start => exact ⟨0, rfl, hstart⟩
  | step before follows ih =>
    obtain ⟨n, rfl, hstands⟩ := ih
    obtain ⟨n', hstands', hheight⟩ := hstands.next h hprogram hnodup follows
    exact ⟨n', hheight.symm, hstands'⟩

/-! ## The stack pointer -/

/-- Adding to the stack pointer and taking away from it is padding. -/
lemma padding_of_fine {here : Nat} {src : Operand} :
    (fineAt here (.addq src .rsp) = true → src = .imm 8) ∧
      (fineAt here (.subq src .rsp) = true → src = .imm 8) := by
  constructor <;> intro fine <;> unfold fineAt at fine <;> split at fine <;> simp_all

lemma rise_of_ne {src : Operand} {dst : Reg} (h : dst ≠ .rsp) :
    rise (.addq src dst) = 0 ∧ rise (.subq src dst) = 0 := by
  constructor <;> unfold rise <;> split <;> simp_all

/-- A fine instruction moves the stack pointer as it changes the height. -/
lemma exec_rsp {answers : Nat → Answer} {m m' : Machine} {here : Nat} {instr : Instr}
    (fine : fineAt here instr = true) (h : m.exec answers instr = .ok m') :
    m'.regs .rsp = m.regs .rsp - BitVec.ofInt 64 (8 * rise instr) := by
  cases instr with
  | pushq src =>
    cases h
    exact Machine.push_regs ..
  | popq dst =>
    cases h
    -- a fine instruction has `%rsp` as its target only to pad the stack
    have hdst : dst ≠ .rsp := by simpa [fineAt] using fine
    simp [hdst.symm, rise]
    bv_omega
  | addq src dst =>
    cases h
    by_cases hdst : dst = .rsp
    · subst hdst
      rw [padding_of_fine.1 fine]
      simp [rise, Machine.read]
      bv_omega
    · simp [(rise_of_ne hdst).1, Ne.symm hdst]
  | subq src dst =>
    cases h
    by_cases hdst : dst = .rsp
    · subst hdst
      rw [padding_of_fine.2 fine]
      simp [rise, Machine.read]
    · simp [(rise_of_ne hdst).2, Ne.symm hdst]
  | idivq src =>
    simp only [Machine.exec, Machine.idiv] at h
    split at h
    · cases h
    · cases h
      simp [rise]
  | divq src =>
    simp only [Machine.exec, Machine.div] at h
    split at h
    · cases h
    · cases h
      simp [rise]
  | movq src dst =>
    cases dst with
    | reg dst =>
      cases h
      have hdst : dst ≠ .rsp := by simpa [fineAt] using fine
      simp [rise, hdst.symm]
    | imm value => cases src <;> cases h
    | frame offset =>
      cases src with
      | reg src =>
        cases h
        simp [rise]
      | imm | frame => cases h
  | set cond dst =>
    have hdst : dst ≠ .rsp := by simpa [fineAt] using fine
    simp only [Machine.exec] at h
    split at h
    · cases h
    · cases h
      simp [rise, hdst.symm]
  | movzbq src dst =>
    have hdst : dst ≠ .rsp := by simpa [fineAt] using fine
    cases src <;> cases h <;> simp [rise, hdst.symm]
  | movabsq value dst | imulq src dst | xorq src dst | xorl src dst =>
    cases h
    have hdst : dst ≠ .rsp := by simpa [fineAt] using fine
    simp [rise, hdst.symm]
  | movb src offset | cqto | cmpq src dst | call name =>
    cases h
    simp [rise, Machine.answered]

lemma Stands.moved {program : List (Nat × Line)} {answers : Nat → Answer} {m m' : Machine}
    {note height : Nat} {line : Line} {rest follower : List (Nat × Line)}
    (hstands : Stands chunks ((note, line) :: rest) height)
    (hfollower : follower ∈ successors program line rest) (h : lineExec answers m line = .ok m') :
    m'.regs .rsp = m.regs .rsp - BitVec.ofInt 64 (8 * lineRise line) := by
  generalize hposition : (note, line) :: rest = position at hstands
  cases hstands with
  | inside counted fine =>
    cases hposition
    exact exec_rsp fine h
  | @between chunk after control suffix =>
    cases chunk with
    | action action code => exact absurd rfl (control action code)
    | jump | branch | label =>
      cases hposition
      cases h
      simp [lineRise]
    | zero =>
      cases hposition
      cases h
      simp [lineRise, rise]
    | leave =>
      cases hposition
      cases hfollower

/-- While a machine runs, its stack pointer is as far down as the height says. -/
theorem Executes.stands (h : WellLaid chunks) {answers : Nat → Answer}
    {program start position : List (Nat × Line)}
    (hprogram : heights 0 (chunkLines chunks) <:+ program)
    (hnodup : (labels (program.map Prod.snd)).Nodup) (hstart : Stands chunks start 0)
    {m₀ m : Machine} (hrun : Executes answers program start m₀ position m) :
    ∃ n : Nat, m.regs .rsp = m₀.regs .rsp - BitVec.ofInt 64 (8 * n) ∧ Stands chunks position n := by
  induction hrun with
  | start => exact ⟨0, by simp, hstart⟩
  | step before run follows ih =>
    obtain ⟨n, hrsp, hstands⟩ := ih
    obtain ⟨n', hstands', hheight⟩ := hstands.next h hprogram hnodup follows
    refine ⟨n', ?_, hstands'⟩
    rw [hstands.moved follows run, hrsp, hheight, Int.mul_add, BitVec.ofInt_add]
    grind

/-- The prologue aligns the stack pointer. -/
lemma prologue_aligned {answers : Nat → Answer} {m m' : Machine} {frame : Nat}
    (hframe : frame % 16 = 0) (hentry : (m.regs .rsp).toNat % 16 = 8)
    (hrun : m.run answers (prologue frame) = .ok m') : (m'.regs .rsp).toNat % 16 = 0 := by
  have hpush : (m.regs .rsp - 8).toNat % 16 = 0 := by
    rw [BitVec.toNat_sub, show BitVec.toNat (8 : Word) = 8 from rfl]
    omega
  unfold prologue at hrun
  split at hrun
  · cases hrun
    simpa using hpush
  · cases hrun
    have hsub : ((BitVec.ofInt 32 frame).signExtend 64).toNat % 16 = 0 := by
      rw [BitVec.toNat_signExtend, BitVec.toNat_setWidth, BitVec.toNat_ofInt]
      split <;> omega
    have hboth : (m.regs .rsp - 8 - (BitVec.ofInt 32 frame).signExtend 64).toNat % 16 = 0 := by
      rw [BitVec.toNat_sub]
      omega
    simpa [Machine.read] using hboth

end Lowering

end ParenC
