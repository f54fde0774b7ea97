/-
Booleans in routines.

A machine that enters a routine with a clear frame and truth values for its boolean parameters
keeps truth values in its boolean variables, wherever it gets to.  So each boolean expression
leaves a truth value on the stack, if no booleans are added or subtracted: the sum of two truth
values is no truth value, and the variable that it is stored in holds another one.
-/
import ParenC.Proofs.Lowering.Access
import ParenC.Proofs.Lowering.Discipline
import ParenC.Proofs.Lowering.Truth

namespace ParenC

open Lowering

/-- The boolean variables in the frame hold truth values. -/
def Machine.HoldsTruths (tables : Tables) (owner : Option SymbolId) (m : Machine) : Prop :=
  ∀ ⦃id place⦄, HasPlace tables owner id place → place.width = .byte → (place.get m).IsTruth

namespace Lowering

variable {tables : Tables} {owner : Option SymbolId} {used : Nat} {answers : Nat → Answer}
  {m m' : Machine}

/-! ## Frames -/

lemma Represents.holdsTruths_iff {s : Store} (h : Represents tables owner used m s) :
    m.HoldsTruths tables owner ↔ s.HoldsTruths tables owner := by
  constructor
  · intro hm id place hplace hwidth
    rw [← h.locals hplace]
    exact hm hplace hwidth
  · intro hs id place hplace hwidth
    rw [h.locals hplace]
    exact hs hplace hwidth

/-- A variable keeps its value while nothing is written above the stack. -/
lemma holdsTruths_of_mem (framed : Framed tables owner used)
    (hbelow : (m.regs .rsp).toNat + used ≤ (m.regs .rbp).toNat) (hm : m.HoldsTruths tables owner)
    (hframe : m'.regs .rbp = m.regs .rbp)
    (hmem : ∀ a : Word, (m.regs .rsp).toNat ≤ a.toNat → m'.mem a = m.mem a) :
    m'.HoldsTruths tables owner := by
  intro id place hplace hwidth
  have hwithin := framed.within hplace
  have hget : place.get m' = place.get m := by
    refine Slot.get_congr hwithin.1 (by omega) hframe fun a ha => hmem a ?_
    unfold Slot.Covers at ha
    omega
  rw [hget]
  exact hm hplace hwidth

/-- A truth value is stored in a boolean variable. -/
lemma holdsTruths_put (framed : Framed tables owner used)
    (hbelow : (m.regs .rsp).toNat + used ≤ (m.regs .rbp).toNat) (hm : m.HoldsTruths tables owner)
    {id : SymbolId} {place : Slot} (hplace : HasPlace tables owner id place) {src : Reg}
    (hword : place.width = .byte → (m.regs src).lowByte.IsTruth) :
    (place.put m src).HoldsTruths tables owner := by
  obtain ⟨s, hs⟩ := exists_represents framed hbelow
  have hput := (Reaches.refl hs).put framed hplace src
  refine hput.represents.holdsTruths_iff.mpr
    (holdsTruths_set framed hplace (hs.holdsTruths_iff.mp hm) fun hwidth => ?_)
  rw [if_pos hwidth]
  exact hword hwidth

/-- A tame instruction leaves the frame alone. -/
lemma exec_tame {instr : Instr} (htame : isTame instr = true) (hroom : 8 ≤ (m.regs .rsp).toNat)
    (h : m.exec answers instr = .ok m') : m'.regs .rbp = m.regs .rbp ∧
      ∀ a : Word, (m.regs .rsp).toNat ≤ a.toNat → m'.mem a = m.mem a := by
  cases instr with
  | pushq src =>
    cases h
    -- what is pushed lies below the stack pointer
    exact ⟨rfl, fun a ha => Machine.push_mem hroom ha⟩
  | popq dst =>
    cases h
    have hdst : dst ≠ .rbp := of_decide_eq_true htame
    exact ⟨by simp [hdst.symm], fun _ _ => rfl⟩
  | movq src dst =>
    cases dst with
    | reg dst =>
      cases h
      have hdst : dst ≠ .rbp := (of_decide_eq_true htame).1
      exact ⟨by simp [hdst.symm], fun _ _ => rfl⟩
    | imm value => cases htame
    | frame offset => cases htame
  | movb src offset => cases htame
  | movzbq src dst =>
    have hdst : dst ≠ .rbp := of_decide_eq_true htame
    cases src <;> cases h <;> exact ⟨by simp [hdst.symm], fun _ _ => rfl⟩
  | movabsq value dst | addq src dst | subq src dst | imulq src dst | xorq src dst | xorl src dst =>
    cases h
    have hdst : dst ≠ .rbp := of_decide_eq_true htame
    exact ⟨by simp [hdst.symm], fun _ _ => rfl⟩
  | cqto | cmpq src dst =>
    cases h
    exact ⟨rfl, fun _ _ => rfl⟩
  | idivq src =>
    simp only [Machine.exec, Machine.idiv] at h
    split at h <;> cases h
    exact ⟨rfl, fun _ _ => rfl⟩
  | divq src =>
    simp only [Machine.exec, Machine.div] at h
    split at h <;> cases h
    exact ⟨rfl, fun _ _ => rfl⟩
  | set cond dst =>
    have hdst : dst ≠ .rbp := of_decide_eq_true htame
    simp only [Machine.exec] at h
    split at h <;> cases h
    exact ⟨by simp [hdst.symm], fun _ _ => rfl⟩
  | call name =>
    cases h
    exact ⟨rfl, fun a ha => if_neg (Nat.not_lt.mpr ha)⟩

/-- What an instruction does to the boolean variables. -/
lemma Respects.keeps (framed : Framed tables owner used) {instr : Instr}
    (h : Respects tables owner m instr)
    (hbelow : (m.regs .rsp).toNat + used ≤ (m.regs .rbp).toNat) (hroom : 8 ≤ (m.regs .rsp).toNat)
    (hm : m.HoldsTruths tables owner) (hexec : m.exec answers instr = .ok m') :
    m'.regs .rbp = m.regs .rbp ∧ m'.HoldsTruths tables owner := by
  rcases h with htame | ⟨id, place, src, rfl, hplace, hword⟩
  · obtain ⟨hframe, hmem⟩ := exec_tame htame hroom hexec
    exact ⟨hframe, holdsTruths_of_mem framed hbelow hm hframe hmem⟩
  · rw [Slot.exec_store] at hexec
    cases hexec
    exact ⟨by rw [Slot.put_regs], holdsTruths_put framed hbelow hm hplace hword⟩

/-! ## Actions -/

/-- An action that assigns is that of an assignment. -/
lemma Lays.assignment {work : Work} {next stop : Nat} {chunks : List Chunk}
    (h : Lays tables work next chunks stop) (hwork : work.Usable tables owner) {lhs rhs : Node}
    {code : Counted Instr} (hmem : .action (.assign lhs rhs) code ∈ chunks) :
    ∃ loc, (Node.binary loc .assign lhs rhs).Usable tables owner := by
  induction h with
  | block inner ih => exact ih (fun node hnode => hwork.part hnode rfl) hmem
  | @assign loc lhs rhs next code emitted =>
    cases List.mem_singleton.mp hmem
    exact ⟨loc, hwork⟩
  | effect | returnVoid | returnResult | silent | nil => simp at hmem
  | ifThen emitted inner ih | whileLoop emitted inner ih =>
    refine ih (fun node hnode => hwork.part (by simp [Node.parts, hnode]) rfl) ?_
    simpa using hmem
  | @ifElse _ _ _ _ _ _ first second _ _ emitted onTrue onFalse ihTrue ihFalse =>
    have hcases : .action (.assign lhs rhs) code ∈ first ∨
        .action (.assign lhs rhs) code ∈ second := by
      simpa using hmem
    rcases hcases with hmem | hmem
    · exact ihTrue (fun node hnode => hwork.part (by simp [Node.parts, hnode]) rfl) hmem
    · exact ihFalse (fun node hnode => hwork.part (by simp [Node.parts, hnode]) rfl) hmem
  | @forLoop _ _ _ _ _ _ _ start chunks last _ _ _ before emitted inner after ihBefore ihInner
      ihAfter =>
    have hcases : .action (.assign lhs rhs) code ∈ start ∨ .action (.assign lhs rhs) code ∈ chunks ∨
        .action (.assign lhs rhs) code ∈ last := by
      simpa using hmem
    rcases hcases with hmem | hmem | hmem
    · exact ihBefore (hwork.part (by simp [Node.parts]) rfl) hmem
    · exact ihInner (fun node hnode => hwork.part (by simp [Node.parts, hnode]) rfl) hmem
    · exact ihAfter (hwork.part (by simp [Node.parts]) rfl) hmem
  | returnStatement isStatement inner ih =>
    refine ih (hwork.part (by simp [Node.parts]) rfl) ?_
    simpa using hmem
  | cons head tail ihHead ihTail =>
    rcases List.mem_append.mp hmem with hmem | hmem
    · exact ihHead (hwork _ (by simp)) hmem
    · exact ihTail (fun node hnode => hwork node (by simp [hnode])) hmem

variable {runs : List (Nat × Node)} {stands : Positions}

/-- The code of an action keeps truth values in the boolean variables. -/
lemma Emitted.along (ready : Ready tables owner) (framed : Framed tables owner used)
    (closed : stands.Closed answers) (sums : ∀ run ∈ runs, run.2.sumsTruths tables = false)
    (truthful : AnswersTruths tables answers runs stands) {action : Action} {code : Counted Instr}
    (h : Emitted tables action code) (hvalue : action.value.Usable tables owner)
    (hruns : ∀ run ∈ valueRuns 0 action.value, run ∈ runs)
    (hassign : ∀ lhs rhs, action = .assign lhs rhs →
      ∃ loc, (Node.binary loc .assign lhs rhs).Usable tables owner) {rest : List Line}
    (hbelow : (m.regs .rsp).toNat + used ≤ (m.regs .rbp).toNat)
    (hroom : 8 * code.erase.length ≤ (m.regs .rsp).toNat) (hm : m.HoldsTruths tables owner)
    (hstands : stands (plain code.erase ++ rest) m) :
    Along answers (Respects tables owner) m code.erase := by
  obtain ⟨-, inner, tail, hinner, hfinish, rfl⟩ := Action.emit_lowers h
  obtain ⟨s, hs⟩ := exists_represents framed hbelow
  simp only [Counted.erase_append, Counted.erase_cons, Counted.erase_level, List.length_append,
    List.length_cons] at hroom hstands ⊢
  obtain ⟨hagrees, halong⟩ := hinner.settled ready framed closed sums truthful hvalue hruns m s
    (plain (.popq .rax :: tail) ++ rest) hs (hs.holdsTruths_iff.mp hm) (by omega)
    (by simpa [plain] using hstands)
  refine halong.append fun m₁ hrun => ?_
  obtain ⟨word, s₁, -, hword⟩ := hagrees.of_run hrun
  -- the value is popped, and only an assignment stores it
  refine ⟨Or.inl rfl, fun m₂ hpop => ?_⟩
  cases action with
  | effect | result =>
    cases hfinish
    trivial
  | test cond =>
    cases hfinish
    exact along_of_tame (by simp [isTame]) m₂
  | assign lhs rhs =>
    obtain ⟨place, htarget, rfl⟩ := hfinish
    obtain ⟨loc, hnode⟩ := hassign lhs rhs rfl
    obtain ⟨id, -, hplace, hbool, -⟩ := storage_place ready.complete hnode.operands.1 htarget
    refine ⟨Or.inr ⟨id, place, .rax, rfl, hplace, fun hwidth => ?_⟩, fun _ _ => trivial⟩
    cases hpop
    have hrax : (m₁.pop .rax).regs .rax = word := hword.top
    -- a boolean variable is assigned a boolean
    have htruth : word.IsTruth := hword.truth
      ((hnode.operands_isOf .bool).trans (hbool.trans (decide_eq_true hwidth)))
    rw [hrax, htruth.lowByte_eq]
    exact htruth

/-! ## Positions -/

/-- Lines with nothing written beside them. -/
def bare (lines : List Line) : List (Unit × Line) := lines.map (Prod.mk ())

@[simp] lemma bare_cons (line : Line) (lines : List Line) :
    bare (line :: lines) = ((), line) :: bare lines := rfl

@[simp] lemma bare_lines (lines : List Line) : (bare lines).map Prod.snd = lines :=
  (List.map_map ..).trans (List.map_id _)

/-- Where a machine gets to that starts at some lines of a routine, whichever way conditional jumps
go. -/
def positions (answers : Nat → Answer) (lines start : List Line) (m₀ : Machine) : Positions :=
  fun position m => Executes answers (bare lines) (bare start) m₀ (bare position) m

lemma successors_of_ne_leave {α : Type} {instr : Instr} (h : instr ≠ .movq (.reg .rbp) (.reg .rsp))
    (program rest : List (α × Line)) : successors program (.instr instr) rest = [rest] := by
  unfold successors
  split
  case h_1 heq =>
    cases heq
    exact absurd rfl h
  all_goals first | rfl | contradiction

lemma positions_closed (answers : Nat → Answer) (lines start : List Line) (m₀ : Machine) :
    (positions answers lines start m₀).Closed answers := by
  intro instr rest m m' hleave hstands hexec
  refine Executes.step hstands hexec ?_
  rw [successors_of_ne_leave hleave]
  exact List.mem_singleton_self _

/-- A machine between two instructions of a routine whose body consists of the chunks.  The stack
pointer was `top` where the body began. -/
inductive Poised (tables : Tables) (owner : Option SymbolId) (used : Nat) (answers : Nat → Answer)
    (chunks : List Chunk) (top : Nat) : List Line → Machine → Prop
  | intro {pad height code after m} (straight : Climbs pad height code 0)
      (respected : Along answers (Respects tables owner) m code.erase) (more : after ≠ [])
      (suffix : after <:+ chunks) (stack : (m.regs .rsp).toNat + 8 * height = top)
      (below : top + used ≤ (m.regs .rbp).toNat)
      (room : 8 * (code.length + (chunkLines after).length) ≤ (m.regs .rsp).toNat)
      (truths : m.HoldsTruths tables owner) :
      Poised tables owner used answers chunks top (plain code.erase ++ (chunkLines after).erase) m

namespace Poised

variable {chunks : List Chunk} {top : Nat} {lines : List Line}

/-- Between chunks there is nothing on the stack. -/
lemma between {after : List Chunk} (more : after ≠ []) (suffix : after <:+ chunks)
    (stack : (m.regs .rsp).toNat = top) (below : top + used ≤ (m.regs .rbp).toNat)
    (room : 8 * (chunkLines chunks).length ≤ top) (truths : m.HoldsTruths tables owner) :
    Poised tables owner used answers chunks top (chunkLines after).erase m := by
  obtain ⟨before, rfl⟩ := suffix
  have hlength : (chunkLines (before ++ after)).length =
      (chunkLines before).length + (chunkLines after).length := by simp
  have hnothing : Climbs 0 0 ([] : Counted Instr) 0 := .nil
  refine intro hnothing trivial more (List.suffix_append _ _) ?_ below ?_ truths
  · omega
  · simp only [List.length_nil]
    omega

/-- A machine that is poised holds truth values, and there is room for the lines that follow. -/
lemma facts (h : Poised tables owner used answers chunks top lines m) :
    m.HoldsTruths tables owner ∧ (m.regs .rsp).toNat + used ≤ (m.regs .rbp).toNat ∧
      8 * lines.length ≤ (m.regs .rsp).toNat := by
  cases h with
  | @intro pad height code after m straight respected more suffix stack below room truths =>
    refine ⟨truths, by omega, ?_⟩
    simpa [plain, Counted.erase] using room

end Poised

/-- How an instruction moves the stack pointer, without overflow. -/
lemma exec_stack {here height top : Nat} {instr : Instr} (fine : fineAt here instr = true)
    (moved : (height : Int) = here + rise instr) (hroom : 8 ≤ (m.regs .rsp).toNat)
    (hstack : (m.regs .rsp).toNat + 8 * here = top) (htop : top < 2 ^ 64)
    (h : m.exec answers instr = .ok m') : (m'.regs .rsp).toNat + 8 * height = top := by
  have hrsp := exec_rsp fine h
  -- at most one slot at a time
  have hcases : rise instr = 1 ∨ rise instr = -1 ∨ rise instr = 0 := by
    unfold rise
    split <;> simp
  have hlt := (m.regs .rsp).isLt
  rw [hrsp, BitVec.toNat_sub, BitVec.toNat_ofInt]
  omega

variable {chunks : List Chunk} {top : Nat}

/-- One step into straight code. -/
lemma Poised.straight (framed : Framed tables owner used) {pad height here : Nat}
    {instr : Instr} {code : Counted Instr} {after : List Chunk}
    (fine : fineAt here instr = true) (moved : (height : Int) = here + rise instr)
    (later : Climbs pad height code 0)
    (respected : Along answers (Respects tables owner) m (instr :: code.erase)) (more : after ≠ [])
    (suffix : after <:+ chunks) (stack : (m.regs .rsp).toNat + 8 * here = top)
    (below : top + used ≤ (m.regs .rbp).toNat)
    (room : 8 * (code.length + 1 + (chunkLines after).length) ≤ (m.regs .rsp).toNat)
    (truths : m.HoldsTruths tables owner) (hexec : m.exec answers instr = .ok m') :
    Poised tables owner used answers chunks top
      (plain code.erase ++ (chunkLines after).erase) m' := by
  have hlt := (m.regs .rbp).isLt
  obtain ⟨hframe, htruths⟩ := respected.1.keeps framed (by omega) (by omega) truths hexec
  have hstack := exec_stack fine moved (by omega) stack (by omega) hexec
  have hrise : rise instr ≤ 1 := by
    unfold rise
    split <;> simp
  refine .intro later (respected.2 m' hexec) more suffix hstack ?_ ?_ htruths
  · rw [hframe]
    exact below
  · omega

/-- Every target of a jump is found, and it stands between chunks. -/
lemma WellLaid.found_bare (h : WellLaid chunks) {program : List Line}
    (hprogram : (chunkLines chunks).erase <:+ program) (hnodup : (labels program).Nodup)
    {target : Nat} (htarget : .jump target ∈ chunks ∨ .branch target ∈ chunks) :
    ∃ after, .label target :: after <:+ chunks ∧
      findLabel target (bare program) = some (bare (chunkLines after).erase) := by
  obtain ⟨before, after, rfl⟩ := List.append_of_mem (h.targets htarget)
  refine ⟨after, List.suffix_append _ _, @findLabel_of_suffix Unit target () _ _ ?_ ?_⟩
  · rwa [bare_lines]
  · have hlines : (chunkLines (.label target :: after)).erase <:+ program := by
      rw [chunkLines_append, Counted.erase_append] at hprogram
      exact (List.suffix_append _ _).trans hprogram
    exact hlines.map (Prod.mk ())

/-- After a jump there is nothing on the stack. -/
lemma Poised.jump (well : WellLaid chunks) {program : List Line}
    (hprogram : (chunkLines chunks).erase <:+ program) (hnodup : (labels program).Nodup)
    {target : Nat} (htarget : .jump target ∈ chunks ∨ .branch target ∈ chunks)
    (stack : (m.regs .rsp).toNat = top) (below : top + used ≤ (m.regs .rbp).toNat)
    (room : 8 * (chunkLines chunks).length ≤ top) (truths : m.HoldsTruths tables owner)
    {found : List (Unit × Line)} (hfound : found ∈ findLabel target (bare program)) :
    ∃ lines, found = bare lines ∧ Poised tables owner used answers chunks top lines m := by
  obtain ⟨after, hafter, hlabel⟩ := well.found_bare hprogram hnodup htarget
  rw [hlabel, Option.mem_some_iff] at hfound
  have hmore : after ≠ [] := Stands.more_of_ne_leave well hafter (by simp)
  have hsuffix : after <:+ chunks := (List.suffix_cons _ _).trans hafter
  exact ⟨_, hfound.symm, .between hmore hsuffix stack below room truths⟩

/-- Where a machine stands at the code of an action, with truth values in its boolean variables, the
code respects these. -/
def RespectsActions (tables : Tables) (owner : Option SymbolId) (used : Nat)
    (answers : Nat → Answer) (chunks : List Chunk) (stands : Positions) : Prop :=
  ∀ ⦃action code after m⦄, .action action code ∈ chunks →
    (m.regs .rsp).toNat + used ≤ (m.regs .rbp).toNat →
    8 * code.erase.length ≤ (m.regs .rsp).toNat → m.HoldsTruths tables owner →
    stands (plain code.erase ++ (chunkLines after).erase) m →
    Along answers (Respects tables owner) m code.erase

/-- One step of a machine that is poised. -/
lemma Poised.next (well : WellLaid chunks) (framed : Framed tables owner used)
    (room : 8 * (chunkLines chunks).length ≤ top) {program : List Line}
    (hprogram : (chunkLines chunks).erase <:+ program) (hnodup : (labels program).Nodup)
    (enter : RespectsActions tables owner used answers chunks stands)
    {line : Line} {rest : List Line} {follower : List (Unit × Line)}
    (h : Poised tables owner used answers chunks top (line :: rest) m)
    (hstands : stands (line :: rest) m) (hexec : lineExec answers m line = .ok m')
    (hfollower : follower ∈ successors (bare program) line (bare rest)) :
    ∃ rest', follower = bare rest' ∧ Poised tables owner used answers chunks top rest' m' := by
  generalize hposition : line :: rest = position at h
  cases h with
  | @intro pad height code after m straight respected more suffix stack below space truths =>
    cases straight with
    -- inside the code of an action
    | @cons _ depth _ height' _ instr code counted fine moved later =>
      cases hposition
      rw [successors_of_ne_leave respected.1.ne_leave, List.mem_singleton] at hfollower
      refine ⟨_, hfollower, .straight framed fine moved later respected more suffix stack below ?_
        truths hexec⟩
      simpa using space
    -- at the start of a chunk
    | nil =>
      obtain ⟨chunk, after, rfl⟩ := List.exists_cons_of_ne_nil more
      have hmem : chunk ∈ chunks := suffix.subset List.mem_cons_self
      have hsuffix : after <:+ chunks := (List.suffix_cons _ _).trans suffix
      have hmore : chunk ≠ .leave → after ≠ [] := Stands.more_of_ne_leave well suffix
      cases chunk with
      | action action code =>
        obtain ⟨hclimbs, hne⟩ := well.climbs hmem
        have hlength : code.erase.length = code.length := List.length_map _
        have hlines : plain (Counted.erase []) ++ (chunkLines (.action action code :: after)).erase =
            plain code.erase ++ (chunkLines after).erase := by
          rw [chunkLines_cons, Counted.erase_append, Chunk.lines, Counted.erase_plain]
          rfl
        simp only [chunkLines_cons, Chunk.lines, List.length_append, Counted.plain,
          List.length_map] at space
        rw [hlines] at hposition
        have halong := enter hmem (by omega) (by omega) truths (hposition ▸ hstands)
        cases hclimbs with
        | nil => exact absurd rfl hne
        | @cons _ depth _ height' _ instr code counted fine moved later =>
          cases hposition
          rw [successors_of_ne_leave halong.1.ne_leave, List.mem_singleton] at hfollower
          refine ⟨_, hfollower, .straight framed fine moved later halong (hmore (by simp)) hsuffix
            stack below ?_ truths hexec⟩
          simpa using space
      | jump target =>
        cases hposition
        cases hexec
        exact Poised.jump well hprogram hnodup (Or.inl hmem) stack below room truths
          (Option.mem_toList.mp hfollower)
      | branch target =>
        cases hposition
        cases hexec
        rcases List.mem_cons.mp hfollower with rfl | hfollower
        · exact ⟨_, rfl, .between (hmore (by simp)) hsuffix stack below room truths⟩
        · exact Poised.jump well hprogram hnodup (Or.inr hmem) stack below room truths
            (Option.mem_toList.mp hfollower)
      | label | zero =>
        cases hposition
        cases hexec
        exact ⟨_, List.mem_singleton.mp hfollower,
          .between (hmore (by simp)) hsuffix stack below room truths⟩
      | leave =>
        cases hposition
        cases hfollower

/-- A machine stays poised wherever it gets to. -/
theorem Executes.poised (well : WellLaid chunks) (framed : Framed tables owner used)
    (room : 8 * (chunkLines chunks).length ≤ top) {program start : List Line}
    (hprogram : (chunkLines chunks).erase <:+ program) (hnodup : (labels program).Nodup)
    {m₀ : Machine}
    (enter : RespectsActions tables owner used answers chunks (positions answers program start m₀))
    (hstart : Poised tables owner used answers chunks top start m₀) {position : List (Unit × Line)}
    (h : Executes answers (bare program) (bare start) m₀ position m) :
    ∃ lines, position = bare lines ∧ Poised tables owner used answers chunks top lines m := by
  induction h with
  | start => exact ⟨start, rfl, hstart⟩
  | step before run follows ih =>
    obtain ⟨lines, hlines, hpoised⟩ := ih
    cases lines with
    | nil => cases hlines
    | cons line rest =>
      cases hlines
      exact hpoised.next well framed room hprogram hnodup enter before run follows

/-! ## Routines -/

/-- A machine that enters a function, its frame set up and clear, with room on the stack and truth
values for the boolean parameters. -/
structure Entered (tables : Tables) (function : Function) (used room : Nat) (m : Machine) :
    Prop where
  /-- The stack lies below the frame. -/
  below : (m.regs .rsp).toNat + used ≤ (m.regs .rbp).toNat
  /-- There is room for whatever is pushed. -/
  room : 8 * room ≤ (m.regs .rsp).toNat
  /-- The bytes of the frame are zero. -/
  clear : ∀ a : Word, (m.regs .rbp).toNat ≤ a.toNat + used → a.toNat < (m.regs .rbp).toNat →
    m.mem a = 0
  /-- Boolean parameters are 0 or 1. -/
  params : ∀ pair ∈ function.params.zip Reg.arguments,
    Node.isOf tables .bool (.varRef function.location (some pair.1)) = true →
    (m.regs pair.2).lowByte.IsTruth

/-- A frame that is clear holds truth values. -/
lemma Entered.holdsTruths {function : Function} {room : Nat} (framed : Framed tables owner used)
    (h : Entered tables function used room m) : m.HoldsTruths tables owner := by
  rintro id ⟨offset, width⟩ hplace rfl
  have hwithin := framed.within hplace
  have hbelow := h.below
  have haddr : (m.slotAddr offset).toNat = (m.regs .rbp).toNat - offset :=
    Machine.slotAddr_toNat (by simp only at hwithin; omega)
  have hzero : m.mem (m.slotAddr offset) = 0 := by
    simp only [Width.bytes] at hwithin
    exact h.clear _ (by omega) (by omega)
  refine Or.inl ?_
  show (m.mem (m.slotAddr offset)).setWidth 64 = 0
  rw [hzero]
  rfl

/-- The parameters are stored in the frame. -/
lemma spill_keeps (complete : tables.Complete) (framed : Framed tables owner used) {loc : Location}
    {pairs : List (SymbolId × Reg)} {spills : List Instr}
    (h : spill tables loc pairs = .ok spills)
    (hvariable : ∀ pair ∈ pairs, tables.symbols.HasVariable owner pair.1)
    (hparam : ∀ pair ∈ pairs, Node.isOf tables .bool (.varRef loc (some pair.1)) = true →
      (m.regs pair.2).lowByte.IsTruth)
    (hbelow : (m.regs .rsp).toNat + used ≤ (m.regs .rbp).toNat) (hm : m.HoldsTruths tables owner) :
    ∃ m', m.run answers spills = .ok m' ∧ m'.regs = m.regs ∧ m'.HoldsTruths tables owner := by
  induction pairs generalizing m spills with
  | nil =>
    cases h
    exact ⟨m, rfl, rfl, hm⟩
  | cons pair rest ih =>
    obtain ⟨place, others, hslot, hrest, rfl⟩ := spill_cons_eq_ok h
    have husable : (Node.varRef loc (some pair.1)).Usable tables owner :=
      ⟨checked_varRef (hvariable pair (by simp)), by simp [Node.declared]⟩
    obtain ⟨id, hid, hplace, hbool, -⟩ := storage_place complete husable hslot
    -- storing one parameter keeps the truth values of the others
    have hput : (place.put m pair.2).HoldsTruths tables owner := by
      refine holdsTruths_put framed hbelow hm hplace fun hwidth => ?_
      exact hparam pair (by simp) (hbool.trans (decide_eq_true hwidth))
    obtain ⟨m', hrun, hregs, hm'⟩ := ih (m := place.put m pair.2) hrest
      (fun other hother => hvariable other (by simp [hother]))
      (fun other hother => by
        rw [Slot.put_regs]
        exact hparam other (by simp [hother]))
      (by rwa [Slot.put_regs]) hput
    refine ⟨m', (Machine.run_cons_of_ok (Slot.exec_store ..) _).trans hrun, ?_, hm'⟩
    rw [hregs, Slot.put_regs]

/-- An assignment leaves the low byte of its value in a boolean variable. -/
lemma assign_locals {results : Nat → Word} {loc : Location} {lhs rhs : Node} {id : SymbolId}
    {s s' : Store} {word : Word} (hid : lhs.symbol? = some id) (hbool : lhs.isOf tables .bool = true)
    (h : (Node.binary loc .assign lhs rhs).evaluate tables results s = .ok (word, s')) :
    s'.locals id = word.lowByte := by
  obtain ⟨word₁, s₁, -, h⟩ := evaluating_bind_eq_ok.mp h
  simp only [Node.assign, hid, hbool] at h
  cases h
  exact if_pos rfl

/-- Wherever the machine gets to, each boolean expression leaves a truth value on the stack, and an
assignment among them the one that its variable holds then. -/
def HasTruths (tables : Tables) (function : Function) (used : Nat) (lines : List Line)
    (spills : List Instr) (body : List Line) : Prop :=
  ∀ (answers : Nat → Answer) (m : Machine), Entered tables function used lines.length m →
    ∃ m₀, m.run answers spills = .ok m₀ ∧
      (AnswersTruths tables answers function.runs (positions answers lines body m₀) →
        ∀ run ∈ function.runs, run.2.isOf tables .bool = true → ∀ {part rest m₁ m₂},
          value tables run.2 run.1 = .ok (part, run.1 + 1) →
          positions answers lines body m₀ (plain part ++ rest) m₁ → m₁.run answers part = .ok m₂ →
          (m₂.mem.quad (m₂.regs .rsp)).IsTruth ∧ ∀ {loc lhs rhs place},
            run.2 = .binary loc .assign lhs rhs → storage tables lhs = .ok place →
            place.get m₂ = m₂.mem.quad (m₂.regs .rsp))

/-- The routine is the code of the function, and booleans are truth values in all its runs. -/
def KeepsTruths (tables : Tables) (unit : Program.Owned) (routine : Routine) : Prop :=
  ∃ placed used next code spills body, Repositioned tables placed ∧
    Compiled placed unit.1 unit.2 used next code ∧ routine = ⟨unit.2.name, code.lines⟩ ∧
    spill placed unit.2.location (unit.2.params.zip Reg.arguments) = .ok spills ∧
    code.lines = plain (prologue (frameSize used) ++ spills) ++ body ∧
    HasTruths placed unit.2 used code.lines spills body

section

variable {function : Function} {next stop : Nat} {code : Code} {entry : List Line}

lemma Compilable.param_variable (h : Compilable tables owner function) {pair : SymbolId × Reg}
    (hpair : pair ∈ function.params.zip Reg.arguments) :
    tables.symbols.HasVariable owner pair.1 := by
  refine SymbolTable.mem_locals.mp ?_
  rw [h.locals]
  exact List.mem_append_left _ (List.of_mem_zip hpair).1

lemma Function.ending_ne_nil (function : Function) : function.ending ≠ [] := by
  cases hzero : function.exitsZero <;> simp [Function.ending, hzero]

/-- Wherever a machine gets to in the body of a routine, its frame holds truth values, and there is
room for the lines that follow. -/
lemma Compiled.holdsTruths (h : Compiled tables owner function used next code)
    (sums : ∀ run ∈ function.runs, run.2.sumsTruths tables = false)
    (hchunks : Lays tables (.statements function.body) next chunks stop)
    (hlines : code.lines = entry ++ (chunkLines (chunks ++ function.ending)).erase) {m₀ : Machine}
    (hbelow : (m₀.regs .rsp).toNat + used ≤ (m₀.regs .rbp).toNat)
    (hroom : 8 * code.lines.length ≤ (m₀.regs .rsp).toNat) (hm₀ : m₀.HoldsTruths tables owner)
    (truthful : AnswersTruths tables answers function.runs
      (positions answers code.lines (chunkLines (chunks ++ function.ending)).erase m₀))
    {lines : List Line} (hstands : positions answers code.lines
      (chunkLines (chunks ++ function.ending)).erase m₀ lines m) :
    m.HoldsTruths tables owner ∧ (m.regs .rsp).toNat + used ≤ (m.regs .rbp).toNat ∧
      8 * lines.length ≤ (m.regs .rsp).toNat := by
  have framed := h.framed (used_lt hbelow)
  have hbody : 8 * (chunkLines (chunks ++ function.ending)).length ≤ (m₀.regs .rsp).toNat := by
    rw [hlines, List.length_append] at hroom
    have hlength : (chunkLines (chunks ++ function.ending)).erase.length =
        (chunkLines (chunks ++ function.ending)).length := List.length_map _
    omega
  have hstart : Poised tables owner used answers (chunks ++ function.ending) (m₀.regs .rsp).toNat
      (chunkLines (chunks ++ function.ending)).erase m₀ :=
    .between (by simp [function.ending_ne_nil]) List.suffix_rfl rfl hbelow hbody hm₀
  have hprogram : (chunkLines (chunks ++ function.ending)).erase <:+ code.lines :=
    hlines ▸ List.suffix_append _ _
  have enter : RespectsActions tables owner used answers (chunks ++ function.ending)
      (positions answers code.lines (chunkLines (chunks ++ function.ending)).erase m₀) := by
    intro action inner after m hmem hbelow hroom hm hstands
    -- the end of a function has no actions
    have hchunk : .action action inner ∈ chunks := by
      cases hzero : function.exitsZero <;> simpa [Function.ending, hzero] using hmem
    have hruns : ∀ run ∈ valueRuns 0 action.value, run ∈ function.runs := fun run hrun =>
      List.mem_flatMap.mpr ⟨action.value, (hchunks.action hchunk).2, hrun⟩
    refine ((hchunks.action hchunk).1).along h.ready framed (positions_closed _ _ _ _) sums truthful
      (h.usable _ (hruns _ (self_mem_valueRuns 0 action.value))) hruns ?_ hbelow hroom hm hstands
    rintro lhs rhs rfl
    exact hchunks.assignment h.usable_statement hchunk
  obtain ⟨position, heq, hpoised⟩ := Executes.poised hchunks.wellLaid framed hbody hprogram
    (Function.labels_nodup h.code) enter hstart hstands
  have hposition : lines = position := by
    rw [← bare_lines lines, heq, bare_lines]
  exact hposition ▸ hpoised.facts

/-- The code of an expression that stands first in a function comes right behind the prologue. -/
lemma Compiled.starts (h : Compiled tables owner function used next code) {node : Node}
    {others : List Node} (hbody : function.body = node :: others)
    (heffect : Lowering.isEffect node = true) {spills : List Instr} {body : List Line}
    (hspills : spill tables function.location (function.params.zip Reg.arguments) = .ok spills)
    (hlines : code.lines = plain (prologue (frameSize used) ++ spills) ++ body) :
    ∃ part, Lowers tables (.value node) 0 part ∧ plain part.erase <+: body := by
  obtain ⟨counted, spills', chunks, -, rfl, hspills', hchunks, hcounted⟩ :=
    Function.code_lays h.code
  cases hspills.symm.trans hspills'
  rw [Counted.Code.erase, hcounted, Counted.erase_append, Counted.erase_level] at hlines
  rw [← List.append_cancel_left hlines]
  rw [hbody] at hchunks
  cases hchunks with
  | cons head tail =>
    cases head with
    | effect _ emitted =>
      obtain ⟨-, part, finish, hpart, -, rfl⟩ := Action.emit_lowers emitted
      refine ⟨part, hpart, ?_⟩
      rw [List.append_assoc, List.singleton_append, chunkLines_cons, Counted.erase_append,
        Chunk.lines, Counted.erase_plain, Counted.erase_append, plain, plain, List.map_append,
        List.append_assoc]
      exact List.prefix_append _ _
    | silent isSilent =>
      cases node <;> simp [Lowering.isEffect, Lowering.isSilent, Node.isExpression]
        at heffect isSilent
    | _ => simp [Lowering.isEffect, Node.isExpression] at heffect

/-- A function without parameters or variables is entered by a machine with an empty frame. -/
lemma entered_empty {room : Nat} (hparams : function.params = []) (hroom : room ≤ 125) :
    Entered tables function 0 room ⟨fun _ => 1000, fun _ => 0, none, []⟩ where
  below := by decide
  room := by
    show 8 * room ≤ 1000
    omega
  clear := fun _ _ _ => rfl
  params := by simp [hparams]

/-- The sum of two truth values. -/
abbrev truthSum (loc left right : Location) : Node :=
  .binary loc (.arith .add) (.boolean left true) (.boolean right true)

lemma truthSum_isOf (complete : tables.Complete) (loc left right : Location) :
    (truthSum loc left right).isOf tables .bool = true := by
  have hdeep : (truthSum loc left right).deepType tables = .ok Builtin.bool.id :=
    (complete.sound.types.denotes_builtin .bool).resolve
  rw [Node.isOf_eq hdeep]
  rfl

/-- The code of a function that adds two truth values leaves 2 on the stack. -/
lemma Compiled.not_hasTruths (h : Compiled tables owner function used next code)
    {loc left right : Location} (hparams : function.params = [])
    (hbody : function.body = [truthSum loc left right])
    {spills : List Instr} {body : List Line}
    (hspills : spill tables function.location (function.params.zip Reg.arguments) = .ok spills)
    (hlines : code.lines = plain (prologue (frameSize used) ++ spills) ++ body)
    (hshort : code.lines.length ≤ 125) :
    ¬ HasTruths tables function used code.lines spills body := by
  intro htruths
  have hruns : function.runs =
      [(0, truthSum loc left right), (0, .boolean right true), (1, .boolean left true)] := by
    simp [Function.runs, hbody, Node.rootsAll, Node.roots, valueRuns]
  have hrun : (0, truthSum loc left right) ∈ function.runs := hruns ▸ List.mem_cons_self
  have hnone : function.variables = [] := by
    simp [Function.variables, hparams, hbody, Node.declaredAll, Node.declared]
  have hused : used = 0 := by
    have hlaid := h.laid
    rw [hnone] at hlaid
    exact hlaid
  subst hused
  obtain ⟨part, hpart, rest, rfl⟩ := h.starts hbody rfl hspills hlines
  have hlength : part.erase.length ≤ code.lines.length := by
    rw [hlines]
    simp [plain]
    omega
  -- nothing is called, so any answers will do
  let answers : Nat → Answer := fun _ => ⟨0, fun _ => 0, none, fun _ => 0⟩
  have hentered : Entered tables function 0 code.lines.length _ := entered_empty hparams hshort
  obtain ⟨m, hspilled, hall⟩ := htruths answers _ hentered
  rw [hparams] at hspills
  cases hspills
  cases hspilled
  obtain ⟨s, hs⟩ := exists_represents (h.framed (by decide)) hentered.below
  have hroom := Nat.le_trans (Nat.mul_le_mul_left 8 hlength) hentered.room
  have hevaluate : (truthSum loc left right).evaluate tables (fun n => (answers n).result) s =
      .ok (2, s) := rfl
  obtain ⟨m', hexec, hleaves⟩ :=
    (h.computes (h.usable _ hrun) hpart answers _ s hs hroom).of_result hevaluate
  have hcalls : ∀ {stands : Positions}, AnswersTruths tables answers function.runs stands := by
    intro stands depth loc callee args part rest m m' n hcall
    simp [hruns] at hcall
  have hbool := truthSum_isOf h.ready.complete loc left right
  have htruth := (hall hcalls _ hrun hbool hpart.value_eq .start hexec).1
  rw [hleaves.top] at htruth
  exact absurd htruth (by decide)

end

lemma Compiled.keepsTruths {placed : Tables} {unit : Program.Owned} {used next : Nat} {code : Code}
    (hplaced : Repositioned tables placed) (h : Compiled placed unit.1 unit.2 used next code)
    (sums : ∀ run ∈ unit.2.runs, run.2.sumsTruths placed = false) :
    KeepsTruths tables unit ⟨unit.2.name, code.lines⟩ := by
  obtain ⟨counted, spills, chunks, -, rfl, hspills, hchunks, hlines⟩ := Function.code_lays h.code
  have hbody : counted.erase.lines = plain (prologue (frameSize used) ++ spills) ++
      (chunkLines (chunks ++ unit.2.ending)).erase := by
    rw [Counted.Code.erase, hlines, Counted.erase_append, Counted.erase_level]
  refine ⟨placed, used, next, _, spills, _, hplaced, h, rfl, hspills, hbody, ?_⟩
  intro answers m hentered
  have framed := h.framed (used_lt hentered.below)
  obtain ⟨m₀, hspilled, hregs, hm₀⟩ := @spill_keeps placed unit.1 used answers m h.ready.complete
    framed _ _ _ hspills (fun pair hpair => h.param_variable hpair) hentered.params
    hentered.below (hentered.holdsTruths framed)
  refine ⟨m₀, hspilled, fun truthful run hrun hbool part rest m₁ m₂ hpart hstands hexec => ?_⟩
  -- storing the parameters moves neither the stack nor the frame
  have hbelow := hentered.below
  have hroom := hentered.room
  rw [← hregs] at hbelow hroom
  obtain ⟨hm₁, hbelow₁, hroom₁⟩ :=
    h.holdsTruths sums hchunks hbody hbelow hroom hm₀ truthful hstands
  obtain ⟨s, hs⟩ := exists_represents framed hbelow₁
  have husable := h.usable run hrun
  rw [← Counted.erase_value] at hpart
  obtain ⟨inner, hinner, rfl⟩ := map_eq_ok.mp hpart
  have hlowers := (Counted.value_lowers run.2 hinner).2
  have hlength : inner.erase.length ≤ (plain inner.erase ++ rest).length := by simp [plain]
  obtain ⟨hagrees, -⟩ := hlowers.settled h.ready framed (positions_closed _ _ _ _) sums truthful
    husable (fun _ => Function.runs_trans hrun) m₁ s rest hs (hs.holdsTruths_iff.mp hm₁) (by omega)
    hstands
  obtain ⟨word, s', hresult, hsettles⟩ := hagrees.of_run hexec
  have htruth := hsettles.truth hbool
  refine ⟨hsettles.top.symm ▸ htruth, fun {loc lhs rhs place} hassign htarget => ?_⟩
  rw [hassign] at hresult husable hbool
  have hlhs : lhs.isOf placed .bool = true := hbool
  obtain ⟨id, hid, hplace, -, -⟩ := storage_place h.ready.complete husable.operands.1 htarget
  rw [hsettles.represents.locals hplace, hsettles.top, assign_locals hid hlhs hresult,
    htruth.lowByte_eq]

/-- Types do not depend on places. -/
lemma Repositioned.isOf {placed : Tables} (h : Repositioned tables placed) (node : Node)
    (which : Builtin) : node.isOf placed which = node.isOf tables which := by
  have hiff : ∀ tables : Tables, node.isOf tables which = true ↔
      node.deepType tables = .ok which.id := by
    intro tables
    unfold Node.isOf
    cases node.deepType tables <;> simp
  rw [Bool.eq_iff_iff, hiff, hiff, h.eq]
  exact ⟨Node.deepType_congr h.alike.symm, Node.deepType_congr h.alike⟩

lemma Repositioned.sumsTruths {placed : Tables} (h : Repositioned tables placed) (node : Node) :
    node.sumsTruths placed = node.sumsTruths tables := by
  unfold Node.sumsTruths
  split <;> first | exact h.isOf _ _ | rfl

end Lowering

/-- In every program that is analyzed and compiled, the booleans of each function that neither adds
nor subtracts any are truth values in all runs of its routine. -/
theorem booleans_canonical {file source : String} {program : Program} {ws ws' : Workspace}
    {assembly : Assembly} (hanalyze : analyze source (.initial file) = .ok program ws)
    (hgenerate : generate program ws = .ok assembly ws') :
    List.Forall₂ (fun unit routine => (∀ run ∈ unit.2.runs, run.2.sumsTruths ws.toTables = false) →
      KeepsTruths ws.toTables unit routine) (program.functions ws.symbols) assembly.routines := by
  refine (generated_routines hanalyze hgenerate).imp ?_
  rintro unit routine ⟨placed, used, next, code, hplaced, hcompiled, rfl⟩ hsums
  refine hcompiled.keepsTruths hplaced fun run hrun => ?_
  rw [hplaced.sumsTruths]
  exact hsums run hrun

/-- Booleans are passed, returned, multiplied, compared and made of numbers. -/
theorem booleans_canonical_product : ∃ program ws assembly ws',
    analyze "(exfun g (a: bool) bool) (defun f (p: bool n: s64) bool ((let bool b)
      (:= b (:= b (* p (g (< n 3))))) (return (== b (bool n)))))" (.initial "product") =
      .ok program ws ∧
    generate program ws = .ok assembly ws' ∧
    (∀ unit ∈ program.functions ws.symbols, ∀ run ∈ unit.2.runs,
      run.2.sumsTruths ws.toTables = false) ∧
    List.Forall₂ (fun unit routine => (∀ run ∈ unit.2.runs, run.2.sumsTruths ws.toTables = false) →
      KeepsTruths ws.toTables unit routine) (program.functions ws.symbols) assembly.routines := by
  have hcompiles : compilesAnd "product"
      "(exfun g (a: bool) bool) (defun f (p: bool n: s64) bool ((let bool b)
      (:= b (:= b (* p (g (< n 3))))) (return (== b (bool n)))))"
      (fun program tables _ => (∀ unit ∈ program.functions tables.symbols, ∀ run ∈ unit.2.runs,
        run.2.sumsTruths tables = false : Prop)) = true := by
    decide +kernel
  obtain ⟨program, ws, assembly, ws', hanalyze, hgenerate, hsums⟩ := runs_of_compilesAnd hcompiles
  exact ⟨program, ws, assembly, ws', hanalyze, hgenerate, of_decide_eq_true hsums,
    booleans_canonical hanalyze hgenerate⟩

/-- Whether a program consists of one sum of two truth values. -/
def Program.addsOnce (program : Program) : Bool :=
  match program.items with
  | [.binary _ (.arith .add) (.boolean _ true) (.boolean _ true)] => true
  | _ => false

lemma Program.items_of_addsOnce {program : Program} (h : program.addsOnce = true) :
    ∃ loc left right, program.items = [truthSum loc left right] := by
  unfold addsOnce at h
  split at h
  · exact ⟨_, _, _, ‹_›⟩
  · cases h

/-- The sum of two truth values is none. -/
theorem not_keepsTruths_sum : ∃ program ws assembly ws',
    analyze "(+ true true)" (.initial "sum") = .ok program ws ∧
    generate program ws = .ok assembly ws' ∧
    ¬ List.Forall₂ (KeepsTruths ws.toTables) (program.functions ws.symbols) assembly.routines := by
  have hcompiles : compilesAnd "sum" "(+ true true)" (fun program _ assembly =>
      program.addsOnce ∧ ∀ routine ∈ assembly.routines, routine.lines.length ≤ 125) = true := by
    decide +kernel
  obtain ⟨program, ws, assembly, ws', hanalyze, hgenerate, htest⟩ := runs_of_compilesAnd hcompiles
  obtain ⟨hadds, hshort⟩ := of_decide_eq_true htest
  obtain ⟨loc, left, right, hitems⟩ := Program.items_of_addsOnce hadds
  refine ⟨program, ws, assembly, ws', hanalyze, hgenerate, fun hkeeps => ?_⟩
  have hfunctions : program.functions ws.symbols = [program.start] := by
    simp [Program.functions, Program.definitions, Program.definition?, hitems]
  have hbody : program.start.2.body = [truthSum loc left right] := by
    simp [Program.start, Program.statements, hitems, Node.isStatement]
  rw [hfunctions, List.forall₂_cons_left_iff] at hkeeps
  obtain ⟨routine, routines, hroutine, -, hroutines⟩ := hkeeps
  obtain ⟨placed, used, next, code, spills, body, -, hcompiled, rfl, hspills, hlines, htruths⟩ :=
    hroutine
  have hlength : code.lines.length ≤ 125 := hshort _ (hroutines ▸ List.mem_cons_self)
  exact hcompiled.not_hasTruths rfl hbody hspills hlines hlength htruths

end ParenC
