/-
What holds of a program that was read and checked without findings.

`Program.Analyzed` collects what the phases before code generation establish; everything that is
proved about generated code starts from it.
-/
import ParenC.Compilation
import ParenC.Proofs.Lowering.Placement
import ParenC.Proofs.Reading.Form

namespace ParenC

/-- The program was read and checked without findings, and the tables are those of that time. -/
structure Program.Analyzed (program : Program) (tables : Tables) : Prop where
  /-- No declaration is pending. -/
  complete : tables.Complete
  /-- Every construct was read and checked without findings. -/
  checked : ∀ item ∈ program.items, item.Checked tables none
  /-- Every function is declared somewhere in the program. -/
  functions : ∀ f : SymbolId, tables.symbols.HasSort .function f →
    ∃ node ∈ Node.checkOrderAll program.items, node.function? = some f
  /-- The variables of the top level are those that the top level declares. -/
  globals : tables.symbols.locals none = Node.declaredAll program.items
  /-- The variables of a function are its parameters and those that its body declares. -/
  frames : ∀ {loc f params body},
    .functionDef loc (some f) params body ∈ Node.checkOrderAll program.items →
    tables.symbols.locals (some f) = params ++ Node.declaredAll body

open CompileM Workspace

variable {ws : Workspace}

lemma tokenize_does {source : String} :
    Does (tokenize source) ws fun _ ws' => ws'.toTables = ws.toTables := by
  unfold tokenize
  dsimp only
  have hlog : Does (logAll ((Scan.run source).tokens.map .token)) ws
      fun _ ws' => ws'.toTables = ws.toTables := .of_ok rfl (.of_journal id) rfl
  refine hlog.bind ?_
  rintro _ ws' - htables
  split
  · exact .pure htables
  · exact .refuse

/-- A phase that ends without failing has found nothing wrong. -/
lemma endPhase_does {phase : Phase} :
    Does (endPhase phase) ws fun _ ws' => ws.Quiet ∧ ws'.toTables = ws.toTables := by
  unfold Does
  rw [endPhase_run]
  cases hfindings : ws.journal.hasFindings with
  | false =>
    have hquiet : ws.Quiet := by simpa [Journal.hasFindings, Quiet] using hfindings
    exact ⟨.of_journal id, hquiet, rfl⟩
  | true => exact ⟨.refl _, .refl _, rfl⟩

/-- What reading and checking establish together. -/
lemma Reading.Read.analyzed {program : Program} {ws' : Workspace} (sound : ws'.toTables.Sound)
    (hinitial : ws.toTables = {}) (hread : Reading.Read .topLevel ws program.items ws')
    (hquiet : ws'.Quiet)
    (haccepted : ∀ node ∈ Node.checkOrderAll program.items, node.Accepted ws'.toTables) :
    program.Analyzed ws'.toTables := by
  have hempty : ws.symbols = .initial := congrArg Tables.symbols hinitial
  have clean := hread.clean hquiet
  refine ⟨⟨sound, ?_⟩, ?_, ?_, ?_, ?_⟩
  · intro i symbol hget
    exact hread.typed (by rw [hempty]; exact Nat.zero_le i) hget
  · intro item hitem
    have hmem : ∀ n ∈ item.checkOrder, n ∈ Node.checkOrderAll program.items :=
      fun n hn => Node.mem_checkOrderAll.mpr ⟨item, hitem, hn⟩
    exact ⟨fun n hn => hread.valid n (hmem n hn), fun n hn => haccepted n (hmem n hn),
      clean.fits item hitem⟩
  · intro f hsort
    exact clean.functions f (by rw [hempty]; exact Nat.zero_le _) hsort
  · rw [clean.locals none (by simp), hempty]
    rfl
  · intro loc f params body hnode
    exact (clean.frames hnode).2.2

/-- Reading and checking meet no defect, and leave a program for which code can be generated. -/
theorem analyze_does (file source : String) :
    Does (analyze source) (.initial file) fun program ws' => program.Analyzed ws'.toTables := by
  unfold analyze
  refine tokenize_does.bind ?_
  rintro tokens ws₁ - htables₁
  refine .get (Reading.log_does.bind ?_)
  rintro _ ws₂ - ⟨htables₂, -⟩
  have hinitial : ws₂.toTables = {} := htables₂.trans htables₁
  have sound₂ : ws₂.toTables.Sound := hinitial ▸ Tables.sound_initial
  have hglobal : ws₂.symbols.enclosing = [] := by
    rw [congrArg Tables.symbols hinitial]
    rfl
  refine (Reading.program_does tokens sound₂ hglobal).bind ?_
  rintro program ws₃ hgrows₃ hread
  refine endPhase_does.bind ?_
  rintro _ ws₄ - ⟨hquiet₃, htables₄⟩
  have sound₃ := hgrows₃.sound sound₂
  have complete : ws₄.toTables.Complete := by
    rw [htables₄]
    refine ⟨sound₃, fun hget => hread.typed ?_ hget⟩
    rw [congrArg Tables.symbols hinitial]
    exact Nat.zero_le _
  have hvalid : ∀ node ∈ Node.checkOrderAll program.items, node.AllValid ws₄.toTables := by
    intro node hnode n hn
    rw [htables₄]
    exact hread.valid n (Node.checkOrderAll_trans hnode hn)
  refine (Typing.checkAll_does complete hvalid).bind ?_
  rintro _ ws₅ - ⟨htables₅, haccepted⟩
  refine endPhase_does.bind ?_
  rintro _ ws₆ - ⟨hquiet₅, htables₆⟩
  refine .pure ?_
  have haccepted₃ := haccepted hquiet₅
  rw [htables₆, htables₅, htables₄]
  rw [htables₄] at haccepted₃
  exact hread.analyzed sound₃ hinitial hquiet₃ haccepted₃

end ParenC
