/-
A compilation ends with assembly or with an error of the program.

The phases rely on each other: reading keeps the tables sound, checking turns away what has no
value where one is needed, and code is only generated when both have found nothing wrong.  So no
promise between them is ever broken, whatever the text is.
-/
import ParenC.Proofs.Lowering.Unit

namespace ParenC

open Lowering

/-- Compiling a text meets no defect, and makes one routine for each function of the program. -/
theorem compile_safe (file source : String) :
    Safe (compile source) (.initial file) fun assembly _ => ∃ program ws,
      analyze source (.initial file) = .ok program ws ∧
      List.Forall₂ (IsCodeOf ws.toTables) (program.functions ws.symbols) assembly.routines := by
  have hanalyze : Safe (analyze source) (.initial file) fun program ws =>
      analyze source (.initial file) = .ok program ws ∧ program.Analyzed ws.toTables := by
    have h := analyze_does file source
    unfold Does at h
    unfold Safe
    rcases hrun : analyze source (.initial file) with ⟨program, ws⟩ | ⟨e | d, ws⟩
    · rw [hrun] at h
      exact ⟨rfl, h.2⟩
    · trivial
    · rw [hrun] at h
      exact h
  refine hanalyze.bind ?_
  rintro program ws ⟨hrun, hanalyzed⟩
  refine (generate_safe hanalyzed).imp ?_
  intro assembly _ hroutines
  exact ⟨program, ws, hrun, hroutines⟩

/-- A program that was analyzed and compiled has one routine for each of its functions. -/
theorem generated_routines {file source : String} {program : Program} {ws ws' : Workspace}
    {assembly : Assembly} (hanalyze : analyze source (.initial file) = .ok program ws)
    (hgenerate : generate program ws = .ok assembly ws') :
    List.Forall₂ (IsCodeOf ws.toTables) (program.functions ws.symbols) assembly.routines := by
  have hanalyzed := analyze_does file source
  unfold Does at hanalyzed
  rw [hanalyze] at hanalyzed
  have hsafe := generate_safe hanalyzed.2
  unfold Safe at hsafe
  rw [hgenerate] at hsafe
  exact hsafe

/-- Whether a text compiles. -/
def compiles (file source : String) : Bool :=
  match compile source (.initial file) with
  | .ok .. => true
  | .error .. => false

/-- A text that compiles is analyzed, and code is generated for it. -/
lemma runs_of_compiles {file source : String} (h : compiles file source = true) :
    ∃ program ws assembly ws', analyze source (.initial file) = .ok program ws ∧
      generate program ws = .ok assembly ws' := by
  simp only [compiles, compile, bind, EStateM.bind] at h
  rcases hanalyze : analyze source (.initial file) with ⟨program, ws⟩ | ⟨e, ws⟩
  · rcases hgenerate : generate program ws with ⟨assembly, ws'⟩ | ⟨e, ws'⟩
    · exact ⟨program, ws, assembly, ws', rfl, hgenerate⟩
    · simp [hanalyze, hgenerate] at h
  · simp [hanalyze] at h

/-- Whether a text compiles to something that passes a test. -/
def compilesAnd (file source : String) (test : Program → Tables → Assembly → Bool) : Bool :=
  match analyze source (.initial file) with
  | .ok program ws =>
    match generate program ws with
    | .ok assembly _ => test program ws.toTables assembly
    | .error .. => false
  | .error .. => false

/-- A text that compiles to something that passes a test is analyzed, code is generated for it, and
both together pass the test. -/
lemma runs_of_compilesAnd {file source : String} {test : Program → Tables → Assembly → Bool}
    (h : compilesAnd file source test = true) : ∃ program ws assembly ws',
      analyze source (.initial file) = .ok program ws ∧
      generate program ws = .ok assembly ws' ∧ test program ws.toTables assembly = true := by
  unfold compilesAnd at h
  split at h
  · rename_i program ws hanalyze
    split at h
    · rename_i assembly ws' hgenerate
      exact ⟨program, ws, assembly, ws', hanalyze, hgenerate, h⟩
    · cases h
  · cases h

/-! ### Long texts

A text is stored as bytes, and it takes long to evaluate what its characters are.  Where they are
known, only the walk over them is left. -/

/-- The tokens of a text that was cut. -/
def tokensOf (scan : Scan) : CompileM (List Token) := do
  CompileM.logAll (scan.tokens.map .token)
  match scan.ending with
  | .finished loc => return scan.tokens ++ [Token.eof loc]
  | .unknown loc => CompileM.refuse loc .unknownText

/-- Read and check a program whose text was cut. -/
def analyzeScan (scan : Scan) : CompileM Program := do
  let tokens ← tokensOf scan
  CompileM.log (.tokenized (← get).journal.file tokens.length)
  let program ← Reading.program tokens
  CompileM.endPhase .parsing
  Typing.check program
  CompileM.endPhase .typeChecking
  return program

/-- Whether a text that was cut compiles to something that passes a test. -/
def scanCompilesAnd (file : String) (scan : Scan) (test : Program → Tables → Assembly → Bool) :
    Bool :=
  match analyzeScan scan (.initial file) with
  | .ok program ws =>
    match generate program ws with
    | .ok assembly _ => test program ws.toTables assembly
    | .error .. => false
  | .error .. => false

lemma compilesAnd_ofList (file : String) (text : List Char)
    (test : Program → Tables → Assembly → Bool) :
    compilesAnd file (String.ofList text) test =
      scanCompilesAnd file (Scan.walk 0 .start text) test := by
  have hscan : Scan.run (String.ofList text) = Scan.walk 0 .start text :=
    congrArg (Scan.walk 0 .start) String.toList_ofList
  rw [← hscan]
  rfl

/-- For every text and file name there is assembly, or an error that the text is to blame for. -/
theorem assemble_total (file source : String) :
    (∃ text, assemble file source = .ok text) ∨
      ∃ error, assemble file source = .error (.error error) := by
  have h := compile_safe file source
  unfold Safe at h
  unfold assemble EStateM.run
  rcases hrun : compile source (.initial file) with ⟨assembly, ws⟩ | ⟨e | d, ws⟩
  · exact Or.inl ⟨_, rfl⟩
  · exact Or.inr ⟨e, rfl⟩
  · rw [hrun] at h
    exact h.elim

end ParenC
