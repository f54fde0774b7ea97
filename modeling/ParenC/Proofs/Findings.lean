/-
What a failure tells.

The phases follow each other, and each of them begins with nothing to tell.  `Fails` says how
compiling can fail, phase by phase: what the phases before came to, how the phase itself ended, and
what the failure carries.  That is whatever the log says was found since the phase began; nothing is
lost on the way, and nothing of an earlier phase is left.

A failure is shown as lines.  Texts and names in findings are of one line, so that there is just one
line for each finding, and it starts with the file and the place.

The main result is `failures_complete`.
-/
import ParenC.Proofs.Findings.Lowering
import ParenC.Proofs.Lowering.Limits
import ParenC.Proofs.Relocation
import ParenC.Proofs.Token.Munch

namespace ParenC

open CompileM

variable {file source : String} {tokens : List Token} {program : Program} {cut : Cut}
  {start ws ws' : Workspace} {error : CompileError} {phase : Phase}

/-! ## Phases -/

/-- The workspace when a phase has ended without findings. -/
def Workspace.ended (ws : Workspace) (phase : Phase) : Workspace :=
  { ws with journal := ws.journal.log (.finished phase) }

/-- The text is cut into the tokens, and they are read in the workspace. -/
inductive Lexes (file source : String) : List Token → Workspace → Prop
  | intro {tokens : List Token} {ws : Workspace}
      (run : tokenize source (.initial file) = .ok tokens ws) :
      Lexes file source tokens
        { ws with journal := ws.journal.log (.tokenized file tokens.length) }

/-- The text is read as the program without findings, and it is checked in the workspace. -/
inductive Parses (file source : String) : Program → Workspace → Prop
  | intro {tokens : List Token} {program : Program} {ws ws' : Workspace}
      (lexes : Lexes file source tokens ws) (run : Reading.program tokens ws = .ok program ws')
      (clean : Workspace.recorded ws ws' = []) : Parses file source program (ws'.ended .parsing)

/-- The program of the text is checked without findings, and its code is generated in the
workspace. -/
inductive Checks (file source : String) : Program → Workspace → Prop
  | intro {program : Program} {ws ws' : Workspace} (parses : Parses file source program ws)
      (run : Typing.check program ws = .ok () ws') (clean : Workspace.recorded ws ws' = []) :
      Checks file source program (ws'.ended .typeChecking)

/-- How compiling the text fails. -/
inductive Fails (file source : String) : CompileError → Prop
  /-- It is not cut into tokens. -/
  | lexing {loc : Location} {message : String} {ws : Workspace}
      (run : tokenize source (.initial file) = .error (.error (.fatal file loc message [])) ws)
      (clean : Workspace.recorded (.initial file) ws = []) :
      Fails file source (.fatal file loc message [])
  /-- Reading is given up. -/
  | reading {tokens : List Token} {ws ws' : Workspace} {loc : Location} {message : String}
      (lexes : Lexes file source tokens ws)
      (run : Reading.program tokens ws =
        .error (.error (.fatal file loc message (Workspace.recorded ws ws'))) ws') :
      Fails file source (.fatal file loc message (Workspace.recorded ws ws'))
  /-- It is read to the end, with findings. -/
  | parsing {tokens : List Token} {program : Program} {ws ws' : Workspace}
      (lexes : Lexes file source tokens ws) (run : Reading.program tokens ws = .ok program ws')
      (found : Workspace.recorded ws ws' ≠ []) :
      Fails file source (.halted .parsing (Workspace.recorded ws ws'))
  /-- Checking is given up. -/
  | checking {program : Program} {ws ws' : Workspace} {loc : Location} {feature : String}
      (parses : Parses file source program ws)
      (run : Typing.check program ws =
        .error (.error (.notImplemented file loc feature (Workspace.recorded ws ws'))) ws') :
      Fails file source (.notImplemented file loc feature (Workspace.recorded ws ws'))
  /-- It is checked to the end, with findings. -/
  | typeChecking {program : Program} {ws ws' : Workspace} (parses : Parses file source program ws)
      (run : Typing.check program ws = .ok () ws') (found : Workspace.recorded ws ws' ≠ []) :
      Fails file source (.halted .typeChecking (Workspace.recorded ws ws'))
  /-- There is no code for it. -/
  | generating {program : Program} {ws ws' : Workspace} {loc : Location} {feature : String}
      (checks : Checks file source program ws)
      (run : Lowering.generate program ws =
        .error (.error (.notImplemented file loc feature [])) ws')
      (clean : Workspace.recorded ws ws' = []) :
      Fails file source (.notImplemented file loc feature [])

/-! ## Where phases begin -/

/-- The text was cut this way. -/
def Cut.Of (cut : Cut) (source : String) : Prop :=
  ∃ segments, TakesApart source.toList segments [] ∧ cut.tokens = lexemesOf [] segments ∧
    cut.finish = endOf [] segments

/-- A phase begins in the workspace. -/
structure Begins (file source : String) (cut : Cut) (ws : Workspace) : Prop where
  /-- The text was cut into tokens. -/
  text : cut.Of source
  /-- Everything is in order. -/
  tidy : ws.Tidy cut ws
  /-- Messages show the name of the file. -/
  file : ws.journal.file = file

/-- A text without lexemes that go over the end of a line. -/
lemma oneLine_of_lead {segments : List Segment} (h : Lead [] segments) :
    ∀ token ∈ lexemesOf [] segments, OneLine token.text := by
  refine fun token htoken => ⟨fun hbreak => ?_⟩
  exact absurd ((mem_lexemesOf h token htoken).isGraphic _ hbreak).2 (by decide)

lemma Tables.plain_initial : ({} : Tables).Plain where
  types := by
    intro info hinfo name hname
    obtain ⟨which, -, rfl⟩ : ∃ which ∈ Builtin.all, which.info = info := by
      simpa [TypeTable.initial] using hinfo
    cases which <;> simp [Builtin.info, Shape.names] at hname
  symbols := by
    intro symbol hsymbol
    simp [SymbolTable.initial] at hsymbol

/-- After cutting a text into tokens there is nothing to tell. -/
lemma Lexes.begins (h : Lexes file source tokens ws) : ∃ cut : Cut,
    tokens = cut.tokens ++ [Token.eof cut.finish] ∧ (∀ token ∈ cut.tokens, token.kind ≠ .eof) ∧
      Begins file source cut ws := by
  cases h with
  | intro run =>
    obtain ⟨segments, htakes, htokens⟩ := takesApart_of_tokenize run
    obtain ⟨body, loc, hbody, rfl, hlexical⟩ := tokenized_of_tokenize run
    rw [hbody] at htokens
    obtain ⟨rfl, hloc⟩ := List.append_inj' htokens rfl
    obtain rfl : loc = endOf [] segments := congrArg Token.location (List.singleton_injective hloc)
    let cut : Cut := ⟨lexemesOf [] segments, endOf [] segments, oneLine_of_lead htakes.2⟩
    refine ⟨cut, hbody, fun token htoken => (hlexical token htoken).2, ⟨segments, htakes, rfl, rfl⟩,
      .of_quiet rfl Tables.plain_initial, rfl⟩

namespace Workspace

/-- The findings of a phase are those that its end looks at. -/
lemma Tidy.endPhase_run (h : Tidy cut start ws) (phase : Phase) : endPhase phase ws =
    if Workspace.recorded start ws = [] then .ok () (ws.ended phase)
    else .error (.error (.halted phase (Workspace.recorded start ws)))
      { ws with journal := { ws.journal with diagnostics := #[] } } := by
  rw [CompileM.endPhase_run, ← h.recorded]
  cases hfound : ws.journal.diagnostics.toList with
  | nil =>
    have hnone : ws.journal.hasFindings = false := by
      simpa [Journal.hasFindings] using hfound
    simp [hnone, Workspace.ended]
  | cons diagnostic rest =>
    have hsome : ws.journal.hasFindings = true := by
      have hne : ws.journal.diagnostics ≠ #[] := by
        rintro hnil
        simp [hnil] at hfound
      simpa [Journal.hasFindings] using hne
    simp [hsome]

/-- A phase that has ended without findings leaves none for the next one. -/
lemma Tidy.ended (h : Tidy cut start ws) (hclean : Workspace.recorded start ws = [])
    (phase : Phase) :
    Tidy cut (ws.ended phase) (ws.ended phase) := by
  refine .of_quiet ?_ h.plain
  rw [← h.recorded] at hclean
  exact Array.toList_eq_nil_iff.mp hclean

end Workspace

open Workspace

lemma Begins.ended (h : Begins file source cut start) (htidy : Tidy cut start ws)
    (hclean : recorded start ws = []) (phase : Phase) :
    Begins file source cut (ws.ended phase) :=
  ⟨h.text, htidy.ended hclean phase, htidy.file.trans h.file⟩

/-! ## What the failure of a phase carries -/

/-- The finding is about the file and of one line, and it stands at a token. -/
structure Diagnostic.Told (file : String) (cut : Cut) (diagnostic : Diagnostic) : Prop where
  /-- It is about the file. -/
  file : diagnostic.file = file
  /-- It is of one line. -/
  oneLine : OneLine diagnostic.message
  /-- It stands at a token. -/
  place : diagnostic.location ∈ cut.places

/-- The failure is about tokens, and so are the findings in it. -/
inductive CompileError.Told (file : String) (cut : Cut) : CompileError → Prop
  | fatal {got : Token} {refusal : Refusal} {earlier : List Diagnostic} (meets : cut.Meets got)
      (concerns : refusal.Concerns got) (findings : ∀ d ∈ earlier, d.Told file cut) :
      Told file cut (.fatal file got.location refusal.message earlier)
  | notImplemented {loc : Location} {feature : String} {earlier : List Diagnostic}
      (place : loc ∈ cut.places) (oneLine : OneLine feature)
      (findings : ∀ d ∈ earlier, d.Told file cut) :
      Told file cut (.notImplemented file loc feature earlier)
  | halted {phase : Phase} {diagnostics : List Diagnostic}
      (findings : ∀ d ∈ diagnostics, d.Told file cut) : Told file cut (.halted phase diagnostics)

lemma Begins.told (h : Begins file source cut start) (htidy : Tidy cut start ws) :
    ∀ d ∈ recorded start ws, d.Told file cut := by
  intro d hd
  have hmem : d ∈ ws.journal.diagnostics := by
    rw [← Array.mem_toList_iff, htidy.recorded]
    exact hd
  obtain ⟨hmessage, hplace⟩ := htidy.diagnostics d hmem
  exact ⟨(Tidy.mem_recorded hd).trans h.file, hmessage, hplace⟩

/-- Reading that is given up. -/
lemma Cut.Refuses.told (h : cut.Refuses ws.journal error) (hbegins : Begins file source cut start)
    (htidy : Tidy cut start ws) : error.Told file cut ∧
      ∃ loc message, error = .fatal file loc message (recorded start ws) := by
  obtain ⟨got, refusal, hmeets, hconcerns, rfl⟩ := h
  rw [Journal.fatal, htidy.recorded, htidy.file, hbegins.file]
  exact ⟨.fatal hmeets hconcerns (hbegins.told htidy), _, _, rfl⟩

/-- Checking, or generating code, that is given up. -/
lemma Cut.Lacks.told (h : cut.Lacks ws.journal error) (hbegins : Begins file source cut start)
    (htidy : Tidy cut start ws) : error.Told file cut ∧
      ∃ loc feature, error = .notImplemented file loc feature (recorded start ws) := by
  obtain ⟨loc, feature, hloc, hfeature, rfl⟩ := h
  rw [Journal.notImplemented, htidy.recorded, htidy.file, hbegins.file]
  exact ⟨.notImplemented hloc hfeature (hbegins.told htidy), _, _, rfl⟩

/-- A text that is not cut into tokens is refused before anything is recorded. -/
lemma tokenize_error (h : tokenize source (.initial file) = .error (.error error) ws) :
    (∃ loc, error = .fatal file loc Refusal.unknownText.message []) ∧
      recorded (.initial file) ws = [] := by
  have hnone : ∀ tokens : List Token,
      (tokens.map Event.token).filterMap (Event.finding? file) = [] := by
    intro tokens
    simp [List.filterMap_eq_nil_iff, Event.finding?]
  unfold tokenize at h
  rcases bind_eq_error.mp h with hlog | ⟨_, ws₁, hlog, h⟩
  · cases hlog
  · cases hlog
    cases hending : (Scan.run source).ending with
    | finished loc =>
      rw [hending] at h
      cases h
    | unknown loc =>
      rw [hending] at h
      cases h
      refine ⟨⟨loc, rfl⟩, ?_⟩
      simpa [recorded, Workspace.initial, Journal.logAll] using hnone (Scan.run source).tokens

/-! ## Runs, phase by phase -/

section

variable {α : Type} {stops : Journal → CompileError → Prop} {act : CompileM α} {post : α → Prop}

/-- A run of an action that reports well. -/
lemma Reports.run_ok (h : Reports cut ws stops act post) (htidy : Tidy cut ws ws) {a : α}
    (run : act ws = .ok a ws') : Tidy cut ws ws' ∧ post a := by
  have hact := h ws htidy
  rwa [run] at hact

lemma Reports.run_error (h : Reports cut ws stops act post) (htidy : Tidy cut ws ws)
    (run : act ws = .error (.error error) ws') : Tidy cut ws ws' ∧ stops ws'.journal error := by
  have hact := h ws htidy
  rwa [run] at hact

end

/-- A text that is read to the end. -/
lemma Lexes.reads (h : Lexes file source tokens ws)
    (run : Reading.program tokens ws = .ok program ws') : ∃ cut : Cut,
      (∀ node ∈ program.items, node.Within cut) ∧ Begins file source cut ws ∧ Tidy cut ws ws' := by
  obtain ⟨cut, rfl, hkinds, hbegins⟩ := h.begins
  obtain ⟨htidy, hnodes⟩ := (Reading.program_reports hkinds).run_ok hbegins.tidy run
  exact ⟨cut, hnodes, hbegins, htidy⟩

/-- A text that is not read to the end. -/
lemma Lexes.refuses (h : Lexes file source tokens ws)
    (run : Reading.program tokens ws = .error (.error error) ws') :
    (∃ cut : Cut, cut.Of source ∧ error.Told file cut) ∧
      ∃ loc message, error = .fatal file loc message (recorded ws ws') := by
  obtain ⟨cut, rfl, hkinds, hbegins⟩ := h.begins
  obtain ⟨htidy, hstops⟩ := (Reading.program_reports hkinds).run_error hbegins.tidy run
  obtain ⟨htold, herror⟩ := hstops.told hbegins htidy
  exact ⟨⟨cut, hbegins.text, htold⟩, herror⟩

lemma Parses.begins (h : Parses file source program ws) : ∃ cut : Cut,
    (∀ node ∈ program.items, node.Within cut) ∧ Begins file source cut ws := by
  obtain ⟨lexes, run, clean⟩ := h
  obtain ⟨cut, hnodes, hbegins, htidy⟩ := lexes.reads run
  exact ⟨cut, hnodes, hbegins.ended htidy clean .parsing⟩

/-- A program that is checked to the end. -/
lemma Parses.checks (h : Parses file source program ws)
    (run : Typing.check program ws = .ok () ws') : ∃ cut : Cut,
      (∀ node ∈ program.items, node.Within cut) ∧ Begins file source cut ws ∧ Tidy cut ws ws' := by
  obtain ⟨cut, hnodes, hbegins⟩ := h.begins
  exact ⟨cut, hnodes, hbegins, ((Typing.check_reports hnodes).run_ok hbegins.tidy run).1⟩

/-- A program that is not checked to the end. -/
lemma Parses.lacks (h : Parses file source program ws)
    (run : Typing.check program ws = .error (.error error) ws') :
    (∃ cut : Cut, cut.Of source ∧ error.Told file cut) ∧
      ∃ loc feature, error = .notImplemented file loc feature (recorded ws ws') := by
  obtain ⟨cut, hnodes, hbegins⟩ := h.begins
  obtain ⟨htidy, hstops⟩ := (Typing.check_reports hnodes).run_error hbegins.tidy run
  obtain ⟨htold, herror⟩ := hstops.told hbegins htidy
  exact ⟨⟨cut, hbegins.text, htold⟩, herror⟩

/-- A program that there is no code for. -/
lemma Checks.lacks (h : Checks file source program ws)
    (run : Lowering.generate program ws = .error (.error error) ws') :
    (∃ cut : Cut, cut.Of source ∧ error.Told file cut) ∧
      ∃ loc feature, error = .notImplemented file loc feature (recorded ws ws') := by
  obtain ⟨parses, hrun, clean⟩ := h
  obtain ⟨cut, hnodes, hbegins, hchecked⟩ := parses.checks hrun
  have hgenerates := hbegins.ended hchecked clean .typeChecking
  obtain ⟨htidy, hstops⟩ := (Lowering.generate_reports hnodes).run_error hgenerates.tidy run
  obtain ⟨htold, herror⟩ := hstops.told hgenerates htidy
  exact ⟨⟨cut, hbegins.text, htold⟩, herror⟩

lemma analyze_of_lexes (h : Lexes file source tokens ws) : analyze source (.initial file) = (do
      let program ← Reading.program tokens
      endPhase .parsing
      Typing.check program
      endPhase .typeChecking
      return program) ws := by
  obtain ⟨run⟩ := h
  obtain ⟨body, loc, -, rfl, -⟩ := tokenized_of_tokenize run
  unfold analyze
  simp only [bind, EStateM.bind, run]
  rfl

lemma analyze_of_parses (h : Parses file source program ws) : analyze source (.initial file) = (do
      Typing.check program
      endPhase .typeChecking
      return program) ws := by
  obtain ⟨lexes, run, clean⟩ := h
  obtain ⟨cut, -, -, htidy⟩ := lexes.reads run
  have hend := htidy.endPhase_run .parsing
  rw [if_pos clean] at hend
  rw [analyze_of_lexes lexes]
  simp only [bind, EStateM.bind, run, hend]

lemma analyze_of_checks (h : Checks file source program ws) :
    analyze source (.initial file) = .ok program ws := by
  obtain ⟨parses, run, clean⟩ := h
  obtain ⟨cut, -, -, htidy⟩ := parses.checks run
  have hend := htidy.endPhase_run .typeChecking
  rw [if_pos clean] at hend
  rw [analyze_of_parses parses]
  simp only [bind, EStateM.bind, run, hend]
  rfl

/-! ## Failures, phase by phase -/

/-- What reading and checking come to. -/
def Settles (file source : String) : EStateM.Result Failure Workspace Program → Prop
  | .ok program ws => Checks file source program ws
  | .error (.error error) _ => Fails file source error
  | .error (.defect _) _ => True

lemma Parses.settles (h : Parses file source program ws) :
    Settles file source (analyze source (.initial file)) := by
  rw [analyze_of_parses h]
  rcases run : Typing.check program ws with ⟨_, ws'⟩ | ⟨error | defect, ws'⟩
  · obtain ⟨cut, -, -, htidy⟩ := h.checks run
    simp only [bind, EStateM.bind, run, htidy.endPhase_run]
    by_cases hclean : recorded ws ws' = []
    · rw [if_pos hclean]
      exact .intro h run hclean
    · rw [if_neg hclean]
      exact .typeChecking h run hclean
  · obtain ⟨-, loc, feature, rfl⟩ := h.lacks run
    simp only [bind, EStateM.bind, run]
    exact .checking h run
  · simp only [bind, EStateM.bind, run]
    trivial

lemma Lexes.settles (h : Lexes file source tokens ws) :
    Settles file source (analyze source (.initial file)) := by
  rcases run : Reading.program tokens ws with ⟨program, ws'⟩ | ⟨error | defect, ws'⟩
  · by_cases hclean : recorded ws ws' = []
    · exact Parses.settles (.intro h run hclean)
    · obtain ⟨cut, -, -, htidy⟩ := h.reads run
      rw [analyze_of_lexes h]
      simp only [bind, EStateM.bind, run, htidy.endPhase_run]
      rw [if_neg hclean]
      exact .parsing h run hclean
  · obtain ⟨-, loc, message, rfl⟩ := h.refuses run
    rw [analyze_of_lexes h]
    simp only [bind, EStateM.bind, run]
    exact .reading h run
  · rw [analyze_of_lexes h]
    simp only [bind, EStateM.bind, run]
    trivial

lemma analyze_settles (file source : String) :
    Settles file source (analyze source (.initial file)) := by
  rcases run : tokenize source (.initial file) with ⟨tokens, ws⟩ | ⟨error | defect, ws⟩
  · exact Lexes.settles (.intro run)
  · obtain ⟨⟨loc, rfl⟩, hclean⟩ := tokenize_error run
    unfold analyze
    simp only [bind, EStateM.bind, run]
    exact .lexing run hclean
  · unfold analyze
    simp only [bind, EStateM.bind, run]
    trivial

/-- There are no findings when code is generated. -/
lemma Checks.fails (h : Checks file source program ws)
    (run : Lowering.generate program ws = .error (.error error) ws') : Fails file source error := by
  obtain ⟨-, loc, feature, rfl⟩ := h.lacks run
  obtain ⟨haccepted, hquiet⟩ := Program.Accepted.of_analyze (analyze_of_checks h)
  obtain ⟨loc', feature', hfailure⟩ := haccepted.failure_eq hquiet run
  obtain ⟨-, -, -, hclean⟩ := CompileError.notImplemented.inj (Failure.error.inj hfailure)
  rw [hclean] at run ⊢
  exact .generating h run hclean

/-- The failures told of are those that happen. -/
lemma Fails.exists_run (h : Fails file source error) :
    ∃ ws, compile source (.initial file) = .error (.error error) ws := by
  have hstops : ∀ {ws}, analyze source (.initial file) = .error (.error error) ws →
      ∃ ws, compile source (.initial file) = .error (.error error) ws := fun hrun =>
    ⟨_, bind_eq_error.mpr (.inl hrun)⟩
  cases h with
  | lexing run => exact hstops (bind_eq_error.mpr (.inl run))
  | reading lexes run =>
    exact hstops ((analyze_of_lexes lexes).trans (bind_eq_error.mpr (.inl run)))
  | parsing lexes run found =>
    obtain ⟨cut, -, -, htidy⟩ := lexes.reads run
    have hend := htidy.endPhase_run .parsing
    rw [if_neg found] at hend
    exact hstops ((analyze_of_lexes lexes).trans
      (bind_eq_error.mpr (.inr ⟨_, _, run, bind_eq_error.mpr (.inl hend)⟩)))
  | checking parses run =>
    exact hstops ((analyze_of_parses parses).trans (bind_eq_error.mpr (.inl run)))
  | typeChecking parses run found =>
    obtain ⟨cut, -, -, htidy⟩ := parses.checks run
    have hend := htidy.endPhase_run .typeChecking
    rw [if_neg found] at hend
    exact hstops ((analyze_of_parses parses).trans
      (bind_eq_error.mpr (.inr ⟨_, _, run, bind_eq_error.mpr (.inl hend)⟩)))
  | generating checks run =>
    exact ⟨_, bind_eq_error.mpr (.inr ⟨_, _, analyze_of_checks checks, run⟩)⟩

/-- Compiling a text fails with an error just if a phase fails with it. -/
theorem assemble_fails_iff : assemble file source = .error (.error error) ↔
    Fails file source error := by
  constructor
  · intro h
    unfold assemble EStateM.run at h
    split at h
    · cases h
    · rename_i hrun
      cases h
      have hsettles := analyze_settles file source
      rcases bind_eq_error.mp hrun with run | ⟨program, ws, run, hgenerate⟩
      · rwa [run] at hsettles
      · rw [run] at hsettles
        exact Checks.fails hsettles hgenerate
  · intro h
    obtain ⟨ws, hws⟩ := h.exists_run
    rw [assemble, EStateM.run, hws]

/-- What a failure is about. -/
lemma Fails.told (h : Fails file source error) :
    (∃ ws loc, tokenize source (.initial file) = .error (.error error) ws ∧
        error = .fatal file loc Refusal.unknownText.message []) ∨
      ∃ cut : Cut, cut.Of source ∧ error.Told file cut := by
  cases h with
  | lexing run => exact .inl ⟨_, _, run, (tokenize_error run).1.choose_spec⟩
  | reading lexes run => exact .inr (lexes.refuses run).1
  | parsing lexes run =>
    obtain ⟨cut, -, hbegins, htidy⟩ := lexes.reads run
    exact .inr ⟨cut, hbegins.text, .halted (hbegins.told htidy)⟩
  | checking parses run => exact .inr (parses.lacks run).1
  | typeChecking parses run =>
    obtain ⟨cut, -, hbegins, htidy⟩ := parses.checks run
    exact .inr ⟨cut, hbegins.text, .halted (hbegins.told htidy)⟩
  | generating checks run => exact .inr (checks.lacks run).1

/-! ## Lines -/

namespace CompileError

/-- Whether the failure ends the phase that it happens in. -/
def stops : CompileError → Bool
  | fatal .. | notImplemented .. => true
  | halted .. => false

/-- How a line of the report speaks of its finding. -/
def severity (error : CompileError) (line : Nat) : String :=
  if error.stops && line + 1 = error.count then "fatal" else "error"

lemma severity_oneLine (error : CompileError) (line : Nat) : OneLine (error.severity line) := by
  unfold severity
  split <;> exact .ofList (by decide)

/-- The report has at least one line and as many as there are findings, and each of them tells file,
place and severity first. -/
structure Lined (file : String) (error : CompileError) : Prop where
  /-- Something is told. -/
  count_pos : 1 ≤ error.count
  /-- There is a line for each finding. -/
  count : (error.message.toList.splitOn '\n').length = error.count
  /-- This is what a line looks like. -/
  line : ∀ {i : Nat} {line : List Char}, (error.message.toList.splitOn '\n')[i]? = some line →
    ∃ loc text, line = (findingLine file loc (error.severity i) text).toList

/-- There are findings, they are about the file, and they are of one line. -/
inductive Plain (file : String) : CompileError → Prop
  | fatal {loc : Location} {message : String} {earlier : List Diagnostic}
      (oneLine : OneLine message) (findings : ∀ d ∈ earlier, d.file = file ∧ OneLine d.message) :
      Plain file (.fatal file loc message earlier)
  | notImplemented {loc : Location} {feature : String} {earlier : List Diagnostic}
      (oneLine : OneLine feature) (findings : ∀ d ∈ earlier, d.file = file ∧ OneLine d.message) :
      Plain file (.notImplemented file loc feature earlier)
  | halted {phase : Phase} {diagnostics : List Diagnostic} (nonempty : diagnostics ≠ [])
      (findings : ∀ d ∈ diagnostics, d.file = file ∧ OneLine d.message) :
      Plain file (.halted phase diagnostics)

/-- A finding that waited for the end of its phase is shown as an error. -/
lemma line_of_finding {findings : List Diagnostic}
    (h : ∀ d ∈ findings, d.file = file ∧ OneLine d.message) {i : Nat} {line : String}
    (hline : (findings.map Diagnostic.text)[i]? = some line) : i < findings.length ∧
      ∃ loc text, OneLine text ∧ line = findingLine file loc "error" text := by
  rw [List.getElem?_map, Option.map_eq_some_iff] at hline
  obtain ⟨d, hd, rfl⟩ := hline
  obtain ⟨rfl, hmessage⟩ := h d (List.mem_of_getElem? hd)
  exact ⟨(List.getElem?_eq_some_iff.mp hd).1, d.location, d.message, hmessage, rfl⟩

/-- The lines of a report that ends with a fatal finding. -/
lemma line_of_stopped {earlier : List Diagnostic}
    (h : ∀ d ∈ earlier, d.file = file ∧ OneLine d.message) {last : Location} {message : String}
    (hmessage : OneLine message) {i : Nat} {line : String} (hline :
      (earlier.map Diagnostic.text ++ [findingLine file last "fatal" message])[i]? = some line) :
    ∃ loc text, OneLine text ∧ line = findingLine file loc
      (if true && i + 1 = earlier.length + 1 then "fatal" else "error") text := by
  rcases Nat.lt_or_ge i (earlier.map Diagnostic.text).length with hi | hi
  · rw [List.getElem?_append_left hi] at hline
    obtain ⟨hlt, hshown⟩ := line_of_finding h hline
    simpa [Nat.ne_of_lt hlt] using hshown
  · rw [List.getElem?_append_right hi, List.getElem?_singleton] at hline
    split at hline
    · have hlast : i = earlier.length := by
        rw [List.length_map] at hi
        simp only [List.length_map] at *
        omega
      cases hline
      exact ⟨last, message, hmessage, by simp [hlast]⟩
    · cases hline

/-- The lines of the report, of which only the last one can be fatal. -/
lemma Plain.lines_eq (h : Plain file error) : 1 ≤ error.count ∧ error.lines.length = error.count ∧
    ∀ {i : Nat} {line : String}, error.lines[i]? = some line →
      ∃ loc text, OneLine text ∧ line = findingLine file loc (error.severity i) text := by
  cases h with
  | fatal oneLine findings =>
    exact ⟨Nat.le_add_left .., by simp [lines, count], line_of_stopped findings oneLine⟩
  | @notImplemented loc feature earlier oneLine findings =>
    have hfeature : OneLine ("not implemented: " ++ feature) :=
      .append (.ofList (by decide)) oneLine
    exact ⟨Nat.le_add_left .., by simp [lines, count], line_of_stopped findings hfeature⟩
  | halted nonempty findings =>
    exact ⟨List.length_pos_iff.mpr nonempty, List.length_map .., fun hline =>
      (line_of_finding findings hline).2⟩

lemma Plain.lined (h : Plain file error) (hfile : OneLine file) : error.Lined file := by
  obtain ⟨hpos, hlength, hlines⟩ := h.lines_eq
  have hone : ∀ line ∈ error.lines.map String.toList, '\n' ∉ line := by
    intro line hline
    obtain ⟨text, htext, rfl⟩ := List.mem_map.mp hline
    obtain ⟨i, hi⟩ := List.getElem?_of_mem htext
    obtain ⟨loc, message, hmessage, rfl⟩ := hlines hi
    exact (OneLine.findingLine hfile (error.severity_oneLine i) hmessage).notMem
  have hsplit : error.message.toList.splitOn '\n' = error.lines.map String.toList := by
    rw [message, String.toList_intercalate]
    refine List.splitOn_intercalate '\n' hone ?_
    rintro hnil
    simp [← hlength, List.map_eq_nil_iff.mp hnil] at hpos
  refine ⟨hpos, by rw [hsplit, List.length_map, hlength], ?_⟩
  intro i line hline
  rw [hsplit, List.getElem?_map, Option.map_eq_some_iff] at hline
  obtain ⟨text, htext, rfl⟩ := hline
  obtain ⟨loc, text', -, rfl⟩ := hlines htext
  exact ⟨loc, text', rfl⟩

end CompileError

lemma Fails.count_pos (h : Fails file source error) : 1 ≤ error.count := by
  cases h with
  | lexing | reading | checking | generating => exact Nat.le_add_left ..
  | parsing _ _ found | typeChecking _ _ found => exact List.length_pos_iff.mpr found

/-- What a failure tells is of one line. -/
lemma Fails.plain (h : Fails file source error) : error.Plain file := by
  have hcount := h.count_pos
  have hfindings : ∀ {cut : Cut} {findings : List Diagnostic},
      (∀ d ∈ findings, d.Told file cut) → ∀ d ∈ findings, d.file = file ∧ OneLine d.message :=
    fun htold d hd => ⟨(htold d hd).file, (htold d hd).oneLine⟩
  rcases h.told with ⟨_, _, -, rfl⟩ | ⟨cut, -, htold⟩
  · exact .fatal (.ofList (by decide)) (by simp)
  · cases htold with
    | fatal meets concerns findings =>
      exact .fatal (concerns.message_oneLine meets.oneLine) (hfindings findings)
    | notImplemented _ oneLine findings => exact .notImplemented oneLine (hfindings findings)
    | halted findings => exact .halted (List.length_pos_iff.mp hcount) (hfindings findings)

/-! ## The result -/

/-- For every text, and every name of a file without line breaks, compiling fails just if a phase
does, and with an error of the program.  The failure carries what was found since that phase began,
in the order in which it was found: nothing if the text is not cut into tokens or there is no code
for it, what was found up to then if reading or checking is given up, and all that was found if the
phase is halted at its end.  Reading is halted just if it comes to its end with findings; checking
is, just if reading came to its end without findings and checking does with some.  The report has a
line for each finding, at least one, and no other line; each tells file, place and severity first,
and only the last line is fatal, if a phase did not come to its end. -/
theorem failures_complete {file source : String} (hfile : '\n' ∉ file.toList) :
    (∀ {failure}, assemble file source = .error failure → ∃ error, failure = .error error ∧
      Fails file source error ∧ error.Lined file) ∧
    (∀ {error}, Fails file source error → assemble file source = .error (.error error)) ∧
    (∀ {diagnostics}, assemble file source = .error (.error (.halted .parsing diagnostics)) ↔
      ∃ tokens ws program ws', Lexes file source tokens ws ∧
        Reading.program tokens ws = .ok program ws' ∧ recorded ws ws' ≠ [] ∧
        diagnostics = recorded ws ws') ∧
    ∀ {diagnostics}, assemble file source = .error (.error (.halted .typeChecking diagnostics)) ↔
      ∃ program ws ws', Parses file source program ws ∧ Typing.check program ws = .ok () ws' ∧
        recorded ws ws' ≠ [] ∧ diagnostics = recorded ws ws' := by
  refine ⟨?fails, fun h => assemble_fails_iff.mpr h, ?parsing, ?typeChecking⟩
  case fails =>
    intro failure hfailure
    rcases assemble_total file source with ⟨text, htext⟩ | ⟨error, herror⟩
    · rw [htext] at hfailure
      cases hfailure
    · rw [herror] at hfailure
      cases hfailure
      have hfails := assemble_fails_iff.mp herror
      exact ⟨error, rfl, hfails, hfails.plain.lined ⟨hfile⟩⟩
  case parsing =>
    intro diagnostics
    rw [assemble_fails_iff]
    constructor
    · rintro (_ | _ | ⟨lexes, run, found⟩)
      exact ⟨_, _, _, _, lexes, run, found, rfl⟩
    · rintro ⟨tokens, ws, program, ws', lexes, run, found, rfl⟩
      exact .parsing lexes run found
  case typeChecking =>
    intro diagnostics
    rw [assemble_fails_iff]
    constructor
    · rintro (_ | _ | _ | _ | ⟨parses, run, found⟩)
      exact ⟨_, _, _, parses, run, found, rfl⟩
    · rintro ⟨program, ws, ws', parses, run, found, rfl⟩
      exact .typeChecking parses run found

/-- Whether compiling a text fails with an error that passes a test. -/
def failsAnd (file source : String) (test : CompileError → Bool) : Bool :=
  match assemble file source with
  | .error (.error error) => test error
  | _ => false

lemma error_of_failsAnd {test : CompileError → Bool} (h : failsAnd file source test = true) :
    ∃ error, assemble file source = .error (.error error) ∧ test error = true := by
  unfold failsAnd at h
  split at h
  · exact ⟨_, ‹_›, h⟩
  · cases h

/-- A text that breaks off after a mention of a variable that is not there. -/
theorem failures_complete_unfinished : ∃ error,
    assemble "notes" "(:= x 1) (let" = .error (.error error) ∧
    Fails "notes" "(:= x 1) (let" error ∧ error.Lined "notes" ∧
    error.lines = ["notes:1:5: error: 'x' is not declared",
      "notes:1:14: fatal: expected type, got EOF"] := by
  have hruns : failsAnd "notes" "(:= x 1) (let" (fun error =>
      error.lines = ["notes:1:5: error: 'x' is not declared",
        "notes:1:14: fatal: expected type, got EOF"]) = true := by
    decide +kernel
  have hfile : '\n' ∉ "notes".toList := by decide +kernel
  obtain ⟨error, herror, hlines⟩ := error_of_failsAnd hruns
  obtain ⟨error', hsame, hfails, hlined⟩ := (failures_complete hfile).1 herror
  cases hsame
  exact ⟨error, herror, hfails, hlined, of_decide_eq_true hlines⟩

end ParenC
