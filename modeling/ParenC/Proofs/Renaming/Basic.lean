/-
The same text with other names.

Two runs are compared: one on a text, and one on the text with its names replaced.  Their tables
differ in names.  Messages show names, so that findings agree only in what is left when they are
muted; what is noted in the log is not compared at all.  Of a broken promise nothing is asked,
because the first run breaks none.

An action `Renames` when both runs of it have such outcomes.  Some names have to be kept, those of
functions.  What is known of them is a property of the symbols of the first run, and every action
has to preserve it; which property it is depends on the phase.
-/
import ParenC.Proofs.Renaming.Tables

namespace ParenC

/-! ## Findings without their wording -/

/-- The finding without its message. -/
def Diagnostic.mute (diagnostic : Diagnostic) : Diagnostic := { diagnostic with message := "" }

/-- The failure without the messages of its findings: its kind, and where the findings are. -/
def CompileError.mute : CompileError → CompileError
  | fatal file loc _ earlier => fatal file loc "" (earlier.map Diagnostic.mute)
  | notImplemented file loc _ earlier => notImplemented file loc "" (earlier.map Diagnostic.mute)
  | halted phase diagnostics => halted phase (diagnostics.map Diagnostic.mute)

/-! ## Workspaces that differ in names -/

variable {f : String → String} {kept : SymbolTable → Prop}

/-- The second workspace is the first one with other names, and the symbols of the first one are as
they are known to be. -/
structure Workspace.Alike (f : String → String) (kept : SymbolTable → Prop)
    (ws ws' : Workspace) : Prop where
  /-- The tables differ in names. -/
  tables : ws'.toTables = ws.toTables.rename f
  /-- Some names are kept. -/
  symbols : kept ws.symbols
  /-- The file is the same. -/
  file : ws'.journal.file = ws.journal.file
  /-- The findings agree up to their wording. -/
  findings : ws'.journal.diagnostics.toList.map Diagnostic.mute =
    ws.journal.diagnostics.toList.map Diagnostic.mute

namespace Workspace.Alike

variable {ws ws' : Workspace}

lemma types_eq (h : ws.Alike f kept ws') : ws'.types = ws.types.rename f :=
  congrArg Tables.types h.tables

lemma symbols_eq (h : ws.Alike f kept ws') : ws'.symbols = ws.symbols.rename f :=
  congrArg Tables.symbols h.tables

lemma hasFindings (h : ws.Alike f kept ws') :
    ws'.journal.hasFindings = ws.journal.hasFindings := by
  have hlength := congrArg List.length h.findings
  simp only [List.length_map, Array.length_toList] at hlength
  simp [Journal.hasFindings, Array.isEmpty, hlength]

/-- Other types. -/
lemma with_types (h : ws.Alike f kept ws') {types types' : TypeTable}
    (htypes : types' = types.rename f) :
    { ws with types }.Alike f kept { ws' with types := types' } :=
  ⟨by simp [Tables.rename, htypes, h.symbols_eq], h.symbols, h.file, h.findings⟩

/-- Other symbols. -/
lemma with_symbols (h : ws.Alike f kept ws') {symbols symbols' : SymbolTable}
    (hsymbols : symbols' = symbols.rename f) (hkept : kept symbols) :
    { ws with symbols }.Alike f kept { ws' with symbols := symbols' } :=
  ⟨by simp [Tables.rename, hsymbols, h.types_eq], hkept, h.file, h.findings⟩

/-- Other events. -/
lemma with_events (h : ws.Alike f kept ws') {events events' : Array Event} :
    { ws with journal := { ws.journal with events } }.Alike f kept
      { ws' with journal := { ws'.journal with events := events' } } :=
  ⟨h.tables, h.symbols, h.file, h.findings⟩

/-- One more finding. -/
lemma report (h : ws.Alike f kept ws') {loc : Location} {message message' : String} :
    { ws with journal := ws.journal.report loc message }.Alike f kept
      { ws' with journal := ws'.journal.report loc message' } := by
  refine ⟨h.tables, h.symbols, h.file, ?_⟩
  simpa [Journal.report, Journal.log, Diagnostic.mute, h.file] using h.findings

/-- No findings any more. -/
lemma cleared (h : ws.Alike f kept ws') :
    { ws with journal := { ws.journal with diagnostics := #[] } }.Alike f kept
      { ws' with journal := { ws'.journal with diagnostics := #[] } } :=
  ⟨h.tables, h.symbols, h.file, rfl⟩

/-- What is known of the symbols may change. -/
lemma imp (h : ws.Alike f kept ws') {kept' : SymbolTable → Prop} (hkept : kept' ws.symbols) :
    ws.Alike f kept' ws' :=
  ⟨h.tables, hkept, h.file, h.findings⟩

end Workspace.Alike

/-! ## Actions on both -/

variable {α α' β β' : Type} {map : α → α'} {map' : β → β'}

/-- The second outcome is the first one with other names: what is returned is renamed, and failures
agree up to their wording.  If the first run breaks a promise, nothing is said of the second one. -/
inductive Renamed (f : String → String) (kept : SymbolTable → Prop) (map : α → α') :
    EStateM.Result Failure Workspace α → EStateM.Result Failure Workspace α' → Prop
  | ok {a : α} {ws ws' : Workspace} (h : ws.Alike f kept ws') :
      Renamed f kept map (.ok a ws) (.ok (map a) ws')
  | error {e e' : CompileError} {ws ws' : Workspace} (he : e'.mute = e.mute)
      (h : ws.Alike f kept ws') :
      Renamed f kept map (.error (.error e) ws) (.error (.error e') ws')
  | defect {d : Defect} {ws : Workspace} {outcome : EStateM.Result Failure Workspace α'} :
      Renamed f kept map (.error (.defect d) ws) outcome

lemma Renamed.ok_of_eq {a : α} {b : α'} {ws ws' : Workspace} (hb : b = map a)
    (h : ws.Alike f kept ws') : Renamed f kept map (.ok a ws) (.ok b ws') := by
  rw [hb]
  exact .ok h

namespace Renamed

variable {ws ws' : Workspace}

/-- What follows may rely on what the first run has done, and may keep other names than those that
were kept so far. -/
lemma bind_imp {kept' : SymbolTable → Prop} {act : CompileM α} {act' : CompileM α'}
    {next : α → CompileM β} {next' : α' → CompileM β'}
    (h : Renamed f kept map (act ws) (act' ws'))
    (hkept : ∀ symbols, kept symbols → kept' symbols)
    (hnext : ∀ a ws₁ ws₁', act ws = .ok a ws₁ → ws₁.Alike f kept ws₁' →
      Renamed f kept' map' (next a ws₁) (next' (map a) ws₁')) :
    Renamed f kept' map' ((act >>= next) ws) ((act' >>= next') ws') := by
  simp only [Bind.bind, EStateM.bind]
  generalize act ws = outcome at h hnext
  generalize act' ws' = outcome' at h
  cases h with
  | ok h => exact hnext _ _ _ rfl h
  | error he h => exact .error he (h.imp (hkept _ h.symbols))
  | defect => exact .defect

lemma bind {act : CompileM α} {act' : CompileM α'} {next : α → CompileM β}
    {next' : α' → CompileM β'} (h : Renamed f kept map (act ws) (act' ws'))
    (hnext : ∀ a ws₁ ws₁', act ws = .ok a ws₁ → ws₁.Alike f kept ws₁' →
      Renamed f kept map' (next a ws₁) (next' (map a) ws₁')) :
    Renamed f kept map' ((act >>= next) ws) ((act' >>= next') ws') :=
  h.bind_imp (fun _ => id) hnext

/-- Looking at the workspace. -/
lemma get {next : Workspace → CompileM β} {next' : Workspace → CompileM β'}
    (h : Renamed f kept map' (next ws ws) (next' ws' ws')) :
    Renamed f kept map' ((MonadState.get >>= next) ws) ((MonadState.get >>= next') ws') := h

/-- Less may be known of the symbols afterwards. -/
lemma imp {kept' : SymbolTable → Prop} {outcome : EStateM.Result Failure Workspace α}
    {outcome' : EStateM.Result Failure Workspace α'} (h : Renamed f kept map outcome outcome')
    (hkept : ∀ symbols, kept symbols → kept' symbols) : Renamed f kept' map outcome outcome' := by
  cases h with
  | ok h => exact .ok (h.imp (hkept _ h.symbols))
  | error he h => exact .error he (h.imp (hkept _ h.symbols))
  | defect => exact .defect

end Renamed

/-- On workspaces that differ in names, the second action has the outcome of the first one. -/
def Renames (f : String → String) (kept : SymbolTable → Prop) (map : α → α')
    (act : CompileM α) (act' : CompileM α') : Prop :=
  ∀ ws ws' : Workspace, ws.Alike f kept ws' → Renamed f kept map (act ws) (act' ws')

namespace Renames

lemma run {act : CompileM α} {act' : CompileM α'} (h : Renames f kept map act act')
    {ws ws' : Workspace} (halike : ws.Alike f kept ws') :
    Renamed f kept map (act ws) (act' ws') := h ws ws' halike

lemma pure {a : α} : Renames f kept map (Pure.pure a) (Pure.pure (map a)) :=
  fun _ _ h => .ok h

lemma bind {act : CompileM α} {act' : CompileM α'} {next : α → CompileM β}
    {next' : α' → CompileM β'} (h : Renames f kept map act act')
    (hnext : ∀ a, Renames f kept map' (next a) (next' (map a))) :
    Renames f kept map' (act >>= next) (act' >>= next') := by
  intro ws ws' halike
  exact (h ws ws' halike).bind fun a _ _ _ h => hnext a _ _ h

/-- Looking at the workspace. -/
lemma get {next : Workspace → CompileM β} {next' : Workspace → CompileM β'}
    (h : ∀ ws ws', ws.Alike f kept ws' → Renames f kept map' (next ws) (next' ws')) :
    Renames f kept map' (MonadState.get >>= next) (MonadState.get >>= next') :=
  fun ws ws' halike => h ws ws' halike ws ws' halike

lemma ite {c c' : Prop} [Decidable c] [Decidable c'] {act₁ act₂ : CompileM α}
    {act₁' act₂' : CompileM α'} (hc : c' ↔ c) (h₁ : Renames f kept map act₁ act₁')
    (h₂ : Renames f kept map act₂ act₂') :
    Renames f kept map (if c then act₁ else act₂) (if c' then act₁' else act₂') := by
  by_cases h : c
  · rw [if_pos h, if_pos (hc.mpr h)]
    exact h₁
  · rw [if_neg h, if_neg (mt hc.mp h)]
    exact h₂

/-- A broken promise of the first run. -/
lemma defect {d : Defect} {act' : CompileM α'} :
    Renames f kept map (throw (.defect d)) act' := fun _ _ _ => .defect

/-- A value that is there as long as the compiler keeps its promises. -/
lemma promised {x : Except Defect α} {x' : Except Defect α'} (h : AnswersAs map x x') :
    Renames f kept map (CompileM.promised x) (CompileM.promised x') := by
  cases x with
  | ok a =>
    rw [h a rfl]
    exact .pure
  | error d => exact .defect

/-- What follows may rely on what the promised value is. -/
lemma promised_bind {x : Except Defect α} {x' : Except Defect α'} {next : α → CompileM β}
    {next' : α' → CompileM β'} (h : AnswersAs map x x')
    (hnext : ∀ a, x = .ok a → Renames f kept map' (next a) (next' (map a))) :
    Renames f kept map' (CompileM.promised x >>= next) (CompileM.promised x' >>= next') := by
  cases x with
  | ok a =>
    rw [h a rfl]
    exact hnext a rfl
  | error d => exact fun _ _ _ => .defect

/-- A promised value that only goes into a message. -/
lemma answered_bind {x : Except Defect α} {x' : Except Defect α'} {next : α → CompileM β}
    {next' : α' → CompileM β'} (h : Answers x x')
    (hnext : ∀ a a', Renames f kept map' (next a) (next' a')) :
    Renames f kept map' (CompileM.promised x >>= next) (CompileM.promised x' >>= next') := by
  cases x with
  | ok a =>
    obtain ⟨a', rfl⟩ := h a rfl
    exact hnext a a'
  | error d => exact fun _ _ _ => .defect

lemma modify {change change' : Workspace → Workspace}
    (h : ∀ ws ws', ws.Alike f kept ws' → (change ws).Alike f kept (change' ws')) :
    Renames f kept id (MonadState.modifyGet fun ws => (PUnit.unit, change ws) : CompileM PUnit)
      (MonadState.modifyGet fun ws => (PUnit.unit, change' ws)) :=
  fun ws ws' halike => .ok (h ws ws' halike)

lemma set {ws ws' : Workspace} (h : ws.Alike f kept ws') :
    Renames f kept id (MonadStateOf.set ws : CompileM PUnit) (MonadStateOf.set ws') :=
  fun _ _ _ => .ok h

/-- The log is not compared. -/
lemma log {event event' : Event} :
    Renames f kept id (CompileM.log event) (CompileM.log event') :=
  modify fun _ _ h => h.with_events

lemma report {loc : Location} {message message' : String} :
    Renames f kept id (CompileM.report loc message) (CompileM.report loc message') :=
  modify fun _ _ h => h.report

lemma refuse {loc : Location} {refusal refusal' : Refusal} :
    Renames f kept map (CompileM.refuse loc refusal) (CompileM.refuse loc refusal') := by
  refine get fun ws ws' h => fun _ _ halike => .error ?_ halike
  simp [Journal.fatal, CompileError.mute, h.file, h.findings]

/-- What would follow a fatal finding is of no account. -/
lemma refuse_bind {loc : Location} {refusal refusal' : Refusal} {next : α → CompileM β}
    {next' : α' → CompileM β'} : Renames f kept map' (CompileM.refuse loc refusal >>= next)
      (CompileM.refuse loc refusal' >>= next') := by
  intro ws ws' h
  refine .error ?_ h
  simp [Journal.fatal, CompileError.mute, h.file, h.findings]

lemma notImplemented {loc : Location} {feature feature' : String} :
    Renames f kept map (CompileM.notImplemented loc feature)
      (CompileM.notImplemented loc feature') := by
  refine get fun ws ws' h => fun _ _ halike => .error ?_ halike
  simp [Journal.notImplemented, CompileError.mute, h.file, h.findings]

/-- A phase ends with as many findings, at the same places. -/
lemma endPhase {phase : Phase} :
    Renames f kept id (CompileM.endPhase phase) (CompileM.endPhase phase) := by
  intro ws ws' h
  rw [CompileM.endPhase_run, CompileM.endPhase_run, h.hasFindings]
  split
  · exact .error (by simp only [CompileError.mute, h.findings]) h.cleared
  · exact .ok_of_eq rfl h.with_events

end Renames

end ParenC
