/-
What a phase reports.

A phase works on a text that was cut into tokens.  Whatever it records names the file, stands at
a token, and is of one line; and the findings that wait for the end of the phase are those that the
log tells of since the phase started, in the same order, so none is lost and none is shown twice.
Where the phase stops short of its end, the failure is about a token as well.

`Reports` is the judgement for all of this.  The workspace it starts from is not fixed: an action
reports well from every workspace that is in order, so that the rules need not speak of the
workspaces in between.
-/
import ParenC.Proofs.Findings.Line
import ParenC.Proofs.Reading.Basic

namespace ParenC

/-! ## Findings of a phase -/

/-- The finding that an event tells of. -/
def Event.finding? (file : String) : Event → Option Diagnostic
  | diagnosed loc message => some ⟨file, loc, message⟩
  | _ => none

/-- The findings that were recorded between two states of the workspace, the oldest first. -/
def Workspace.recorded (before after : Workspace) : List Diagnostic :=
  (after.journal.events.toList.drop before.journal.events.size).filterMap
    (Event.finding? before.journal.file)

/-- The tokens that a text was cut into. -/
structure Cut where
  /-- The tokens before the end of the text. -/
  tokens : List Token
  /-- The place of the end marker. -/
  finish : Location
  /-- No token goes over the end of a line. -/
  oneLine : ∀ token ∈ tokens, OneLine token.text

namespace Cut

/-- The places where tokens start. -/
def places (cut : Cut) : List Location := cut.tokens.map Token.location

/-- The token is one of the text, or its end. -/
def Meets (cut : Cut) (token : Token) : Prop :=
  token ∈ cut.tokens ∨ token = Token.eof cut.finish

/-- Reading stopped at a token that the failure is about. -/
def Refuses (cut : Cut) (journal : Journal) (error : CompileError) : Prop :=
  ∃ (got : Token) (refusal : Refusal), cut.Meets got ∧ refusal.Concerns got ∧
    error = journal.fatal got.location refusal.message

/-- Something at a token is not supported. -/
def Lacks (cut : Cut) (journal : Journal) (error : CompileError) : Prop :=
  ∃ loc feature, loc ∈ cut.places ∧ OneLine feature ∧ error = journal.notImplemented loc feature

lemma mem_places {cut : Cut} {token : Token} (h : token ∈ cut.tokens) :
    token.location ∈ cut.places := List.mem_map_of_mem h

lemma Meets.oneLine {cut : Cut} {token : Token} (h : cut.Meets token) : OneLine token.text := by
  rcases h with h | rfl
  · exact cut.oneLine token h
  · exact .ofList (by decide)

end Cut

/-- What holds of the workspace while a phase that started from `start` works on the text. -/
structure Workspace.Tidy (cut : Cut) (start ws : Workspace) : Prop where
  /-- The file stays. -/
  file : ws.journal.file = start.journal.file
  /-- The findings that wait are those that the log tells of since the start. -/
  findings : ∃ later, ws.journal.events.toList = start.journal.events.toList ++ later ∧
    ws.journal.diagnostics.toList = later.filterMap (Event.finding? start.journal.file)
  /-- They are of one line, and about tokens. -/
  diagnostics : ∀ d ∈ ws.journal.diagnostics, OneLine d.message ∧ d.location ∈ cut.places
  /-- Names are of one line. -/
  plain : ws.toTables.Plain

namespace Workspace.Tidy

variable {cut : Cut} {start ws : Workspace}

/-- Nothing is lost on the way to the end of the phase. -/
lemma recorded (h : Tidy cut start ws) :
    ws.journal.diagnostics.toList = Workspace.recorded start ws := by
  obtain ⟨later, hevents, hlater⟩ := h.findings
  rw [hlater, Workspace.recorded, hevents, ← Array.length_toList, List.drop_left]

lemma mem_recorded {d : Diagnostic} (h : d ∈ Workspace.recorded start ws) :
    d.file = start.journal.file := by
  obtain ⟨event, -, hevent⟩ := List.mem_filterMap.mp h
  cases event <;> simp only [Event.finding?, Option.some.injEq, reduceCtorEq] at hevent
  rw [← hevent]

/-- A phase starts without findings. -/
lemma of_quiet (hquiet : ws.Quiet) (hplain : ws.toTables.Plain) : Tidy cut ws ws where
  file := rfl
  findings := ⟨[], by simp, by simp [show ws.journal.diagnostics = #[] from hquiet]⟩
  diagnostics := by simp [show ws.journal.diagnostics = #[] from hquiet]
  plain := hplain

lemma with_tables {tables : Tables} (h : Tidy cut start ws) (hplain : tables.Plain) :
    Tidy cut start { ws with toTables := tables } :=
  ⟨h.file, h.findings, h.diagnostics, hplain⟩

lemma log (h : Tidy cut start ws) {event : Event}
    (hevent : event.finding? start.journal.file = none) :
    Tidy cut start { ws with journal := ws.journal.log event } := by
  obtain ⟨later, hevents, hlater⟩ := h.findings
  refine ⟨h.file, ⟨later ++ [event], ?_, ?_⟩, h.diagnostics, h.plain⟩
  · simp [Journal.log, hevents]
  · simpa [Journal.log, hevent] using hlater

lemma report (h : Tidy cut start ws) {loc : Location} {message : String}
    (hmessage : OneLine message) (hloc : loc ∈ cut.places) :
    Tidy cut start { ws with journal := ws.journal.report loc message } := by
  obtain ⟨later, hevents, hlater⟩ := h.findings
  refine ⟨h.file, ⟨later ++ [.diagnosed loc message], ?_, ?_⟩, ?_, h.plain⟩
  · simp [Journal.report, Journal.log, hevents]
  · simp [Journal.report, Journal.log, hlater, Event.finding?, h.file]
  · intro d hd
    rcases Array.mem_push.mp hd with hd | rfl
    · exact h.diagnostics d hd
    · exact ⟨hmessage, hloc⟩

end Workspace.Tidy

/-! ## The judgement -/

/-- From every workspace that is in order, the action leads to one that is; `post` holds of its
result, and `stops` of the failure if there is one. -/
def Reports {α : Type} (cut : Cut) (start : Workspace) (stops : Journal → CompileError → Prop)
    (act : CompileM α) (post : α → Prop) : Prop :=
  ∀ ws, Workspace.Tidy cut start ws → match act ws with
    | .ok a ws' => Workspace.Tidy cut start ws' ∧ post a
    | .error (.error e) ws' => Workspace.Tidy cut start ws' ∧ stops ws'.journal e
    | .error (.defect _) _ => True

namespace Reports

variable {α β : Type} {cut : Cut} {start : Workspace} {stops : Journal → CompileError → Prop}
  {act : CompileM α} {next : α → CompileM β} {post : α → Prop} {post₂ : β → Prop}

open Workspace

lemma pure {a : α} (h : post a) : Reports cut start stops (Pure.pure a) post :=
  fun _ htidy => ⟨htidy, h⟩

lemma bind (h : Reports cut start stops act post)
    (hnext : ∀ a, post a → Reports cut start stops (next a) post₂) :
    Reports cut start stops (act >>= next) post₂ := by
  intro ws htidy
  have hact := h ws htidy
  simp only [Bind.bind, EStateM.bind]
  generalize act ws = outcome at hact
  rcases outcome with ⟨a, ws₁⟩ | ⟨failure | defect, ws₁⟩
  · exact hnext a hact.2 ws₁ hact.1
  · exact hact
  · trivial

/-- Looking at the workspace. -/
lemma get {next : Workspace → CompileM β}
    (h : ∀ ws, Tidy cut start ws → Reports cut start stops (next ws) post₂) :
    Reports cut start stops (MonadState.get >>= next) post₂ := fun ws htidy => h ws htidy ws htidy

lemma ite {c : Prop} [Decidable c] {act' : CompileM α} (h : Reports cut start stops act post)
    (h' : Reports cut start stops act' post) :
    Reports cut start stops (if c then act else act') post := by
  split
  · exact h
  · exact h'

/-- A value that is there as long as the compiler keeps its promises. -/
lemma promised {x : Except Defect α} (h : Ends x post fun _ => True) :
    Reports cut start stops (CompileM.promised x) post := by
  intro ws htidy
  cases x with
  | ok a => exact ⟨htidy, h⟩
  | error defect => trivial

lemma promised_any {x : Except Defect α} :
    Reports cut start stops (CompileM.promised x) fun _ => True :=
  promised (.any fun _ => trivial)

lemma defect {defect : Defect} : Reports cut start stops (throw (.defect defect)) post :=
  fun _ _ => trivial

lemma modify {change : Workspace → Workspace}
    (h : ∀ ws, Tidy cut start ws → Tidy cut start (change ws)) :
    Reports cut start stops (MonadState.modifyGet fun ws => (PUnit.unit, change ws) :
      CompileM PUnit) fun _ => True := fun ws htidy => ⟨h ws htidy, trivial⟩

lemma set {ws : Workspace} (h : Tidy cut start ws) :
    Reports cut start stops (MonadStateOf.set ws : CompileM PUnit) fun _ => True :=
  fun _ _ => ⟨h, trivial⟩

lemma log {event : Event} (h : ∀ file, event.finding? file = none) :
    Reports cut start stops (CompileM.log event) fun _ => True :=
  modify fun _ htidy => htidy.log (h _)

lemma report {loc : Location} {message : String} (hmessage : OneLine message)
    (hloc : loc ∈ cut.places) :
    Reports cut start stops (CompileM.report loc message) fun _ => True :=
  modify fun _ htidy => htidy.report hmessage hloc

lemma refuse {got : Token} {refusal : Refusal} (hgot : cut.Meets got)
    (hconcerns : refusal.Concerns got) :
    Reports cut start cut.Refuses (CompileM.refuse got.location refusal) post :=
  fun _ htidy => ⟨htidy, got, refusal, hgot, hconcerns, rfl⟩

lemma notImplemented {loc : Location} {feature : String} (hloc : loc ∈ cut.places)
    (hfeature : OneLine feature) :
    Reports cut start cut.Lacks (CompileM.notImplemented loc feature) post :=
  fun _ htidy => ⟨htidy, loc, feature, hloc, hfeature, rfl⟩

end Reports

end ParenC
