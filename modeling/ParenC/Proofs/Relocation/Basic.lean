/-
The same text, laid out differently.

Line breaks, blanks and comments decide where the tokens of a text stand, and nothing else.  So two
layouts of a text differ by a map of places.  `relocate` applies such a map to everything that knows
its place, and an action `Moves` with it if moving what it works on moves what comes out of it.  The
map is arbitrary: an action that moves with every map can neither look at a place nor make one up.
-/
import ParenC.Datum
import ParenC.Proofs.Workspace
import ParenC.Tree

namespace ParenC

/-! ## Moving things -/

/-- The token at another place. -/
def Token.relocate (g : Location → Location) (token : Token) : Token :=
  { token with location := g token.location }

lemma Token.relocate_kind (g : Location → Location) (token : Token) :
    (token.relocate g).kind = token.kind := rfl

lemma Token.relocate_text (g : Location → Location) (token : Token) :
    (token.relocate g).text = token.text := rfl

namespace Datum

mutual

/-- The datum with its tokens at other places. -/
def relocate (g : Location → Location) (datum : Datum) : Datum :=
  match datum with
  | atom token => atom (token.relocate g)
  | list opening items closing =>
    list (opening.relocate g) (relocateAll g items) (closing.relocate g)
termination_by structural datum

/-- Several data with their tokens at other places. -/
def relocateAll (g : Location → Location) (items : List Datum) : List Datum :=
  match items with
  | [] => []
  | datum :: rest => datum.relocate g :: relocateAll g rest
termination_by structural items

end

end Datum

namespace Node

mutual

/-- The construct at another place. -/
def relocate (g : Location → Location) (node : Node) : Node :=
  match node with
  | integer loc value => integer (g loc) value
  | boolean loc value => boolean (g loc) value
  | binary loc op lhs rhs => binary (g loc) op (lhs.relocate g) (rhs.relocate g)
  | block loc body => block (g loc) (relocateAll g body)
  | varDecl loc symbol? => varDecl (g loc) symbol?
  | varRef loc symbol? => varRef (g loc) symbol?
  | externDecl loc symbol? => externDecl (g loc) symbol?
  | functionDef loc symbol? params body => functionDef (g loc) symbol? params (relocateAll g body)
  | call loc callee? args => call (g loc) callee? (relocateAll g args)
  | ifThen loc cond body => ifThen (g loc) (cond.relocate g) (relocateAll g body)
  | ifElse loc cond thenBody elseBody =>
    ifElse (g loc) (cond.relocate g) (relocateAll g thenBody) (relocateAll g elseBody)
  | whileLoop loc cond body => whileLoop (g loc) (cond.relocate g) (relocateAll g body)
  | forLoop loc init cond step body =>
    forLoop (g loc) (init.relocate g) (cond.relocate g) (step.relocate g) (relocateAll g body)
  | cast loc target operand => cast (g loc) target (operand.relocate g)
  | returnVoid loc function => returnVoid (g loc) function
  | returnValue loc value function => returnValue (g loc) (value.relocate g) function
  | typedefDecl loc symbol? => typedefDecl (g loc) symbol?
  | empty loc => empty (g loc)
termination_by structural node

/-- Several constructs at other places. -/
def relocateAll (g : Location → Location) (nodes : List Node) : List Node :=
  match nodes with
  | [] => []
  | node :: rest => node.relocate g :: relocateAll g rest
termination_by structural nodes

end

lemma relocateAll_eq_map (g : Location → Location) (nodes : List Node) :
    relocateAll g nodes = nodes.map (relocate g) := by
  induction nodes with
  | nil => rfl
  | cons node rest ih => rw [relocateAll, ih, List.map_cons]

lemma location_relocate (g : Location → Location) (node : Node) :
    (node.relocate g).location = g node.location := by
  cases node <;> rfl

lemma isStatement_relocate (g : Location → Location) (node : Node) :
    (node.relocate g).isStatement = node.isStatement := by
  cases node <;> rfl

end Node

/-- The program with its constructs at other places. -/
def Program.relocate (g : Location → Location) (program : Program) : Program :=
  ⟨Node.relocateAll g program.items⟩

/-- The finding about another place. -/
def Diagnostic.relocate (g : Location → Location) (diagnostic : Diagnostic) : Diagnostic :=
  { diagnostic with location := g diagnostic.location }

/-- The failure with its findings about other places. -/
def CompileError.relocate (g : Location → Location) : CompileError → CompileError
  | fatal file loc message earlier =>
    fatal file (g loc) message (earlier.map (Diagnostic.relocate g))
  | notImplemented file loc feature earlier =>
    notImplemented file (g loc) feature (earlier.map (Diagnostic.relocate g))
  | halted phase diagnostics => halted phase (diagnostics.map (Diagnostic.relocate g))

/-- The event with other places. -/
def Event.relocate (g : Location → Location) : Event → Event
  | token t => token (t.relocate g)
  | diagnosed loc message => diagnosed (g loc) message
  | event => event

/-- The record with other places. -/
def Journal.relocate (g : Location → Location) (journal : Journal) : Journal where
  file := journal.file
  diagnostics := journal.diagnostics.map (Diagnostic.relocate g)
  events := journal.events.map (Event.relocate g)

/-- The workspace with other places.  There are none in the tables. -/
def Workspace.relocate (g : Location → Location) (ws : Workspace) : Workspace :=
  { ws with journal := ws.journal.relocate g }

lemma Workspace.relocate_toTables (g : Location → Location) (ws : Workspace) :
    (ws.relocate g).toTables = ws.toTables := rfl

/-! ## Actions that move -/

variable {g : Location → Location} {α α' β β' : Type} {move : α → α'} {move' : β → β'}

/-- The second outcome is the first one at other places.  Of a broken promise it is only known that
it is one. -/
inductive Moved (g : Location → Location) (move : α → α') :
    EStateM.Result Failure Workspace α → EStateM.Result Failure Workspace α' → Prop
  | ok {a : α} {ws : Workspace} : Moved g move (.ok a ws) (.ok (move a) (ws.relocate g))
  | error {e : CompileError} {ws : Workspace} :
      Moved g move (.error (.error e) ws) (.error (.error (e.relocate g)) (ws.relocate g))
  | defect {d d' : Defect} {ws ws' : Workspace} :
      Moved g move (.error (.defect d) ws) (.error (.defect d') ws')

lemma Moved.ok_of_eq {a : α} {b : α'} {ws ws' : Workspace} (ha : b = move a)
    (hws : ws' = ws.relocate g) : Moved g move (.ok a ws) (.ok b ws') := by
  rw [ha, hws]
  exact .ok

lemma Moved.error_of_eq {e e' : CompileError} {ws ws' : Workspace} (he : e' = e.relocate g)
    (hws : ws' = ws.relocate g) : Moved g move (.error (.error e) ws) (.error (.error e') ws') := by
  rw [he, hws]
  exact .error

lemma Moved.eq_ok {a : α} {ws : Workspace} {outcome : EStateM.Result Failure Workspace α'}
    (h : Moved g move (.ok a ws) outcome) : outcome = .ok (move a) (ws.relocate g) := by
  cases h
  rfl

lemma Moved.eq_error {e : CompileError} {ws : Workspace}
    {outcome : EStateM.Result Failure Workspace α'}
    (h : Moved g move (.error (.error e) ws) outcome) :
    outcome = .error (.error (e.relocate g)) (ws.relocate g) := by
  cases h
  rfl

lemma Moved.exists_defect {d : Defect} {ws : Workspace}
    {outcome : EStateM.Result Failure Workspace α'}
    (h : Moved g move (.error (.defect d) ws) outcome) :
    ∃ d' ws', outcome = .error (.defect d') ws' := by
  cases h
  exact ⟨_, _, rfl⟩

/-- On every workspace, the second action has the outcome of the first one at other places. -/
def Moves (g : Location → Location) (move : α → α') (act : CompileM α) (act' : CompileM α') : Prop :=
  ∀ ws : Workspace, Moved g move (act ws) (act' (ws.relocate g))

namespace Moves

open CompileM

lemma pure {a : α} : Moves g move (Pure.pure a) (Pure.pure (move a)) := fun _ => .ok

lemma bind {act : CompileM α} {act' : CompileM α'} {next : α → CompileM β}
    {next' : α' → CompileM β'} (h : Moves g move act act')
    (hnext : ∀ a, Moves g move' (next a) (next' (move a))) :
    Moves g move' (act >>= next) (act' >>= next') := by
  intro ws
  have hact := h ws
  simp only [Bind.bind, EStateM.bind]
  generalize act ws = outcome at hact
  generalize act' (ws.relocate g) = outcome' at hact
  cases hact with
  | ok => exact hnext _ _
  | error => exact .error
  | defect => exact .defect

/-- Looking at the workspace. -/
lemma get {next : Workspace → CompileM β} {next' : Workspace → CompileM β'}
    (h : ∀ ws, Moves g move' (next ws) (next' (ws.relocate g))) :
    Moves g move' (MonadState.get >>= next) (MonadState.get >>= next') := fun ws => h ws ws

lemma ite {c c' : Prop} [Decidable c] [Decidable c'] {act₁ act₂ : CompileM α}
    {act₁' act₂' : CompileM α'} (hc : c' ↔ c) (h₁ : Moves g move act₁ act₁')
    (h₂ : Moves g move act₂ act₂') :
    Moves g move (if c then act₁ else act₂) (if c' then act₁' else act₂') := by
  by_cases h : c
  · rw [if_pos h, if_pos (hc.mpr h)]
    exact h₁
  · rw [if_neg h, if_neg (mt hc.mp h)]
    exact h₂

/-- A value that is there as long as the compiler keeps its promises. -/
lemma promised {x : Except Defect α} {x' : Except Defect α'}
    (h : ∀ a, x = .ok a → x' = .ok (move a)) (hdefect : ∀ d, x = .error d → ∃ d', x' = .error d') :
    Moves g move (CompileM.promised x) (CompileM.promised x') := by
  intro ws
  cases x with
  | ok a =>
    rw [h a rfl]
    exact .ok
  | error d =>
    obtain ⟨d', hd'⟩ := hdefect d rfl
    rw [hd']
    exact .defect

/-- A promised value that has no place. -/
lemma promised_same {x : Except Defect α} :
    Moves g id (CompileM.promised x) (CompileM.promised x) :=
  promised (fun _ hx => hx) (fun d hx => ⟨d, hx⟩)

lemma modify {change change' : Workspace → Workspace}
    (h : ∀ ws, change' (ws.relocate g) = (change ws).relocate g) :
    Moves g id (MonadState.modifyGet fun ws => (PUnit.unit, change ws) : CompileM PUnit)
      (MonadState.modifyGet fun ws => (PUnit.unit, change' ws)) :=
  fun ws => .ok_of_eq rfl (h ws)

lemma set {ws ws' : Workspace} (h : ws' = ws.relocate g) :
    Moves g id (MonadStateOf.set ws : CompileM PUnit) (MonadStateOf.set ws') :=
  fun _ => .ok_of_eq rfl h

lemma log {event : Event} : Moves g id (CompileM.log event) (CompileM.log (event.relocate g)) := by
  refine modify fun ws => ?_
  simp [Workspace.relocate, Journal.relocate, Journal.log]

lemma report {loc : Location} {message : String} :
    Moves g id (CompileM.report loc message) (CompileM.report (g loc) message) := by
  refine modify fun ws => ?_
  simp [Workspace.relocate, Journal.relocate, Journal.report, Journal.log, Event.relocate,
    Diagnostic.relocate]

/-- A failure that the program is to blame for. -/
lemma fail {e : CompileError} :
    Moves g move (throw (.error e)) (throw (.error (e.relocate g))) := fun _ => .error

lemma refuse {loc : Location} {refusal refusal' : Refusal}
    (h : refusal'.message = refusal.message) :
    Moves g move (CompileM.refuse loc refusal) (CompileM.refuse (g loc) refusal') := by
  refine get fun ws => ?_
  have hfatal : (ws.relocate g).journal.fatal (g loc) refusal'.message =
      (ws.journal.fatal loc refusal.message).relocate g := by
    simp [Workspace.relocate, Journal.relocate, Journal.fatal, CompileError.relocate, h]
  rw [hfatal]
  exact fail

lemma notImplemented {loc : Location} {feature : String} :
    Moves g move (CompileM.notImplemented loc feature)
      (CompileM.notImplemented (g loc) feature) := by
  refine get fun ws => ?_
  have herror : (ws.relocate g).journal.notImplemented (g loc) feature =
      (ws.journal.notImplemented loc feature).relocate g := by
    simp [Workspace.relocate, Journal.relocate, Journal.notImplemented, CompileError.relocate]
  rw [herror]
  exact fail

/-- A phase ends with the same findings, at other places. -/
lemma endPhase {phase : Phase} : Moves g id (CompileM.endPhase phase) (CompileM.endPhase phase) := by
  intro ws
  have hfindings : (ws.relocate g).journal.hasFindings = ws.journal.hasFindings := by
    simp [Workspace.relocate, Journal.relocate, Journal.hasFindings, Array.isEmpty]
  rw [CompileM.endPhase_run, CompileM.endPhase_run, hfindings]
  split
  · refine .error_of_eq ?_ ?_ <;> simp [CompileError.relocate, Workspace.relocate, Journal.relocate]
  · refine .ok_of_eq rfl ?_
    simp [Workspace.relocate, Journal.relocate, Journal.log, Event.relocate]

end Moves

end ParenC
