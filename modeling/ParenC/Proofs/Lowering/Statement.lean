/-
The code of statements, as a relation.

The lines of a statement fall into chunks: stretches without labels or jumps, each for one action
of the statement, and the labels, jumps and epilogues between them.  `Lays` says which chunks
there are, with one constructor for each kind of statement, and `statement_lays` that the lines
are made of them.
-/
import ParenC.Proofs.Lowering.Value

namespace ParenC.Lowering

/-! ## Chunks -/

/-- What a stretch of code without jumps is for. -/
inductive Action
  /-- Compute an expression for its effects. -/
  | effect (node : Node)
  /-- Assign to a variable. -/
  | assign (lhs rhs : Node)
  /-- Find out whether a condition holds. -/
  | test (cond : Node)
  /-- Compute the result of the function. -/
  | result (node : Node)

namespace Action

/-- The expression whose value is computed first. -/
def value : Action → Node
  | effect node | result node => node
  | assign _ rhs => rhs
  | test cond => cond

/-- The generator at work. -/
def emit (tables : Tables) : Action → Emitting (Counted Instr)
  | effect node | result node => Counted.evaluate tables node
  | assign lhs rhs => Counted.assign tables lhs rhs
  | test cond => Counted.test tables cond

end Action

/-- A part of the code of statements. -/
inductive Chunk
  /-- Instructions for an action. -/
  | action (action : Action) (code : Counted Instr)
  /-- Go on at a label. -/
  | jump (label : Nat)
  /-- Go on at a label if the condition that was tested last does not hold. -/
  | branch (label : Nat)
  /-- A place to jump to. -/
  | label (label : Nat)
  /-- Make zero the result. -/
  | zero
  /-- Leave the function. -/
  | leave

namespace Chunk

/-- The lines of a chunk; no values are on the stack between actions. -/
def lines : Chunk → Counted Line
  | action _ code => Counted.plain code
  | jump target => [(0, .jmp target)]
  | branch target => [(0, .je target)]
  | label name => [(0, .label name)]
  | zero => [(0, .instr (.movq (.imm 0) (.reg .rax)))]
  | leave => Counted.level 0 epilogue

end Chunk

/-- The lines of chunks. -/
def chunkLines (chunks : List Chunk) : Counted Line := chunks.flatMap Chunk.lines

@[simp] lemma chunkLines_nil : chunkLines [] = [] := rfl

@[simp] lemma chunkLines_cons (chunk : Chunk) (chunks : List Chunk) :
    chunkLines (chunk :: chunks) = chunk.lines ++ chunkLines chunks := List.flatMap_cons

@[simp] lemma chunkLines_append (xs ys : List Chunk) :
    chunkLines (xs ++ ys) = chunkLines xs ++ chunkLines ys := List.flatMap_append

/-! ## The relation -/

/-- What code is laid out for. -/
inductive Work
  /-- One statement. -/
  | statement (node : Node)
  /-- Statements, one after the other. -/
  | statements (nodes : List Node)

/-- Whether a statement is an expression that is computed for its effects. -/
def isEffect : Node → Bool
  | .binary _ .assign _ _ | .varDecl .. => false
  | node => node.isExpression

/-- Whether there is no code for a statement. -/
def isSilent : Node → Bool
  | .externDecl .. | .varDecl .. | .typedefDecl .. | .empty _ => true
  | _ => false

/-- The code of the action was emitted with no values on the stack before and after it. -/
def Emitted (tables : Tables) (action : Action) (code : Counted Instr) : Prop :=
  action.emit tables 0 = .ok (code, 0)

/-- The chunks of statements that take their labels from `next` on. -/
inductive Lays (tables : Tables) : Work → (next : Nat) → List Chunk → (stop : Nat) → Prop
  | block {loc body next chunks stop} (inner : Lays tables (.statements body) next chunks stop) :
      Lays tables (.statement (.block loc body)) next chunks stop
  | assign {loc lhs rhs next code} (emitted : Emitted tables (.assign lhs rhs) code) :
      Lays tables (.statement (.binary loc .assign lhs rhs)) next
        [.action (.assign lhs rhs) code] next
  | effect {node next code} (isEffect : isEffect node = true)
      (emitted : Emitted tables (.effect node) code) :
      Lays tables (.statement node) next [.action (.effect node) code] next
  | ifThen {loc cond body next code chunks stop} (emitted : Emitted tables (.test cond) code)
      (inner : Lays tables (.statements body) (next + 1) chunks stop) :
      Lays tables (.statement (.ifThen loc cond body)) next
        (.action (.test cond) code :: .branch next :: chunks ++ [.label next]) stop
  | ifElse {loc cond thenBody elseBody next code first second middle stop}
      (emitted : Emitted tables (.test cond) code)
      (onTrue : Lays tables (.statements thenBody) (next + 1) first middle)
      (onFalse : Lays tables (.statements elseBody) (middle + 1) second stop) :
      Lays tables (.statement (.ifElse loc cond thenBody elseBody)) next
        (.action (.test cond) code :: .branch next :: first ++ .jump middle :: .label next ::
          second ++ [.label middle]) stop
  | whileLoop {loc cond body next code chunks stop} (emitted : Emitted tables (.test cond) code)
      (inner : Lays tables (.statements body) (next + 2) chunks stop) :
      Lays tables (.statement (.whileLoop loc cond body)) next
        (.label next :: .action (.test cond) code :: .branch (next + 1) :: chunks ++
          [.jump next, .label (next + 1)]) stop
  | forLoop {loc init cond step body next code start chunks last first second stop}
      (before : Lays tables (.statement init) (next + 2) start first)
      (emitted : Emitted tables (.test cond) code)
      (inner : Lays tables (.statements body) first chunks second)
      (after : Lays tables (.statement step) second last stop) :
      Lays tables (.statement (.forLoop loc init cond step body)) next
        (start ++ .label next :: .action (.test cond) code :: .branch (next + 1) ::
          (chunks ++ last) ++ [.jump next, .label (next + 1)]) stop
  | returnVoid {loc function next} :
      Lays tables (.statement (.returnVoid loc function)) next [.leave] next
  | returnResult {loc value function next code} (isExpression : value.isExpression = true)
      (emitted : Emitted tables (.result value) code) :
      Lays tables (.statement (.returnValue loc value function)) next
        [.action (.result value) code, .leave] next
  | returnStatement {loc value function next chunks stop}
      (isStatement : value.isExpression = false)
      (inner : Lays tables (.statement value) next chunks stop) :
      Lays tables (.statement (.returnValue loc value function)) next (chunks ++ [.leave]) stop
  | silent {node next} (isSilent : isSilent node = true) :
      Lays tables (.statement node) next [] next
  | nil {next} : Lays tables (.statements []) next [] next
  | cons {node rest next first others middle stop}
      (head : Lays tables (.statement node) next first middle)
      (tail : Lays tables (.statements rest) middle others stop) :
      Lays tables (.statements (node :: rest)) next (first ++ others) stop

variable {tables : Tables}

/-! ## The code of actions -/

namespace Counted

/-- What is emitted to compute a value and leave it in `%rax`. -/
lemma evaluate_lowers {node : Node} {code : Counted Instr} {depth : Nat}
    (h : evaluate tables node 0 = .ok (code, depth)) :
    depth = 0 ∧ ∃ inner, Lowers tables (.value node) 0 inner ∧
      code = inner ++ [(1, .popq .rax)] := by
  obtain ⟨inner, hinner, h⟩ := bind_of_spec (value_lowers node) h
  rw [bind_of_run (pop_eq .rax 0)] at h
  obtain ⟨rfl, rfl⟩ := pure_eq_ok.mp h
  exact ⟨rfl, inner, hinner, rfl⟩

end Counted

/-- The instructions of an action after its value is in `%rax`. -/
def Action.Finishes (tables : Tables) : Action → List Instr → Prop
  | effect _, tail | result _, tail => tail = []
  | assign lhs _, tail => ∃ place, storage tables lhs = .ok place ∧ tail = [place.store .rax]
  | test _, tail => tail = [.cmpq (.imm 0) .rax]

/-- What is emitted for an action. -/
theorem Action.emit_lowers {action : Action} {code : Counted Instr} {depth : Nat}
    (h : action.emit tables 0 = .ok (code, depth)) :
    depth = 0 ∧ ∃ inner tail, Lowers tables (.value action.value) 0 inner ∧
      action.Finishes tables tail ∧
      code = inner ++ (1, .popq .rax) :: Counted.level 0 tail := by
  cases action with
  | effect node =>
    obtain ⟨rfl, inner, hinner, rfl⟩ := Counted.evaluate_lowers h
    exact ⟨rfl, inner, [], hinner, rfl, rfl⟩
  | result node =>
    obtain ⟨rfl, inner, hinner, rfl⟩ := Counted.evaluate_lowers h
    exact ⟨rfl, inner, [], hinner, rfl, rfl⟩
  | assign lhs rhs =>
    obtain ⟨_, ⟨inner, hinner, rfl⟩, h⟩ := bind_of_spec Counted.evaluate_lowers h
    obtain ⟨place, hplace, h⟩ := lift_bind_eq_ok.mp h
    cases h
    exact ⟨rfl, inner, _, hinner, ⟨place, hplace, rfl⟩, List.append_assoc ..⟩
  | test cond =>
    obtain ⟨_, ⟨inner, hinner, rfl⟩, h⟩ := bind_of_spec Counted.evaluate_lowers h
    cases h
    exact ⟨rfl, inner, _, hinner, rfl, List.append_assoc ..⟩

/-! ## The code of statements -/

/-- The lines of the code are those of chunks for the work. -/
def IsLaid (tables : Tables) (work : Work) (next : Nat) (code : Counted.Code) : Prop :=
  ∃ chunks, Lays tables work next chunks code.next ∧ code.lines = chunkLines chunks

/-- An action is emitted with no values on the stack. -/
lemma Action.emitted (action : Action) {code : Counted Instr} {depth : Nat}
    (h : action.emit tables 0 = .ok (code, depth)) : depth = 0 ∧ Emitted tables action code := by
  obtain ⟨rfl, -⟩ := emit_lowers h
  exact ⟨rfl, h⟩

lemma Counted.skipUnless_lays {cond : Node} {target depth : Nat} {lines : Counted Line}
    (h : skipUnless tables cond target 0 = .ok (lines, depth)) : depth = 0 ∧
      ∃ code, Emitted tables (.test cond) code ∧
        lines = chunkLines [.action (.test cond) code, .branch target] := by
  obtain ⟨code, hcode, h⟩ := bind_of_spec (Action.emitted (.test cond)) h
  cases h
  exact ⟨rfl, code, hcode, rfl⟩

namespace Counted

/-- An expression is computed for its effects. -/
lemma effect_lays {node : Node} (hnode : isEffect node = true) {next depth : Nat} {code : Code}
    (h : (do return ⟨plain (← evaluate tables node), [], next⟩ : Emitting Code) 0 =
      .ok (code, depth)) : depth = 0 ∧ IsLaid tables (.statement node) next code := by
  obtain ⟨code, hcode, h⟩ := bind_of_spec (Action.emitted (.effect node)) h
  cases h
  exact ⟨rfl, _, .effect hnode hcode, by simp [Chunk.lines]⟩

mutual

/-- What is emitted for a statement. -/
theorem statement_lays (node : Node) {next depth : Nat} {code : Code}
    (h : statement tables next node 0 = .ok (code, depth)) :
    depth = 0 ∧ IsLaid tables (.statement node) next code := by
  match node with
  | .block loc body =>
    obtain ⟨rfl, chunks, hchunks, hlines⟩ := statements_lays body h
    exact ⟨rfl, chunks, .block hchunks, hlines⟩
  | .binary loc .assign lhs rhs =>
    obtain ⟨code, hcode, h⟩ := bind_of_spec (Action.emitted (.assign lhs rhs)) h
    cases h
    exact ⟨rfl, _, .assign hcode, by simp [Chunk.lines]⟩
  | .ifThen loc cond body =>
    obtain ⟨_, ⟨code, hcode, rfl⟩, h⟩ := bind_of_spec skipUnless_lays h
    obtain ⟨body', ⟨chunks, hchunks, hlines⟩, h⟩ := bind_of_spec (statements_lays body) h
    cases h
    exact ⟨rfl, _, .ifThen hcode hchunks, by simp [hlines, Chunk.lines, level]⟩
  | .ifElse loc cond thenBody elseBody =>
    obtain ⟨_, ⟨code, hcode, rfl⟩, h⟩ := bind_of_spec skipUnless_lays h
    obtain ⟨body₁, ⟨first, hfirst, hlines₁⟩, h⟩ := bind_of_spec (statements_lays thenBody) h
    rw [emit_bind] at h
    obtain ⟨body₂, ⟨second, hsecond, hlines₂⟩, h⟩ := bind_of_spec (statements_lays elseBody) h
    cases h
    exact ⟨rfl, _, .ifElse hcode hfirst hsecond, by simp [hlines₁, hlines₂, Chunk.lines, level]⟩
  | .whileLoop loc cond body =>
    rw [statement, emit_bind] at h
    obtain ⟨_, ⟨code, hcode, rfl⟩, h⟩ := bind_of_spec skipUnless_lays h
    obtain ⟨body', ⟨chunks, hchunks, hlines⟩, h⟩ := bind_of_spec (statements_lays body) h
    cases h
    exact ⟨rfl, _, .whileLoop hcode hchunks, by simp [hlines, Chunk.lines, level]⟩
  | .forLoop loc init cond step body =>
    obtain ⟨init', ⟨start, hstart, hlines₁⟩, h⟩ := bind_of_spec (statement_lays init) h
    rw [emit_bind] at h
    obtain ⟨_, ⟨code, hcode, rfl⟩, h⟩ := bind_of_spec skipUnless_lays h
    obtain ⟨body', ⟨chunks, hchunks, hlines₂⟩, h⟩ := bind_of_spec (statements_lays body) h
    obtain ⟨step', ⟨last, hlast, hlines₃⟩, h⟩ := bind_of_spec (statement_lays step) h
    cases h
    refine ⟨rfl, _, .forLoop hstart hcode hchunks hlast, ?_⟩
    simp [hlines₁, hlines₂, hlines₃, Chunk.lines, level]
  | .returnVoid loc function =>
    cases h
    exact ⟨rfl, _, .returnVoid, by simp [Chunk.lines]⟩
  | .returnValue loc result function =>
    unfold statement at h
    split at h
    · rename_i hresult
      obtain ⟨code, hcode, h⟩ := bind_of_spec (Action.emitted (.result result)) h
      cases h
      exact ⟨rfl, _, .returnResult hresult hcode, by simp [Chunk.lines]⟩
    · rename_i hresult
      obtain ⟨inner, ⟨chunks, hchunks, hlines⟩, h⟩ := bind_of_spec (statement_lays result) h
      cases h
      exact ⟨rfl, _, .returnStatement (by simpa using hresult) hchunks,
        by simp [hlines, Chunk.lines]⟩
  | .externDecl loc symbol? =>
    obtain ⟨name, hname, h⟩ := lift_bind_eq_ok.mp h
    cases h
    exact ⟨rfl, [], .silent rfl, rfl⟩
  | .varDecl .. | .typedefDecl .. | .empty _ =>
    cases h
    exact ⟨rfl, [], .silent rfl, rfl⟩
  | .functionDef .. => cases h
  | .integer .. | .boolean .. | .varRef .. | .binary _ (.arith _) .. | .binary _ (.compare _) ..
  | .call .. | .cast .. => exact effect_lays rfl h

/-- What is emitted for statements. -/
theorem statements_lays (nodes : List Node) {next depth : Nat} {code : Code}
    (h : statements tables next nodes 0 = .ok (code, depth)) :
    depth = 0 ∧ IsLaid tables (.statements nodes) next code := by
  match nodes with
  | [] =>
    cases h
    exact ⟨rfl, [], .nil, rfl⟩
  | node :: rest =>
    obtain ⟨first, ⟨chunks₁, hchunks₁, hlines₁⟩, h⟩ := bind_of_spec (statement_lays node) h
    obtain ⟨others, ⟨chunks₂, hchunks₂, hlines₂⟩, h⟩ := bind_of_spec (statements_lays rest) h
    cases h
    exact ⟨rfl, _, .cons hchunks₁ hchunks₂, by simp [Code.append, hlines₁, hlines₂]⟩

end

/-- What is emitted for the statements of a function. -/
theorem bodyCode_lays (nodes : List Node) {next depth : Nat} {code : Code}
    (h : bodyCode tables next nodes 0 = .ok (code, depth)) :
    depth = 0 ∧ IsLaid tables (.statements nodes) next code := by
  induction nodes generalizing next code depth with
  | nil =>
    cases h
    exact ⟨rfl, [], .nil, rfl⟩
  | cons node rest ih =>
    obtain ⟨first, ⟨chunks₁, hchunks₁, hlines₁⟩, h⟩ := bind_of_spec (statement_lays node) h
    -- With no values left over, the rest of the body is emitted.
    have hrest : (bodyCode tables first.next rest >>= fun others =>
        pure (first.append others)) 0 = .ok (code, depth) := h
    obtain ⟨others, ⟨chunks₂, hchunks₂, hlines₂⟩, h⟩ := bind_of_spec ih hrest
    cases h
    exact ⟨rfl, _, .cons hchunks₁ hchunks₂, by simp [Code.append, hlines₁, hlines₂]⟩

end Counted

end ParenC.Lowering
