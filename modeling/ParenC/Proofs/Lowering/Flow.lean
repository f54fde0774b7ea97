/-
The order in which a function does things.

`structured` runs the statements of a function as they are nested, `flat` follows the lines of its
routine with their labels and jumps.  What a stretch of code without jumps does is left open: all
that can be seen is that it is done, and all that is known of a condition is whether it holds.
Both show the same actions in the same order, whatever conditions hold and however long they run.
-/
import Mathlib.Algebra.GroupWithZero.Nat
import ParenC.Proofs.Compilation
import ParenC.Proofs.Lowering.Labels
import ParenC.Proofs.Trace

namespace ParenC

namespace Lowering

/-- What can be seen while a function runs. -/
inductive Event
  /-- Something is done. -/
  | did (action : Action)
  /-- Zero becomes the result. -/
  | zeroed
  /-- The function is left, at its end or before. -/
  | left (atEnd : Bool)

/-! ## Statements in order -/

/-- What is left to do. -/
inductive Task
  /-- Run a statement. -/
  | statement (node : Node)
  /-- Run statements as long as a condition holds. -/
  | loop (cond : Node) (body : List Node)
  /-- Leave the function. -/
  | leave
  /-- Leave the function at its end, with the result zero if `zero` is set. -/
  | finish (zero : Bool)

/-- The tasks that are left, and the number of conditions that were tested so far. -/
abbrev Progress := List Task × Nat

/-- Begin to run a statement while there are other tasks. -/
def perform (outcomes : Nat → Bool) (tested : Nat) (tasks : List Task) :
    Node → List Event × Progress
  | .block _ body => ([], body.map .statement ++ tasks, tested)
  | .binary _ .assign lhs rhs => ([.did (.assign lhs rhs)], tasks, tested)
  | .ifThen _ cond body =>
    ([.did (.test cond)], (if outcomes tested then body else []).map .statement ++ tasks,
      tested + 1)
  | .ifElse _ cond thenBody elseBody =>
    ([.did (.test cond)], (if outcomes tested then thenBody else elseBody).map .statement ++ tasks,
      tested + 1)
  | .whileLoop _ cond body => ([], .loop cond body :: tasks, tested)
  | .forLoop _ init cond step body =>
    ([], .statement init :: .loop cond (body ++ [step]) :: tasks, tested)
  | .returnVoid .. => ([], .leave :: tasks, tested)
  | .returnValue _ value _ =>
    if value.isExpression then ([.did (.result value)], .leave :: tasks, tested)
    else ([], .statement value :: .leave :: tasks, tested)
  | .functionDef .. | .externDecl .. | .varDecl .. | .typedefDecl .. | .empty _ =>
    ([], tasks, tested)
  | node => ([.did (.effect node)], tasks, tested)

/-- Run tasks one after the other; condition number `n` holds if `outcomes n` says so. -/
def structured (outcomes : Nat → Bool) : System Progress Event
  | ([], _) => none
  | (.statement node :: tasks, tested) => some (perform outcomes tested tasks node)
  | (.loop cond body :: tasks, tested) =>
    some ([.did (.test cond)], (if outcomes tested then body.map .statement ++ [.loop cond body]
      else []) ++ tasks, tested + 1)
  | (.leave :: _, tested) => some ([.left false], [], tested)
  | (.finish true :: tasks, tested) => some ([.zeroed], .finish false :: tasks, tested)
  | (.finish false :: _, tested) => some ([.left true], [], tested)

/-- What a function has to do. -/
def Function.tasks (function : Function) : List Task :=
  function.body.map .statement ++ [.finish function.exitsZero]

/-! ## Lines in order -/

/-- Lines, each with what begins there. -/
abbrev Marked := List (Option Event × Line)

/-- The lines that are left, and the number of conditions that were tested so far. -/
abbrev Position := Marked × Nat

/-- Follow the lines of a program; a conditional jump is taken if the condition does not hold. -/
def flat (program : Marked) (outcomes : Nat → Bool) : System Position Event
  | ([], _) => none
  | ((mark, line) :: rest, tested) =>
    match line with
    | .instr _ | .label _ => some (mark.toList, rest, tested)
    | .jmp target => (findLabel target program).map fun lines => (mark.toList, lines, tested)
    | .je target =>
      if outcomes tested then some (mark.toList, rest, tested + 1)
      else (findLabel target program).map fun lines => (mark.toList, lines, tested + 1)
    | .ret => some (mark.toList ++ [.left rest.isEmpty], [], tested)

/-- Lines at which nothing begins. -/
def unmarked (lines : List Line) : Marked := lines.map (none, ·)

/-- Lines at the first of which something begins. -/
def markFirst (event : Event) : List Line → Marked
  | [] => []
  | line :: rest => (some event, line) :: unmarked rest

namespace Chunk

/-- The lines of a chunk with what begins there. -/
def marked : Chunk → Marked
  | action act code => markFirst (.did act) (plain code.erase)
  | jump target => [(none, .jmp target)]
  | branch target => [(none, .je target)]
  | label name => [(none, .label name)]
  | zero => [(some .zeroed, .instr (.movq (.imm 0) (.reg .rax)))]
  | leave => unmarked epilogue

end Chunk

/-- The lines of chunks with what begins there. -/
def markedLines (chunks : List Chunk) : Marked := chunks.flatMap Chunk.marked

@[simp] lemma markedLines_nil : markedLines [] = [] := rfl

@[simp] lemma markedLines_cons (chunk : Chunk) (chunks : List Chunk) :
    markedLines (chunk :: chunks) = chunk.marked ++ markedLines chunks := List.flatMap_cons

@[simp] lemma markedLines_append (first second : List Chunk) :
    markedLines (first ++ second) = markedLines first ++ markedLines second :=
  List.flatMap_append

@[simp] lemma unmarked_lines (lines : List Line) : (unmarked lines).map Prod.snd = lines := by
  simp [unmarked, Function.comp_def]

lemma Chunk.marked_lines (chunk : Chunk) : chunk.marked.map Prod.snd = chunk.lines.erase := by
  cases chunk with
  | action act code =>
    rw [lines, Counted.erase_plain, marked]
    cases plain code.erase <;> simp [markFirst]
  | leave => rw [lines, Counted.erase_level, marked, unmarked_lines]
  | _ => rfl

/-- The marks are beside the lines of the chunks. -/
lemma markedLines_lines (chunks : List Chunk) :
    (markedLines chunks).map Prod.snd = (chunkLines chunks).erase := by
  induction chunks with
  | nil => rfl
  | cons chunk rest ih => simp [Chunk.marked_lines, ih]


/-! ## Tasks and lines -/

/-- The lines from here on are those for the tasks, up to jumps and labels on the way. -/
inductive Follows (tables : Tables) (program : Marked) : List Task → Marked → Prop
  | done : Follows tables program [] []
  | statement {node next chunks stop tasks rest}
      (code : Lays tables (.statement node) next chunks stop)
      (inside : markedLines chunks ++ rest <:+ program) (more : rest ≠ [])
      (later : Follows tables program tasks rest) :
      Follows tables program (.statement node :: tasks) (markedLines chunks ++ rest)
  | loop {cond body code next chunks stop head exit tasks rest}
      (emitted : Emitted tables (.test cond) code)
      (inner : Lays tables (.statements body) next chunks stop)
      (inside : markedLines (.label head :: .action (.test cond) code :: .branch exit :: chunks ++
        [.jump head, .label exit]) ++ rest <:+ program) (more : rest ≠ [])
      (later : Follows tables program tasks rest) :
      Follows tables program (.loop cond body :: tasks)
        (markedLines (.action (.test cond) code :: .branch exit :: chunks ++
          [.jump head, .label exit]) ++ rest)
  | leave {tasks rest} (more : rest ≠ []) :
      Follows tables program (.leave :: tasks) (Chunk.marked .leave ++ rest)
  | finish {tasks} : Follows tables program (.finish false :: tasks) (Chunk.marked .leave)
  | zero {tasks} : Follows tables program (.finish true :: tasks)
      (Chunk.marked .zero ++ Chunk.marked .leave)
  | label {name tasks rest} (later : Follows tables program tasks rest) :
      Follows tables program tasks (Chunk.marked (.label name) ++ rest)
  | jump {target tasks rest lines} (found : findLabel target program = some lines)
      (later : Follows tables program tasks lines) :
      Follows tables program tasks (Chunk.marked (.jump target) ++ rest)

variable {tables : Tables} {program rest : Marked} {outcomes : Nat → Bool} {tested : Nat}

/-- Statements one after the other. -/
lemma Follows.statements {nodes : List Node} {next stop : Nat} {chunks : List Chunk}
    {tasks : List Task} (code : Lays tables (.statements nodes) next chunks stop)
    (inside : markedLines chunks ++ rest <:+ program) (more : rest ≠ [])
    (later : Follows tables program tasks rest) :
    Follows tables program (nodes.map .statement ++ tasks) (markedLines chunks ++ rest) := by
  induction nodes generalizing next chunks with
  | nil =>
    cases code
    exact later
  | cons node nodes ih =>
    cases code with
    | @cons _ _ _ first others middle _ head tail =>
      rw [markedLines_append, List.append_assoc] at inside ⊢
      have hinside : markedLines others ++ rest <:+ program :=
        (List.suffix_append _ _).trans inside
      exact .statement head inside (by simp [more]) (ih tail hinside)

/-- Statements before others. -/
lemma Lays.append {first second : List Node} {next middle stop : Nat} {chunks chunks' : List Chunk}
    (h : Lays tables (.statements first) next chunks middle)
    (h' : Lays tables (.statements second) middle chunks' stop) :
    Lays tables (.statements (first ++ second)) next (chunks ++ chunks') stop := by
  induction first generalizing next chunks with
  | nil =>
    cases h
    exact h'
  | cons node nodes ih =>
    cases h with
    | cons head tail =>
      rw [List.append_assoc]
      exact .cons head (ih tail)

/-! ## Walks along lines -/

lemma walks_unmarked (lines : List Instr) :
    (flat program outcomes).Walks lines.length (unmarked (plain lines) ++ rest, tested) []
      (rest, tested) := by
  induction lines with
  | nil => exact .nil
  | cons instr lines ih => exact .silent rfl ih

/-- Going through the code of an action is doing it. -/
lemma walks_action {action : Action} {code : Counted Instr} (h : Emitted tables action code) :
    ∃ n, 0 < n ∧ (flat program outcomes).Walks n ((Chunk.action action code).marked ++ rest, tested)
      [.did action] (rest, tested) := by
  obtain ⟨-, inner, tail, -, -, rfl⟩ := Action.emit_lowers h
  rcases hcode : Counted.erase (inner ++ (1, .popq .rax) :: Counted.level 0 tail) with _ | ⟨instr, code⟩
  · simp at hcode
  · refine ⟨code.length + 1, Nat.succ_pos _, ?_⟩
    have hfirst : flat program outcomes
        ((some (.did action), .instr instr) :: (unmarked (plain code) ++ rest), tested) =
        some ([.did action], unmarked (plain code) ++ rest, tested) := rfl
    rw [Chunk.marked, hcode]
    exact .cons hfirst (walks_unmarked code)

/-- Testing a condition and going on where it says. -/
lemma walks_test {cond : Node} {code : Counted Instr} (h : Emitted tables (.test cond) code)
    {target : Nat} {lines : Marked} (found : findLabel target program = some lines) :
    ∃ n, 0 < n ∧ (flat program outcomes).Walks n
      ((Chunk.action (.test cond) code).marked ++ (Chunk.marked (.branch target) ++ rest), tested)
      [.did (.test cond)] (if outcomes tested then rest else lines, tested + 1) := by
  obtain ⟨n, hn, hwalk⟩ := walks_action h
  refine ⟨n + 1, Nat.succ_pos _, ?_⟩
  have hbranch : flat program outcomes (Chunk.marked (.branch target) ++ rest, tested) =
      some ([], if outcomes tested then rest else lines, tested + 1) := by
    cases houtcome : outcomes tested <;> simp [flat, Chunk.marked, found, houtcome]
  exact hwalk.trans (.one hbranch)

/-- Going through an epilogue is leaving the function. -/
lemma walks_leave : (flat program outcomes).Walks 3 (Chunk.marked .leave ++ rest, tested)
    [.left rest.isEmpty] ([], tested) :=
  .silent rfl (.silent rfl (.one rfl))

/-! ## The simulation -/

/-- What a task may still do in silence. -/
noncomputable def Task.size : Task → Nat
  | statement node => sizeOf node
  | _ => 0

/-- What tasks may still do in silence. -/
noncomputable def silence (tasks : List Task) : Nat := (tasks.map Task.size).sum

@[simp] lemma silence_nil : silence [] = 0 := rfl

@[simp] lemma silence_cons (task : Task) (tasks : List Task) :
    silence (task :: tasks) = task.size + silence tasks := by
  simp [silence]

@[simp] lemma silence_append (first second : List Task) :
    silence (first ++ second) = silence first + silence second := by
  simp [silence]

lemma silence_statements (nodes : List Node) : silence (nodes.map .statement) < sizeOf nodes := by
  induction nodes with
  | nil => simp
  | cons node nodes ih =>
    simp only [List.map_cons, silence_cons, Task.size, List.cons.sizeOf_spec]
    omega

/-- The lines answer one step of a task that is a statement. -/
lemma statement_steps (outcomes : Nat → Bool) (tested : Nat)
    (nodup : (labels (program.map Prod.snd)).Nodup) {node : Node} {next stop : Nat}
    {chunks : List Chunk} {tasks : List Task} (code : Lays tables (.statement node) next chunks stop)
    (inside : markedLines chunks ++ rest <:+ program) (more : rest ≠ [])
    (later : Follows tables program tasks rest) :
    ∃ n rest', (flat program outcomes).Walks n (markedLines chunks ++ rest, tested)
        (perform outcomes tested tasks node).1 (rest', (perform outcomes tested tasks node).2.2) ∧
      Follows tables program (perform outcomes tested tasks node).2.1 rest' ∧
      (0 < n ∨ silence (perform outcomes tested tasks node).2.1 < sizeOf node + silence tasks) := by
  cases code with
  | @block loc body _ _ _ inner =>
    -- no line answers, so the tasks that are left must be smaller
    refine ⟨0, _, .nil, .statements inner inside more later, Or.inr ?_⟩
    have := silence_statements body
    simp only [perform, silence_append, Node.block.sizeOf_spec]
    omega
  | assign emitted =>
    obtain ⟨n, hn, hwalk⟩ := walks_action emitted
    rw [markedLines_cons, markedLines_nil, List.append_nil]
    exact ⟨n, rest, hwalk, later, Or.inl hn⟩
  | effect isEffect emitted =>
    obtain ⟨n, hn, hwalk⟩ := walks_action emitted
    have hperform : perform outcomes tested tasks node = ([.did (.effect node)], tasks, tested) := by
      cases node with
      | binary loc op lhs rhs => cases op <;> first | rfl | simp [Lowering.isEffect] at isEffect
      | integer | boolean | varRef | call | cast => rfl
      | _ => simp [Lowering.isEffect, Node.isExpression] at isEffect
    rw [hperform, markedLines_cons, markedLines_nil, List.append_nil]
    exact ⟨n, rest, hwalk, later, Or.inl hn⟩
  | @ifThen loc cond body _ code chunks _ emitted inner =>
    simp only [List.cons_append, markedLines_cons, markedLines_append, markedLines_nil,
      List.append_assoc, List.append_nil] at inside ⊢
    have hbody : markedLines chunks ++ (Chunk.marked (.label next) ++ rest) <:+ program :=
      ((List.suffix_append _ _).trans (List.suffix_append _ _)).trans inside
    -- if the test fails, control goes to the label behind the body
    have found : findLabel next program = some rest :=
      findLabel_of_suffix nodup ((List.suffix_append _ _).trans hbody)
    obtain ⟨n, hn, hwalk⟩ := walks_test emitted found
    refine ⟨n, _, hwalk, ?_, Or.inl hn⟩
    cases houtcome : outcomes tested with
    | true =>
      have hfollows := Follows.statements inner hbody (by simp [Chunk.marked]) (.label later)
      simpa [perform, houtcome] using hfollows
    | false => simpa [perform, houtcome] using later
  | @ifElse loc cond thenBody elseBody _ code first second middle _ emitted onTrue onFalse =>
    simp only [List.cons_append, markedLines_cons, markedLines_append, markedLines_nil,
      List.append_assoc, List.append_nil] at inside ⊢
    have hfirst : markedLines first ++ (Chunk.marked (.jump middle) ++ (Chunk.marked (.label next) ++
        (markedLines second ++ (Chunk.marked (.label middle) ++ rest)))) <:+ program :=
      ((List.suffix_append _ _).trans (List.suffix_append _ _)).trans inside
    have hlabel : Chunk.marked (.label next) ++
        (markedLines second ++ (Chunk.marked (.label middle) ++ rest)) <:+ program :=
      ((List.suffix_append _ _).trans (List.suffix_append _ _)).trans hfirst
    have hsecond : markedLines second ++ (Chunk.marked (.label middle) ++ rest) <:+ program :=
      (List.suffix_append _ _).trans hlabel
    have found : findLabel middle program = some rest :=
      findLabel_of_suffix nodup ((List.suffix_append _ _).trans hsecond)
    obtain ⟨n, hn, hwalk⟩ := walks_test emitted (findLabel_of_suffix nodup hlabel)
    refine ⟨n, _, hwalk, ?_, Or.inl hn⟩
    cases houtcome : outcomes tested with
    | true =>
      have hfollows := Follows.statements onTrue hfirst (by simp [Chunk.marked]) (.jump found later)
      simpa [perform, houtcome] using hfollows
    | false =>
      have hfollows := Follows.statements onFalse hsecond (by simp [Chunk.marked]) (.label later)
      simpa [perform, houtcome] using hfollows
  | whileLoop emitted inner =>
    exact ⟨1, _, .one rfl, .loop emitted inner inside more later, Or.inl Nat.one_pos⟩
  | @forLoop loc init cond step body _ code start chunks last _ _ _ before emitted inner after =>
    -- the code of the step stands behind that of the body, as if it were its last statement
    have hinner := inner.append (.cons after .nil)
    rw [List.append_nil] at hinner
    rw [List.append_assoc, markedLines_append, List.append_assoc] at inside ⊢
    have hloop := Follows.loop emitted hinner ((List.suffix_append _ _).trans inside) more later
    refine ⟨0, _, .nil, .statement before inside (by simp [Chunk.marked]) (.label hloop), Or.inr ?_⟩
    simp only [perform, silence_cons, Task.size, Node.forLoop.sizeOf_spec]
    omega
  | returnVoid =>
    rw [markedLines_cons, markedLines_nil, List.append_nil]
    refine ⟨0, _, .nil, .leave more, Or.inr ?_⟩
    simp only [perform, silence_cons, Task.size, Node.returnVoid.sizeOf_spec]
    omega
  | returnResult isExpression emitted =>
    obtain ⟨n, hn, hwalk⟩ := walks_action emitted
    simp only [markedLines_cons, markedLines_nil, List.append_nil, List.append_assoc]
    simp only [perform, isExpression, if_true]
    exact ⟨n, _, hwalk, .leave more, Or.inl hn⟩
  | @returnStatement loc value function _ chunks _ isStatement inner =>
    rw [markedLines_append, List.append_assoc] at inside ⊢
    simp only [perform, isStatement, Bool.false_eq_true, if_false]
    have hleave : Follows tables program (.leave :: tasks) (markedLines [.leave] ++ rest) := by
      rw [markedLines_cons, markedLines_nil, List.append_nil]
      exact .leave more
    refine ⟨0, _, .nil, .statement inner inside (by simp [more]) hleave, Or.inr ?_⟩
    simp only [silence_cons, Task.size, Node.returnValue.sizeOf_spec]
    omega
  | silent isSilent =>
    have hperform : perform outcomes tested tasks node = ([], tasks, tested) := by
      cases node <;> first | rfl | simp [Lowering.isSilent] at isSilent
    rw [hperform]
    refine ⟨0, _, .nil, later, Or.inr ?_⟩
    cases node <;> simp +arith

/-- Where no task is left, nothing more can be seen. -/
lemma Follows.stops {tasks : List Task} (h : Follows tables program tasks rest)
    (hstop : structured outcomes (tasks, tested) = none) :
    ∃ n position, (flat program outcomes).Walks n (rest, tested) [] position ∧
      flat program outcomes position = none := by
  induction h with
  | done => exact ⟨0, _, .nil, rfl⟩
  | label later ih =>
    obtain ⟨n, position, hwalk, hnone⟩ := ih hstop
    exact ⟨n + 1, position, .silent rfl hwalk, hnone⟩
  | jump found later ih =>
    obtain ⟨n, position, hwalk, hnone⟩ := ih hstop
    exact ⟨n + 1, position, .silent (by simp [flat, Chunk.marked, found]) hwalk, hnone⟩
  | statement | loop | leave | finish | zero => simp [structured] at hstop

/-- The lines answer one step of the tasks. -/
lemma Follows.steps (nodup : (labels (program.map Prod.snd)).Nodup) {tasks : List Task}
    (h : Follows tables program tasks rest) {events : List Event} {progress : Progress}
    (hstep : structured outcomes (tasks, tested) = some (events, progress)) :
    ∃ n rest', (flat program outcomes).Walks n (rest, tested) events (rest', progress.2) ∧
      Follows tables program progress.1 rest' ∧ (0 < n ∨ silence progress.1 < silence tasks) := by
  induction h with
  | done => simp [structured] at hstep
  | @statement node next chunks stop tasks rest code inside more later =>
    simp only [structured, Option.some.injEq] at hstep
    rw [silence_cons, Task.size]
    have hsteps := statement_steps outcomes tested nodup code inside more later
    rw [hstep] at hsteps
    exact hsteps
  | @loop cond body code next chunks stop head exit tasks rest emitted inner inside more later =>
    simp only [structured, Option.some.injEq, Prod.mk.injEq] at hstep
    obtain ⟨rfl, rfl⟩ := hstep
    -- behind the body the whole loop follows once more
    have hagain := Follows.loop emitted inner inside more later
    simp only [List.cons_append, markedLines_cons, markedLines_append, markedLines_nil,
      List.append_assoc, List.append_nil] at inside hagain ⊢
    have hbody : markedLines chunks ++ (Chunk.marked (.jump head) ++ (Chunk.marked (.label exit) ++
        rest)) <:+ program :=
      (((List.suffix_append _ _).trans (List.suffix_append _ _)).trans (List.suffix_append _ _)).trans
        inside
    have hhead := findLabel_of_suffix nodup inside
    have hexit : findLabel exit program = some rest :=
      findLabel_of_suffix nodup
        (((List.suffix_append _ _).trans (List.suffix_append _ _)).trans hbody)
    obtain ⟨n, hn, hwalk⟩ := walks_test emitted hexit
    refine ⟨n, _, hwalk, ?_, Or.inl hn⟩
    cases houtcome : outcomes tested with
    | true =>
      have hfollows := Follows.statements inner hbody (by simp [Chunk.marked]) (.jump hhead hagain)
      simpa [houtcome] using hfollows
    | false => simpa [houtcome] using later
  | @leave tasks rest more =>
    simp only [structured, Option.some.injEq, Prod.mk.injEq] at hstep
    obtain ⟨rfl, rfl⟩ := hstep
    have hwalk : (flat program outcomes).Walks 3 _ [.left rest.isEmpty] ([], tested) := walks_leave
    rw [List.isEmpty_eq_false_iff.mpr more] at hwalk
    exact ⟨3, [], hwalk, .done, Or.inl (by decide)⟩
  | finish =>
    simp only [structured, Option.some.injEq, Prod.mk.injEq] at hstep
    obtain ⟨rfl, rfl⟩ := hstep
    have hwalk : (flat program outcomes).Walks 3 (Chunk.marked .leave ++ [], tested) [.left true]
      ([], tested) := walks_leave
    rw [List.append_nil] at hwalk
    exact ⟨3, [], hwalk, .done, Or.inl (by decide)⟩
  | zero =>
    simp only [structured, Option.some.injEq, Prod.mk.injEq] at hstep
    obtain ⟨rfl, rfl⟩ := hstep
    exact ⟨1, _, .one rfl, .finish, Or.inl Nat.one_pos⟩
  | label later ih =>
    -- a label answers nothing by itself, so the walk goes on
    obtain ⟨n, rest', hwalk, hrest⟩ := ih hstep
    exact ⟨n + 1, rest', .silent rfl hwalk, hrest.1, Or.inl (Nat.succ_pos _)⟩
  | jump found later ih =>
    obtain ⟨n, rest', hwalk, hrest⟩ := ih hstep
    exact ⟨n + 1, rest', .silent (by simp [flat, Chunk.marked, found]) hwalk, hrest.1,
      Or.inl (Nat.succ_pos _)⟩

/-- Lines simulate tasks if they are those for them and no label occurs twice. -/
theorem flat_simulates (nodup : (labels (program.map Prod.snd)).Nodup) :
    System.Simulates (structured outcomes) (flat program outcomes)
      (fun progress position =>
        progress.2 = position.2 ∧ Follows tables program progress.1 position.1)
      (fun progress => silence progress.1) where
  stops := by
    rintro ⟨tasks, tested⟩ ⟨rest, tested'⟩ ⟨rfl, hfollows⟩ hstop
    exact hfollows.stops hstop
  steps := by
    rintro ⟨tasks, tested⟩ ⟨rest, tested'⟩ events progress ⟨rfl, hfollows⟩ hstep
    obtain ⟨n, rest', hwalk, hfollows', hless⟩ := hfollows.steps nodup hstep
    exact ⟨n, _, hwalk, ⟨rfl, hfollows'⟩, hless⟩

/-! ## Routines -/

/-- The lines at the end of a routine are those for the end of the function. -/
lemma Function.ending_follows (function : Function) :
    Follows tables program [.finish function.exitsZero] (markedLines function.ending) := by
  cases hzero : function.exitsZero with
  | true => simpa [Function.ending, hzero] using Follows.zero
  | false => simpa [Function.ending, hzero] using Follows.finish

/-- The routine is the code of the function, cut into a prologue and chunks.  Following its lines
from the end of the prologue shows the same as running the statements of the function. -/
def KeepsOrder (tables : Tables) (unit : Program.Owned) (routine : Routine) : Prop :=
  ∃ placed used next code spills chunks, Repositioned tables placed ∧
    Compiled placed unit.1 unit.2 used next code ∧ routine = ⟨unit.2.name, code.lines⟩ ∧
    spill placed unit.2.location (unit.2.params.zip Reg.arguments) = .ok spills ∧
    (∀ action code, .action action code ∈ chunks → Emitted placed action code) ∧
    let entry := unmarked (plain (prologue (frameSize used) ++ spills))
    let body := markedLines (chunks ++ unit.2.ending)
    (entry ++ body).map Prod.snd = routine.lines ∧
    ∀ outcomes events, (flat (entry ++ body) outcomes).Shows (body, 0) events ↔
      (structured outcomes).Shows (unit.2.tasks, 0) events

lemma Compiled.keepsOrder {placed : Tables} {unit : Program.Owned} {used next : Nat} {code : Code}
    (hplaced : Repositioned tables placed) (h : Compiled placed unit.1 unit.2 used next code) :
    KeepsOrder tables unit ⟨unit.2.name, code.lines⟩ := by
  obtain ⟨counted, spills, chunks, -, rfl, hspills, hchunks, hlines⟩ := Function.code_lays h.code
  refine ⟨placed, used, next, _, spills, chunks, hplaced, h, rfl, hspills,
    fun _ _ hmem => (hchunks.action hmem).1, ?_⟩
  intro entry body
  have hprogram : (entry ++ body).map Prod.snd = counted.lines.erase := by
    rw [List.map_append, unmarked_lines, markedLines_lines, hlines, Counted.erase_append,
      Counted.erase_level]
  have hnodup : (labels ((entry ++ body).map Prod.snd)).Nodup := by
    rw [hprogram]
    exact Function.labels_nodup h.code
  have hbody : body = markedLines chunks ++ markedLines unit.2.ending := markedLines_append ..
  have hmore : markedLines unit.2.ending ≠ [] := by
    cases hzero : unit.2.exitsZero <;> simp [Function.ending, hzero, Chunk.marked, unmarked, epilogue]
  have hfollows : Follows placed (entry ++ body) unit.2.tasks body := by
    have hinside : markedLines chunks ++ markedLines unit.2.ending <:+ entry ++ body :=
      hbody ▸ List.suffix_append entry body
    rw [Function.tasks, hbody]
    exact .statements hchunks (hbody ▸ hinside) hmore (Function.ending_follows _)
  refine ⟨hprogram, fun outcomes events => ?_⟩
  exact (flat_simulates hnodup).shows_iff ⟨rfl, hfollows⟩ events

end Lowering

open Lowering

/-- In every program that is analyzed and compiled, the lines of each routine are followed in the
order of the statements of its function. -/
theorem actions_in_order {file source : String} {program : Program} {ws ws' : Workspace}
    {assembly : Assembly} (hanalyze : analyze source (.initial file) = .ok program ws)
    (hgenerate : generate program ws = .ok assembly ws') :
    List.Forall₂ (KeepsOrder ws.toTables) (program.functions ws.symbols) assembly.routines := by
  refine (generated_routines hanalyze hgenerate).imp ?_
  rintro unit routine ⟨placed, used, next, code, hplaced, hcompiled, rfl⟩
  exact hcompiled.keepsOrder hplaced

/-- A function that returns from a loop by way of a statement, and a loop at the top level. -/
theorem actions_in_order_nested : ∃ program ws assembly ws',
    analyze "(defun f () void ((while true (return (if false ((f))))))) (for (f) true (f) (f))"
      (.initial "nested") = .ok program ws ∧
    generate program ws = .ok assembly ws' ∧
    List.Forall₂ (KeepsOrder ws.toTables) (program.functions ws.symbols) assembly.routines := by
  have hcompiles : compiles "nested"
      "(defun f () void ((while true (return (if false ((f))))))) (for (f) true (f) (f))" = true := by
    decide +kernel
  obtain ⟨program, ws, assembly, ws', hanalyze, hgenerate⟩ := runs_of_compiles hcompiles
  exact ⟨program, ws, assembly, ws', hanalyze, hgenerate, actions_in_order hanalyze hgenerate⟩

end ParenC
