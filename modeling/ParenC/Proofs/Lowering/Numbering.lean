/-
The numbers of labels.

Every construct takes as many labels as it has places to jump to, and the counter of labels goes
through the whole program.  So the labels of a stretch of code are the numbers between two values
of the counter, each of them once, and how far the counter goes is told by the constructs alone.
`Numbered` is the invariant that carries this from function to function.
-/
import Mathlib.Data.List.Perm.Subperm
import ParenC.Proofs.Lowering.Labels
import ParenC.Proofs.Lowering.Layout

namespace ParenC

/-- The number of labels that the code of a construct has, those of its parts not counted. -/
def Node.ownLabels : Node → Nat
  | ifThen .. => 1
  | ifElse .. | whileLoop .. | forLoop .. => 2
  | _ => 0

/-- The number of labels that the code of statements has. -/
def labelCount (nodes : List Node) : Nat := ((Node.checkOrderAll nodes).map Node.ownLabels).sum

namespace Lowering

variable {tables : Tables}

/-! ## Expressions -/

/-- The expressions that code is generated for. -/
def Job.nodes : Job → List Node
  | value node => [node]
  | arguments _ _ args => args

/-- The statements that code is generated for. -/
def Work.nodes : Work → List Node
  | statement node => [node]
  | statements nodes => nodes

@[simp] lemma labelCount_nil : labelCount [] = 0 := rfl

@[simp] lemma labelCount_append (xs ys : List Node) :
    labelCount (xs ++ ys) = labelCount xs + labelCount ys := by
  simp [labelCount]

lemma labelCount_cons (node : Node) (nodes : List Node) :
    labelCount (node :: nodes) = labelCount [node] + labelCount nodes :=
  labelCount_append [node] nodes

/-- The labels of a construct are its own and those of its parts. -/
lemma labelCount_singleton (node : Node) :
    labelCount [node] = node.ownLabels + labelCount node.parts := by
  cases node <;>
    simp [labelCount, Node.checkOrder, Node.checkOrderAll, Node.parts, Node.ownLabels] <;> omega

/-- A place that can be loaded is a node without parts. -/
lemma storage_eq_ok {node : Node} {place : Slot} (h : storage tables node = .ok place) :
    node.isExpression = true ∧ node.parts = [] := by
  cases node <;> first | exact ⟨rfl, rfl⟩ | cases h

lemma forall_checkOrderAll_singleton {p : Node → Prop} {node : Node} :
    (∀ n ∈ Node.checkOrderAll [node], p n) ↔ p node ∧ ∀ n ∈ Node.checkOrderAll node.parts, p n := by
  simp only [Reading.mem_checkOrderAll_singleton, or_imp, forall_and, forall_eq]

lemma forall_checkOrderAll_cons {p : Node → Prop} {node : Node} {nodes : List Node} :
    (∀ n ∈ Node.checkOrderAll (node :: nodes), p n) ↔
      (∀ n ∈ Node.checkOrderAll [node], p n) ∧ ∀ n ∈ Node.checkOrderAll nodes, p n := by
  rw [show node :: nodes = [node] ++ nodes from rfl, Node.checkOrderAll_append]
  simp only [List.mem_append, or_imp, forall_and]

lemma isExpression_of_storage {node : Node} {place : Slot} (h : storage tables node = .ok place) :
    ∀ n ∈ Node.checkOrderAll [node], n.isExpression = true := by
  obtain ⟨hexpression, hparts⟩ := storage_eq_ok h
  refine forall_checkOrderAll_singleton.mpr ⟨hexpression, ?_⟩
  rw [hparts]
  exact List.forall_mem_nil _

/-- Values are computed by expressions all the way down. -/
theorem Lowers.isExpression {job : Job} {depth : Nat} {code : Counted Instr}
    (h : Lowers tables job depth code) :
    ∀ node ∈ Node.checkOrderAll job.nodes, node.isExpression = true := by
  induction h with
  | literal | wideLiteral | boolean =>
    exact forall_checkOrderAll_singleton.mpr ⟨rfl, List.forall_mem_nil _⟩
  | load isStorage source => exact isExpression_of_storage source
  | assign right target ih =>
    exact forall_checkOrderAll_singleton.mpr
      ⟨rfl, forall_checkOrderAll_cons.mpr ⟨isExpression_of_storage target, ih⟩⟩
  | arith right left sign ihRight ihLeft | compare right left sign ihRight ihLeft =>
    exact forall_checkOrderAll_singleton.mpr
      ⟨rfl, forall_checkOrderAll_cons.mpr ⟨ihLeft, ihRight⟩⟩
  | call arguments target typed resolved ih => exact forall_checkOrderAll_singleton.mpr ⟨rfl, ih⟩
  | toBool inner goal origin other ih | keep inner goal origin same ih =>
    exact forall_checkOrderAll_singleton.mpr ⟨rfl, ih⟩
  | noArguments => exact List.forall_mem_nil _
  | argument first later ihFirst ihLater =>
    exact forall_checkOrderAll_cons.mpr ⟨ihFirst, ihLater⟩

/-- Expressions have no labels. -/
lemma labelCount_of_isExpression {nodes : List Node}
    (h : ∀ node ∈ Node.checkOrderAll nodes, node.isExpression = true) : labelCount nodes = 0 := by
  refine List.sum_eq_zero_iff_forall_eq_nat.mpr fun n hn => ?_
  obtain ⟨node, hnode, rfl⟩ := List.mem_map.mp hn
  have hexpression := h node hnode
  cases node <;> first | rfl | cases hexpression

/-- Nor are there in the code of actions. -/
lemma Emitted.labelCount_eq {action : Action} {code : Counted Instr}
    (h : Emitted tables action code) : labelCount [action.value] = 0 := by
  obtain ⟨-, inner, -, hinner, -⟩ := Action.emit_lowers h
  exact labelCount_of_isExpression hinner.isExpression

/-- An assignment goes to a variable. -/
lemma Emitted.labelCount_target {lhs rhs : Node} {code : Counted Instr}
    (h : Emitted tables (.assign lhs rhs) code) : labelCount [lhs] = 0 := by
  obtain ⟨-, -, -, -, ⟨place, hplace, -⟩, -⟩ := Action.emit_lowers h
  exact labelCount_of_isExpression (isExpression_of_storage hplace)

/-! ## Statements -/

/-- The code of statements takes as many labels from the counter as the statements have. -/
theorem Lays.stop_eq {work : Work} {next stop : Nat} {chunks : List Chunk}
    (h : Lays tables work next chunks stop) : stop = next + labelCount work.nodes := by
  induction h with
  | block inner ih =>
    simp only [Work.nodes] at ih ⊢
    rw [labelCount_singleton, Node.parts, ih]
    simp only [Node.ownLabels, Nat.zero_add]
  | assign emitted =>
    -- labels belong to control flow only, and there is none inside expressions
    have hvalue := emitted.labelCount_eq
    have hplace := emitted.labelCount_target
    simp only [Action.value, Work.nodes] at hvalue ⊢
    rw [labelCount_singleton, Node.parts, labelCount_cons, hplace, hvalue]
    rfl
  | effect isEffect emitted =>
    have hvalue := emitted.labelCount_eq
    simp only [Action.value, Work.nodes] at hvalue ⊢
    omega
  | ifThen emitted inner ih =>
    have hcond := emitted.labelCount_eq
    simp only [Action.value, Work.nodes] at hcond ih ⊢
    rw [labelCount_singleton, Node.parts, Node.ownLabels, labelCount_cons, hcond, ih]
    omega
  | ifElse emitted onTrue onFalse ihTrue ihFalse =>
    have hcond := emitted.labelCount_eq
    simp only [Action.value, Work.nodes] at hcond ihTrue ihFalse ⊢
    rw [labelCount_singleton, Node.parts, Node.ownLabels, labelCount_cons, labelCount_append,
      hcond, ihFalse, ihTrue]
    omega
  | whileLoop emitted inner ih =>
    have hcond := emitted.labelCount_eq
    simp only [Action.value, Work.nodes] at hcond ih ⊢
    rw [labelCount_singleton, Node.parts, Node.ownLabels, labelCount_cons, hcond, ih]
    omega
  | @forLoop loc init cond step body next code start chunks last first second stop before emitted
      inner after ihBefore ihInner ihAfter =>
    have hcond := emitted.labelCount_eq
    simp only [Action.value, Work.nodes] at hcond ihBefore ihInner ihAfter ⊢
    rw [labelCount_singleton, Node.parts, Node.ownLabels, labelCount_cons,
      labelCount_cons cond, labelCount_cons step, hcond, ihAfter, ihInner, ihBefore]
    omega
  | returnVoid => rfl
  | returnResult isExpression emitted =>
    have hvalue := emitted.labelCount_eq
    simp only [Action.value, Work.nodes] at hvalue ⊢
    rw [labelCount_singleton, Node.parts, hvalue]
    rfl
  | returnStatement isStatement inner ih =>
    simp only [Work.nodes] at ih ⊢
    rw [labelCount_singleton, Node.parts, ih]
    simp only [Node.ownLabels, Nat.zero_add]
  | @silent node next isSilent => cases node <;> first | rfl | cases isSilent
  | nil => rfl
  | @cons node rest next first others middle stop head tail ihHead ihTail =>
    simp only [Work.nodes] at ihHead ihTail ⊢
    rw [labelCount_cons, ihTail, ihHead]
    omega

/-- All labels that are taken from the counter are put somewhere. -/
lemma Lays.length_labels {work : Work} {next stop : Nat} {chunks : List Chunk}
    (h : Lays tables work next chunks stop) : stop = next + (chunkLabels chunks).length := by
  induction h with
  | block inner ih => exact ih
  | assign | effect | returnVoid | returnResult | silent | nil => rfl
  | ifThen emitted inner ih =>
    simp [ih]
    omega
  | ifElse emitted onTrue onFalse ihTrue ihFalse =>
    simp [ihFalse, ihTrue]
    omega
  | whileLoop emitted inner ih =>
    simp [ih]
    omega
  | forLoop before emitted inner after ihBefore ihInner ihAfter =>
    simp [ihAfter, ihInner, ihBefore]
    omega
  | returnStatement isStatement inner ih =>
    simp [ih]
    rfl
  | cons head tail ihHead ihTail =>
    simp [ihTail, ihHead]
    omega

/-- The labels of statements are the numbers that the counter goes through. -/
theorem Lays.perm_range' {work : Work} {next stop : Nat} {chunks : List Chunk}
    (h : Lays tables work next chunks stop) :
    (chunkLabels chunks).Perm (List.range' next (labelCount work.nodes)) := by
  have hfresh := h.fresh
  have hlength := h.length_labels
  have hstop := h.stop_eq
  have hsub : chunkLabels chunks ⊆ List.range' next (labelCount work.nodes) := by
    intro label hlabel
    have := hfresh.between label hlabel
    rw [List.mem_range'_1]
    omega
  refine (hfresh.nodup.subperm hsub).perm_of_length_le ?_
  rw [List.length_range']
  omega

/-! ## Jumps -/

/-- Where a line may jump to. -/
def targetName? : Line → Option Nat
  | .jmp target | .je target => some target
  | _ => none

/-- The labels that lines jump to. -/
def targets (lines : List Line) : List Nat := lines.filterMap targetName?

@[simp] lemma targets_append (first second : List Line) :
    targets (first ++ second) = targets first ++ targets second := List.filterMap_append

lemma targets_plain (code : List Instr) : targets (plain code) = [] := by
  simp [targets, plain, targetName?]

/-- The jumps of chunks are chunks. -/
lemma mem_targets_chunkLines {chunks : List Chunk} {target : Nat}
    (h : target ∈ targets (chunkLines chunks).erase) :
    .jump target ∈ chunks ∨ .branch target ∈ chunks := by
  induction chunks with
  | nil => cases h
  | cons chunk rest ih =>
    rw [chunkLines_cons, Counted.erase_append, targets_append, List.mem_append] at h
    rcases h with h | h
    · cases chunk with
      | action action code =>
        rw [Chunk.lines, Counted.erase_plain, targets_plain] at h
        cases h
      | jump name =>
        obtain rfl : target = name := List.mem_singleton.mp h
        exact .inl (List.mem_cons_self ..)
      | branch name =>
        obtain rfl : target = name := List.mem_singleton.mp h
        exact .inr (List.mem_cons_self ..)
      | label | zero | leave => cases h
    · exact (ih h).imp (List.mem_cons_of_mem _) (List.mem_cons_of_mem _)

/-- A routine jumps to its own labels only. -/
theorem Function.targets_subset {function : Function} {frame next : Nat} {code : Code}
    (h : function.code tables frame next = .ok code) : targets code.lines ⊆ labels code.lines := by
  obtain ⟨counted, spills, chunks, -, rfl, -, hchunks, hlines⟩ := Function.code_lays h
  rw [Counted.Code.erase, hlines, Counted.erase_append, Counted.erase_level, targets_append,
    labels_append, targets_plain, labels_plain, labels_chunkLines]
  intro target htarget
  have hlabel : .label target ∈ chunks := by
    refine hchunks.target ?_
    have hmem := mem_targets_chunkLines htarget
    simp only [List.mem_append, Function.ending] at hmem
    cases hzero : function.exitsZero <;> simpa [hzero, GoesTo] using hmem
  rw [List.nil_append, chunkLabels_append]
  exact List.mem_append_left _ (List.mem_filterMap.mpr ⟨_, hlabel, rfl⟩)

/-! ## Programs -/

/-- What is true of the labels of the routines for these bodies. -/
structure Numbered (bodies : List (List Node)) (assembly : Assembly) : Prop where
  /-- The counter has gone on by the labels of the bodies. -/
  count_eq : assembly.labels = (bodies.map labelCount).sum
  /-- The labels are the numbers below the counter, each of them once. -/
  perm : (assembly.routines.flatMap fun routine => labels routine.lines).Perm
    (List.range assembly.labels)
  /-- Every routine jumps to its own labels only. -/
  closed : ∀ routine ∈ assembly.routines, targets routine.lines ⊆ labels routine.lines

namespace Numbered

variable {bodies : List (List Node)} {assembly assembly' : Assembly} {ws ws' : Workspace}

lemma empty : Numbered [] {} := ⟨rfl, .refl _, by simp⟩

/-- Adding a function goes on with the numbers. -/
theorem addFunction {function : Function} (h : Numbered bodies assembly)
    (hrun : Lowering.addFunction assembly function ws = .ok assembly' ws') :
    Numbered (bodies ++ [function.body]) assembly' := by
  obtain ⟨used, ws₁, code, -, -, hcode, hroutines, hlabels, -⟩ := addFunction_run hrun
  obtain ⟨chunks, hchunks, heq⟩ := Function.labels_eq hcode
  have hstop : code.next = assembly.labels + labelCount function.body := hchunks.stop_eq
  refine ⟨?count, ?perm, ?closed⟩
  case count =>
    rw [hlabels, hstop, h.count_eq]
    simp
  case perm =>
    have hrange : List.range assembly'.labels = List.range assembly.labels ++
        List.range' assembly.labels (labelCount function.body) := by
      rw [hlabels, hstop, List.range_eq_range', List.range_eq_range', List.range'_append_1.symm]
      simp
    rw [hroutines, hrange, List.flatMap_append, List.flatMap_singleton, heq]
    exact h.perm.append hchunks.perm_range'
  case closed =>
    intro routine hroutine
    rw [hroutines, List.mem_append, List.mem_singleton] at hroutine
    rcases hroutine with hroutine | rfl
    · exact h.closed routine hroutine
    · exact Function.targets_subset hcode

/-- Adding items goes on with the numbers, function by function. -/
theorem adds {items : List Node} (h : Numbered bodies assembly)
    (hadds : Adds tables items assembly ws assembly' ws') :
    Numbered (bodies ++
      (items.filterMap (Program.definition? tables.symbols)).map (·.2.body)) assembly' := by
  induction hadds generalizing bodies with
  | nil => simpa using h
  | externDecl others ih => exact ih ⟨h.count_eq, h.perm, h.closed⟩
  | functionDef add same frame kept others ih =>
    have hgo := ih (h.addFunction add)
    rwa [List.append_assoc] at hgo
  | typedefDecl others ih => exact ih h
  | statement isStatement others ih =>
    rw [List.filterMap_cons_none (definition?_of_isStatement isStatement)]
    exact ih h

end Numbered

/-- The labels of a program are the numbers below the last value of the counter, and every routine
jumps to its own labels only. -/
theorem generate_numbered {program : Program} {ws ws' : Workspace} {assembly : Assembly}
    (analyzed : program.Analyzed ws.toTables)
    (hrun : generate program ws = .ok assembly ws') :
    Numbered ((program.functions ws.symbols).map (·.2.body)) assembly := by
  obtain ⟨assembly₁, ws₁, hitems, hend⟩ := generate_run analyzed hrun
  have hnumbered := Numbered.empty.adds hitems
  rcases hend with ⟨-, hunits, rfl, -⟩ | ⟨-, hunits, ws₂, hstart, -⟩
  · rw [hunits]
    exact hnumbered
  · rw [hunits, List.map_append]
    exact hnumbered.addFunction hstart

end Lowering

end ParenC
