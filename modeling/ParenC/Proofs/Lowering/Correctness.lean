/-
The expressions of a program are compiled correctly.

Whatever expression of a function code is generated for, its instructions stand in the routine of
the function, and on every machine whose frame holds the variables of the function they do what
evaluating the expression does.
-/
import ParenC.Proofs.Compilation
import ParenC.Proofs.Lowering.Routine
import ParenC.Proofs.Lowering.Simulation

namespace ParenC

open Lowering

variable {tables : Tables} {owner : Option SymbolId}

/-! ## Expressions with code -/

lemma mem_argumentRuns {args : List Node} {run : Nat × Node} :
    ∀ {depth loaded : Nat}, run ∈ argumentRuns depth loaded args →
      ∃ arg ∈ args, ∃ depth', run ∈ valueRuns depth' arg := by
  induction args with
  | nil => simp [argumentRuns]
  | cons arg rest ih =>
    intro depth loaded hrun
    rw [argumentRuns, List.mem_append] at hrun
    rcases hrun with hrun | hrun
    · exact ⟨arg, by simp, _, hrun⟩
    · obtain ⟨other, hother, depth', hrun⟩ := ih hrun
      exact ⟨other, by simp [hother], depth', hrun⟩

/-- Code for an expression is code for the expression itself or for a part of it. -/
lemma mem_valueRuns {node : Node} {depth : Nat} {run : Nat × Node}
    (h : run ∈ valueRuns depth node) : run.2 = node ∨
      node.isFunction = false ∧ ∃ part ∈ node.parts, ∃ depth', run ∈ valueRuns depth' part := by
  cases node with
  | binary loc op lhs rhs =>
    cases op with
    | assign =>
      rcases List.mem_cons.mp h with rfl | h
      · exact Or.inl rfl
      · exact Or.inr ⟨rfl, rhs, by simp [Node.parts], _, h⟩
    | arith _ | compare _ =>
      rcases List.mem_cons.mp h with rfl | h
      · exact Or.inl rfl
      rcases List.mem_append.mp h with h | h
      · exact Or.inr ⟨rfl, rhs, by simp [Node.parts], _, h⟩
      · exact Or.inr ⟨rfl, lhs, by simp [Node.parts], _, h⟩
  | call loc callee? args =>
    rcases List.mem_cons.mp h with rfl | h
    · exact Or.inl rfl
    · exact Or.inr ⟨rfl, mem_argumentRuns h⟩
  | cast loc target operand =>
    rcases List.mem_cons.mp h with rfl | h
    · exact Or.inl rfl
    · exact Or.inr ⟨rfl, operand, by simp [Node.parts], _, h⟩
  | _ => exact Or.inl (congrArg Prod.snd (List.mem_singleton.mp h))

lemma mem_rootsAll {nodes : List Node} {root : Node} :
    root ∈ Node.rootsAll nodes ↔ ∃ node ∈ nodes, root ∈ node.roots := by
  induction nodes with
  | nil => simp [Node.rootsAll]
  | cons node rest ih => simp [Node.rootsAll, ih]

/-- An expression that a statement has computed is the statement itself or belongs to a part. -/
lemma mem_roots {node root : Node} (h : root ∈ node.roots) : root = node ∨
    node.isFunction = false ∧ ∃ part ∈ node.parts, root = part ∨ root ∈ part.roots := by
  cases node with
  | block loc body =>
    obtain ⟨part, hpart, hroot⟩ := mem_rootsAll.mp h
    exact Or.inr ⟨rfl, part, hpart, Or.inr hroot⟩
  | binary loc op lhs rhs =>
    cases op with
    | assign => exact Or.inr ⟨rfl, rhs, by simp [Node.parts], Or.inl (List.mem_singleton.mp h)⟩
    | arith _ | compare _ => exact Or.inl (List.mem_singleton.mp h)
  | ifThen loc cond body | whileLoop loc cond body =>
    rcases List.mem_cons.mp h with rfl | h
    · exact Or.inr ⟨rfl, _, List.mem_cons_self, Or.inl rfl⟩
    · obtain ⟨part, hpart, hroot⟩ := mem_rootsAll.mp h
      exact Or.inr ⟨rfl, part, List.mem_cons_of_mem _ hpart, Or.inr hroot⟩
  | ifElse loc cond thenBody elseBody =>
    rcases List.mem_cons.mp h with rfl | h
    · exact Or.inr ⟨rfl, _, List.mem_cons_self, Or.inl rfl⟩
    rcases List.mem_append.mp h with h | h
    · obtain ⟨part, hpart, hroot⟩ := mem_rootsAll.mp h
      exact Or.inr ⟨rfl, part, by simp [Node.parts, hpart], Or.inr hroot⟩
    · obtain ⟨part, hpart, hroot⟩ := mem_rootsAll.mp h
      exact Or.inr ⟨rfl, part, by simp [Node.parts, hpart], Or.inr hroot⟩
  | forLoop loc init cond step body =>
    rcases List.mem_append.mp h with h | h
    · exact Or.inr ⟨rfl, init, by simp [Node.parts], Or.inr h⟩
    rcases List.mem_cons.mp h with rfl | h
    · exact Or.inr ⟨rfl, _, by simp [Node.parts], Or.inl rfl⟩
    rcases List.mem_append.mp h with h | h
    · obtain ⟨part, hpart, hroot⟩ := mem_rootsAll.mp h
      exact Or.inr ⟨rfl, part, by simp [Node.parts, hpart], Or.inr hroot⟩
    · exact Or.inr ⟨rfl, step, by simp [Node.parts], Or.inr h⟩
  | returnValue loc value function =>
    refine Or.inr ⟨rfl, value, by simp [Node.parts], ?_⟩
    rw [Node.roots] at h
    split at h
    · exact Or.inl (List.mem_singleton.mp h)
    · exact Or.inr h
  | integer | boolean | varRef | call | cast => exact Or.inl (List.mem_singleton.mp h)
  | functionDef | externDecl | varDecl | typedefDecl | returnVoid | empty =>
    simp [Node.roots] at h

/-- Everything for which code is generated on the way to the code of an expression is usable. -/
lemma Node.Usable.run {node : Node} (h : node.Usable tables owner) :
    ∀ {depth : Nat}, ∀ run ∈ valueRuns depth node, run.2.Usable tables owner := by
  induction node using Node.induction with
  | step node ih =>
    intro depth run hrun
    rcases mem_valueRuns hrun with heq | ⟨hfunction, part, hpart, depth', hrun⟩
    · rw [heq]
      exact h
    · exact ih part hpart (h.part hpart hfunction) run hrun

/-- So are the expressions of a statement. -/
lemma Node.Usable.root {node : Node} (h : node.Usable tables owner) :
    ∀ root ∈ node.roots, root.Usable tables owner := by
  induction node using Node.induction with
  | step node ih =>
    intro root hroot
    rcases mem_roots hroot with rfl | ⟨hfunction, part, hpart, rfl | hroot⟩
    · exact h
    · exact h.part hpart hfunction
    · exact ih part hpart (h.part hpart hfunction) root hroot

/-- The statements of a function are usable. -/
lemma Lowering.Compilable.usable_statement {function : Function}
    (h : Compilable tables owner function) : ∀ node ∈ function.body, node.Usable tables owner := by
  intro node hnode
  refine ⟨h.checked node hnode, fun id hid => SymbolTable.mem_locals.mp ?_⟩
  rw [h.locals, Function.variables, Node.declaredAll_eq_flatMap]
  exact List.mem_append_right _ (List.mem_flatMap.mpr ⟨node, hnode, hid⟩)

/-- All expressions of a function for which code is generated are usable. -/
lemma Lowering.Compilable.usable {function : Function} (h : Compilable tables owner function) :
    ∀ run ∈ function.runs, run.2.Usable tables owner := by
  intro run hrun
  obtain ⟨root, hroot, hrun⟩ := List.mem_flatMap.mp hrun
  obtain ⟨node, hnode, hroot⟩ := mem_rootsAll.mp hroot
  exact ((h.usable_statement node hnode).root root hroot).run run hrun

/-! ## Programs -/

/-- The instructions do what evaluating the expression does: on every machine whose frame holds the
variables and whose stack has room for what they may push, whatever the callees answer. -/
def Lowering.Computes (tables : Tables) (owner : Option SymbolId) (used : Nat) (node : Node)
    (code : List Instr) : Prop :=
  ∀ (answers : Nat → Answer) (m : Machine) (s : Store), Represents tables owner used m s →
    8 * code.length ≤ (m.regs .rsp).toNat →
    Agrees (Leaves tables owner used m) (m.run answers code)
      (node.evaluate tables (fun n => (answers n).result) s)

lemma Lowering.Compiled.framed {function : Function} {used next : Nat} {code : Code}
    (h : Compiled tables owner function used next code) (hfits : used < wordCount) :
    Framed tables owner used := by
  refine framed_of_laid h.ready.complete ?_ hfits
  rw [h.locals]
  exact h.laid

/-- A frame that lies in memory is no larger than memory. -/
lemma Lowering.used_lt {m : Machine} {used : Nat}
    (below : (m.regs .rsp).toNat + used ≤ (m.regs .rbp).toNat) : used < wordCount :=
  Nat.lt_of_le_of_lt (Nat.le_trans (Nat.le_add_left _ _) below) (m.regs .rbp).isLt

lemma Lowering.Compiled.computes {function : Function} {used next : Nat} {code : Code}
    (h : Compiled tables owner function used next code) {node : Node}
    (hnode : node.Usable tables owner) {depth : Nat} {part : Counted Instr}
    (hpart : Lowers tables (.value node) depth part) :
    Computes tables owner used node part.erase := by
  intro answers m s hm hroom
  exact hpart.correct h.ready (h.framed (used_lt hm.below)) hnode m s hm hroom

/-- The routine is the code of the function, and for every expression of the function for which code
was generated, the instructions in it compute the value.  Any machine whose stack lies below its
frame holds the variables of some store. -/
def Lowering.HasCorrectExpressions (tables : Tables) (unit : Program.Owned) (routine : Routine) :
    Prop :=
  ∃ placed used next code, Repositioned tables placed ∧
    Compiled placed unit.1 unit.2 used next code ∧ routine = ⟨unit.2.name, code.lines⟩ ∧
    (∀ m : Machine, (m.regs .rsp).toNat + used ≤ (m.regs .rbp).toNat →
      ∃ s, Represents placed unit.1 used m s) ∧
    ∀ run ∈ unit.2.runs, ∃ part, value placed run.2 run.1 = .ok (part, run.1 + 1) ∧
      plain part <:+: routine.lines ∧ Computes placed unit.1 used run.2 part

/-- The expressions of every program that is analyzed and compiled are compiled correctly. -/
theorem expressions_correct {file source : String} {program : Program} {ws ws' : Workspace}
    {assembly : Assembly} (hanalyze : analyze source (.initial file) = .ok program ws)
    (hgenerate : generate program ws = .ok assembly ws') :
    List.Forall₂ (HasCorrectExpressions ws.toTables) (program.functions ws.symbols)
      assembly.routines := by
  refine (generated_routines hanalyze hgenerate).imp ?_
  rintro unit routine ⟨placed, used, next, code, hplaced, hcompiled, rfl⟩
  refine ⟨placed, used, next, code, hplaced, hcompiled, rfl, ?_, ?_⟩
  · intro m hbelow
    exact exists_represents (hcompiled.framed (used_lt hbelow)) hbelow
  · intro run hrun
    obtain ⟨part, hpart, hwithin⟩ := Function.runs_emitted hcompiled.code run hrun
    refine ⟨part.erase, ?_, hwithin, ?_⟩
    · rw [← Counted.erase_value]
      exact map_eq_ok.mpr ⟨part, hpart.emitted, rfl⟩
    · exact hcompiled.computes (hcompiled.usable run hrun) hpart

/-- A program that calls a function while arguments are loaded. -/
theorem expressions_correct_calls : ∃ program ws assembly ws',
    analyze "(exfun f (a: s64 b: s64) s64) (let s64 x) (:= x (f 1 (f x (/ 7 x))))"
      (.initial "calls") = .ok program ws ∧
    generate program ws = .ok assembly ws' ∧
    List.Forall₂ (HasCorrectExpressions ws.toTables) (program.functions ws.symbols)
      assembly.routines := by
  have hcompiles : compiles "calls"
      "(exfun f (a: s64 b: s64) s64) (let s64 x) (:= x (f 1 (f x (/ 7 x))))" = true := by
    decide +kernel
  obtain ⟨program, ws, assembly, ws', hanalyze, hgenerate⟩ := runs_of_compiles hcompiles
  exact ⟨program, ws, assembly, ws', hanalyze, hgenerate, expressions_correct hanalyze hgenerate⟩

end ParenC
