/-
What a construct asks of the backend.

There is a register for each of six arguments, and one for each value.  Whether there is code for a
construct can be read off its tree, as soon as it is known which variables can be loaded into a
register: `Node.WithinLimits` says it of one node, `Node.Feasible` of a node and everything below
it.
-/
import ParenC.Proofs.Lowering.Placement

namespace ParenC

namespace Node

variable {loads : Node → Prop} {node : Node}

/-- Whether the node declares a variable. -/
def isDeclaration : Node → Bool
  | varDecl .. => true
  | _ => false

/-- The parts of a node that it needs the values of.  A variable that is assigned to is not
read. -/
def operands : Node → List Node
  | binary _ .assign _ rhs => [rhs]
  | binary _ _ lhs rhs => [lhs, rhs]
  | call _ _ args => args
  | ifThen _ cond _ | ifElse _ cond _ _ | whileLoop _ cond _ | forLoop _ _ cond _ _ => [cond]
  | cast _ _ operand => [operand]
  | returnValue _ value _ => [value]
  | _ => []

/-- The parts of a node whose values are computed when it runs.  A statement is run for its value
as well, unless it declares a variable. -/
def evaluated (node : Node) : List Node :=
  node.operands ++ node.statementParts.filter fun part => !part.isDeclaration

/-- The arguments of a call. -/
def arguments : Node → List Node
  | call _ _ args => args
  | _ => []

/-- The variable that the node assigns to. -/
def target? : Node → Option Node
  | binary _ .assign lhs _ => some lhs
  | _ => none

/-- The node asks no more of the backend than there is: a register for each argument, and variables
that can be loaded where they are read or assigned to. -/
def WithinLimits (loads : Node → Prop) (node : Node) : Prop :=
  node.arguments.length ≤ Reg.arguments.length ∧
    (∀ part ∈ node.evaluated, part.isStorage = true → loads part) ∧
    ∀ target ∈ node.target?, loads target

/-- So does everything below the node. -/
def Feasible (loads : Node → Prop) (node : Node) : Prop :=
  ∀ n ∈ node.checkOrder, n.WithinLimits loads

/-- There is code for the value of the node. -/
def Readable (loads : Node → Prop) (node : Node) : Prop :=
  (node.isStorage = true → loads node) ∧ node.Feasible loads

/-- There is code for the node as a statement. -/
def Runnable (loads : Node → Prop) (node : Node) : Prop :=
  (node.isDeclaration = false → node.isStorage = true → loads node) ∧ node.Feasible loads

lemma Readable.runnable (h : node.Readable loads) : node.Runnable loads := ⟨fun _ => h.1, h.2⟩

lemma feasible_iff : node.Feasible loads ↔
    node.WithinLimits loads ∧ ∀ part ∈ node.parts, part.Feasible loads := by
  constructor
  · intro h
    refine ⟨h node (self_mem_checkOrder node), fun part hpart n hn => h n ?_⟩
    exact mem_checkOrder.mpr (Or.inr (mem_checkOrderAll.mpr ⟨part, hpart, hn⟩))
  · rintro ⟨hself, hparts⟩ n hn
    rcases mem_checkOrder.mp hn with rfl | hn
    · exact hself
    · obtain ⟨part, hpart, hn⟩ := mem_checkOrderAll.mp hn
      exact hparts part hpart n hn

/-- A part of a node is an operand, a statement, or what is assigned to. -/
lemma mem_parts_iff {part : Node} : part ∈ node.parts ↔
    part ∈ node.operands ∨ part ∈ node.statementParts ∨ part ∈ node.target? := by
  cases node with
  | binary loc op lhs rhs =>
    cases op with
    | assign =>
      simp only [parts, operands, statementParts, target?, List.mem_cons, List.not_mem_nil]
      grind
    | arith | compare => simp [parts, operands, statementParts, target?]
  | forLoop loc init cond step body =>
    simp only [parts, operands, statementParts, target?, List.mem_cons]
    grind
  | _ => simp [parts, operands, statementParts, target?]

lemma feasible_of_isStorage (h : node.isStorage = true) : node.Feasible loads := by
  rw [feasible_iff]
  cases node with
  | varRef | varDecl =>
    simp [WithinLimits, arguments, evaluated, operands, statementParts, target?, parts]
  | _ => simp [isStorage] at h

/-- There is code for a node if there are registers for its arguments, its operands can be read,
its statements can be run, and what it assigns to can be stored. -/
lemma feasible_iff_parts (h : ∀ target ∈ node.target?, target.isStorage = true) :
    node.Feasible loads ↔ node.arguments.length ≤ Reg.arguments.length ∧
      (∀ part ∈ node.operands, part.Readable loads) ∧
      (∀ part ∈ node.statementParts, part.Runnable loads) ∧
      ∀ target ∈ node.target?, loads target := by
  have htarget : ∀ target ∈ node.target?, target.Feasible loads :=
    fun target hmem => feasible_of_isStorage (h target hmem)
  rw [feasible_iff]
  simp only [WithinLimits, mem_parts_iff, evaluated, List.mem_append, List.mem_filter,
    Bool.not_eq_true', Readable, Runnable]
  grind

/-- Only variables are assigned to. -/
lemma Checked.target {tables : Tables} {owner : Option SymbolId} (h : node.Checked tables owner) :
    ∀ target ∈ node.target?, target.isStorage = true := by
  cases node with
  | binary loc op lhs rhs =>
    cases op with
    | assign =>
      obtain ⟨-, -, -, -, -, hstorage⟩ := h.rule
      rintro target ⟨⟩
      exact hstorage rfl
    | arith | compare => simp [target?]
  | _ => simp [target?]

/-- When the value of a construct can be read. -/
lemma Checked.readable_iff {tables : Tables} {owner : Option SymbolId}
    (h : node.Checked tables owner) (hstorage : node.isStorage = false) :
    node.Readable loads ↔ node.arguments.length ≤ Reg.arguments.length ∧
      (∀ part ∈ node.operands, part.Readable loads) ∧
      (∀ part ∈ node.statementParts, part.Runnable loads) ∧
      ∀ target ∈ node.target?, loads target := by
  rw [← feasible_iff_parts h.target, Readable, and_iff_right (by simp [hstorage])]

/-- When a construct can be run. -/
lemma Checked.runnable_iff {tables : Tables} {owner : Option SymbolId}
    (h : node.Checked tables owner) (hstorage : node.isStorage = false) :
    node.Runnable loads ↔ node.arguments.length ≤ Reg.arguments.length ∧
      (∀ part ∈ node.operands, part.Readable loads) ∧
      (∀ part ∈ node.statementParts, part.Runnable loads) ∧
      ∀ target ∈ node.target?, loads target := by
  rw [← feasible_iff_parts h.target, Runnable, and_iff_right (by simp [hstorage])]

/-- A variable can be read if it can be loaded. -/
lemma readable_iff_loads (h : node.isStorage = true) : node.Readable loads ↔ loads node := by
  simp [Readable, h, feasible_of_isStorage h]

end Node

end ParenC
