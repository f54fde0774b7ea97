/-
The tree of a program, seen through the direct parts of its nodes.

Most facts about trees hold of a node as soon as they hold of its parts, whatever the construct.
`Node.parts` lists the parts in the order of the text, `Node.induction` is the induction that
goes with it, and the traversals of the tree are described by it.
-/
import Mathlib.Tactic.Common
import ParenC.Lowering.Frame
import ParenC.Typing.Check

namespace ParenC

namespace Node

/-- The nodes directly below a node, in the order of the text. -/
def parts : Node → List Node
  | binary _ _ lhs rhs => [lhs, rhs]
  | block _ body => body
  | functionDef _ _ _ body => body
  | call _ _ args => args
  | ifThen _ cond body => cond :: body
  | ifElse _ cond thenBody elseBody => cond :: (thenBody ++ elseBody)
  | whileLoop _ cond body => cond :: body
  | forLoop _ init cond step body => init :: cond :: step :: body
  | cast _ _ operand => [operand]
  | returnValue _ value _ => [value]
  | _ => []

/-- The parts of a node that are lowered as statements. -/
def statementParts : Node → List Node
  | block _ body => body
  | functionDef _ _ _ body => body
  | ifThen _ _ body => body
  | ifElse _ _ thenBody elseBody => thenBody ++ elseBody
  | whileLoop _ _ body => body
  | forLoop _ init _ step body => init :: step :: body
  | returnValue _ value _ => [value]
  | _ => []

/-- Whether the node defines a function. -/
def isFunction : Node → Bool
  | functionDef .. => true
  | _ => false

/-- The function that the node declares or defines. -/
def function? : Node → Option SymbolId
  | functionDef _ symbol? _ _ | externDecl _ symbol? => symbol?
  | _ => none

lemma sizeOf_lt_of_mem_parts {node part : Node} (h : part ∈ node.parts) :
    sizeOf part < sizeOf node := by
  have mem_lt : ∀ {nodes : List Node}, part ∈ nodes → sizeOf part < sizeOf nodes :=
    fun h => List.sizeOf_lt_of_mem h
  cases node with
  | integer | boolean | varDecl | varRef | externDecl | returnVoid | typedefDecl | empty =>
    simp [parts] at h
  | block loc nodes | functionDef loc symbol? params nodes | call loc callee? nodes =>
    have hlt : sizeOf part < sizeOf nodes := mem_lt h
    simp only [block.sizeOf_spec, functionDef.sizeOf_spec, call.sizeOf_spec]
    omega
  | cast loc target inner | returnValue loc inner function =>
    obtain rfl := List.mem_singleton.mp h
    simp only [cast.sizeOf_spec, returnValue.sizeOf_spec]
    omega
  | binary loc op lhs rhs =>
    simp only [parts, List.mem_cons, List.not_mem_nil, or_false] at h
    simp only [binary.sizeOf_spec]
    rcases h with rfl | rfl
    · omega
    · omega
  | ifThen loc cond body | whileLoop loc cond body =>
    simp only [ifThen.sizeOf_spec, whileLoop.sizeOf_spec]
    rcases List.mem_cons.mp h with rfl | h
    · omega
    · have := mem_lt h
      omega
  | ifElse loc cond thenBody elseBody =>
    simp only [ifElse.sizeOf_spec]
    rcases List.mem_cons.mp h with rfl | h
    · omega
    · rcases List.mem_append.mp h with h | h
      · have := mem_lt h
        omega
      · have := mem_lt h
        omega
  | forLoop loc init cond step body =>
    simp only [parts, List.mem_cons] at h
    simp only [forLoop.sizeOf_spec]
    rcases h with rfl | rfl | rfl | h
    · omega
    · omega
    · omega
    · have := mem_lt h
      omega

/-- What holds of a node as soon as it holds of its parts holds of every node. -/
@[elab_as_elim]
theorem induction {motive : Node → Prop}
    (step : ∀ node, (∀ part ∈ node.parts, motive part) → motive node) (node : Node) :
    motive node :=
  step node fun part _ => induction step part
termination_by sizeOf node
decreasing_by exact sizeOf_lt_of_mem_parts ‹_›

lemma statementParts_subset (node : Node) : node.statementParts ⊆ node.parts := by
  intro part h
  cases node with
  | forLoop loc init cond step body =>
    simp only [statementParts, List.mem_cons] at h
    simp only [parts, List.mem_cons]
    tauto
  | _ => simp_all [statementParts, parts]

/-! ## Traversals -/

lemma checkOrderAll_eq_flatMap (nodes : List Node) :
    checkOrderAll nodes = nodes.flatMap checkOrder := by
  induction nodes with
  | nil => rfl
  | cons node rest ih => rw [checkOrderAll, ih, List.flatMap_cons]

@[simp] lemma mem_checkOrderAll {nodes : List Node} {n : Node} :
    n ∈ checkOrderAll nodes ↔ ∃ node ∈ nodes, n ∈ node.checkOrder := by
  rw [checkOrderAll_eq_flatMap, List.mem_flatMap]

@[simp] lemma checkOrderAll_append (xs ys : List Node) :
    checkOrderAll (xs ++ ys) = checkOrderAll xs ++ checkOrderAll ys := by
  simp [checkOrderAll_eq_flatMap]

/-- A rule is applied to a node and to everything below it. -/
lemma mem_checkOrder {node n : Node} :
    n ∈ node.checkOrder ↔ n = node ∨ n ∈ checkOrderAll node.parts := by
  cases node <;> simp [checkOrder, parts] <;> grind

lemma self_mem_checkOrder (node : Node) : node ∈ node.checkOrder :=
  mem_checkOrder.mpr (Or.inl rfl)

/-- What is below a node that is below others is below them too. -/
lemma checkOrder_trans {node : Node} : ∀ {n m : Node}, n ∈ node.checkOrder → m ∈ n.checkOrder →
    m ∈ node.checkOrder := by
  induction node using Node.induction with
  | step node ih =>
    intro n m hn hm
    rcases mem_checkOrder.mp hn with rfl | hn
    · exact hm
    · obtain ⟨part, hpart, hn⟩ := mem_checkOrderAll.mp hn
      exact mem_checkOrder.mpr
        (Or.inr (mem_checkOrderAll.mpr ⟨part, hpart, ih part hpart hn hm⟩))

lemma checkOrderAll_trans {nodes : List Node} {n m : Node} (hn : n ∈ checkOrderAll nodes)
    (hm : m ∈ n.checkOrder) : m ∈ checkOrderAll nodes := by
  obtain ⟨node, hnode, hn⟩ := mem_checkOrderAll.mp hn
  exact mem_checkOrderAll.mpr ⟨node, hnode, checkOrder_trans hn hm⟩

lemma declaredAll_eq_flatMap (nodes : List Node) :
    declaredAll nodes = nodes.flatMap declared := by
  induction nodes with
  | nil => rfl
  | cons node rest ih => rw [declaredAll, ih, List.flatMap_cons]

@[simp] lemma declaredAll_nil : declaredAll [] = [] := rfl

@[simp] lemma declaredAll_cons (node : Node) (nodes : List Node) :
    declaredAll (node :: nodes) = node.declared ++ declaredAll nodes := rfl

@[simp] lemma declaredAll_append (xs ys : List Node) :
    declaredAll (xs ++ ys) = declaredAll xs ++ declaredAll ys := by
  simp [declaredAll_eq_flatMap]

lemma declared_subset_declaredAll {node : Node} {nodes : List Node} (h : node ∈ nodes) :
    node.declared ⊆ declaredAll nodes := by
  intro id hid
  rw [declaredAll_eq_flatMap]
  exact List.mem_flatMap.mpr ⟨node, h, hid⟩

/-- What a part declares is declared by the node, unless the part belongs to another function. -/
lemma declared_subset {node part : Node} (hpart : part ∈ node.parts)
    (hfunction : node.isFunction = false) : part.declared ⊆ node.declared := by
  have hall : ∀ {nodes : List Node}, part ∈ nodes → part.declared ⊆ declaredAll nodes :=
    declared_subset_declaredAll
  intro id hid
  cases node with
  | functionDef => simp [isFunction] at hfunction
  | binary | cast | returnValue =>
    simp only [parts, List.mem_cons, List.not_mem_nil, or_false] at hpart
    simp only [declared, List.mem_append]
    grind
  | block | call => exact hall hpart hid
  | ifThen | whileLoop | forLoop =>
    simp only [parts, List.mem_cons] at hpart
    simp only [declared, List.mem_append]
    grind
  | ifElse =>
    simp only [parts, List.mem_cons, List.mem_append] at hpart
    simp only [declared, List.mem_append]
    grind
  | _ => simp [parts] at hpart

end Node

end ParenC
