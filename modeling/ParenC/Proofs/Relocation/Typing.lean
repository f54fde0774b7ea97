/-
Checking does not look at places.

Types depend on tables and on symbols, so that a rule finds the same violations wherever the text
stands.  It shows them at the place of the node or of one of its parts.
-/
import ParenC.Proofs.Relocation.Basic
import ParenC.Typing.Check

namespace ParenC

variable {g : Location → Location}

namespace Node

lemma isStorage_relocate (node : Node) : (node.relocate g).isStorage = node.isStorage := by
  cases node <;> rfl

lemma type_relocate (symbols : SymbolTable) (node : Node) :
    (node.relocate g).type symbols = node.type symbols := by
  match node with
  | integer loc (.signed v) | integer loc (.unsigned v) => rfl
  | binary loc (.compare op) lhs rhs => rfl
  | binary loc .assign lhs rhs | binary loc (.arith op) lhs rhs =>
    simp only [relocate, type]
    exact type_relocate symbols lhs
  | call loc none args | call loc (some callee) args => rfl
  | boolean .. | block .. | varDecl .. | varRef .. | externDecl .. | functionDef .. | ifThen ..
  | ifElse .. | whileLoop .. | forLoop .. | cast .. | returnVoid .. | returnValue ..
  | typedefDecl .. | empty _ => rfl

lemma deepType_relocate (tables : Tables) (node : Node) :
    (node.relocate g).deepType tables = node.deepType tables := by
  rw [deepType, deepType, type_relocate]

end Node

/-- The finding at another place. -/
def Finding.relocate (g : Location → Location) (finding : Finding) : Finding :=
  (g finding.1, finding.2)

namespace Node

/-- What a rule finds, at other places. -/
def moveFindings (g : Location → Location) (found : Except Defect (List Finding)) :
    Except Defect (List Finding) :=
  List.map (Finding.relocate g) <$> found

lemma moveFindings_bind {α : Type} (x : Except Defect α) (f : α → Except Defect (List Finding)) :
    moveFindings g (x >>= f) = x >>= fun a => moveFindings g (f a) := by
  cases x <;> rfl

lemma moveFindings_pure (findings : List Finding) :
    moveFindings g (pure findings) = pure (findings.map (Finding.relocate g)) := rfl

lemma moveFindings_ite {c : Prop} [Decidable c] (x y : Except Defect (List Finding)) :
    moveFindings g (if c then x else y) = if c then moveFindings g x else moveFindings g y :=
  apply_ite (moveFindings g) c x y

/-- What is found if a condition holds. -/
lemma map_relocate_ite {c : Prop} [Decidable c] (xs ys : List Finding) :
    (if c then xs else ys).map (Finding.relocate g) =
      if c then xs.map (Finding.relocate g) else ys.map (Finding.relocate g) :=
  apply_ite (List.map (Finding.relocate g)) c xs ys

lemma binaryViolations_relocate (tables : Tables) (loc : Location) (op : BinOp) (lhs rhs : Node) :
    binaryViolations tables (g loc) op (lhs.relocate g) (rhs.relocate g) =
      moveFindings g (binaryViolations tables loc op lhs rhs) := by
  simp only [binaryViolations, type_relocate, isStorage_relocate, moveFindings_bind,
    moveFindings_ite, pure_bind, moveFindings_pure, List.map_append, map_relocate_ite,
    List.map_cons, List.map_nil, Finding.relocate]

lemma mapM_type_relocate (symbols : SymbolTable) (args : List Node) :
    (relocateAll g args).mapM (·.type symbols) = args.mapM (·.type symbols) := by
  induction args with
  | nil => rfl
  | cons arg rest ih => rw [relocateAll, List.mapM_cons, List.mapM_cons, ih, type_relocate]

/-- The arguments that have no value are the same ones. -/
lemma voidArguments_relocate (callee : String) (args : List Node) (types : List TypeId) :
    (((relocateAll g args).zip types).filter fun pair => pair.2 = Builtin.void.id).map
        (fun pair => (pair.1.location, Violation.voidArgument callee)) =
      (((args.zip types).filter fun pair => pair.2 = Builtin.void.id).map
        fun pair => (pair.1.location, Violation.voidArgument callee)).map (Finding.relocate g) := by
  rw [relocateAll_eq_map, List.zip_map_left, List.filter_map, List.map_map, List.map_map]
  refine List.map_congr_left fun pair _ => ?_
  simp [Finding.relocate, location_relocate]

lemma callViolations_relocate (tables : Tables) (loc : Location) (callee? : Option SymbolId)
    (args : List Node) : callViolations tables (g loc) callee? (relocateAll g args) =
      moveFindings g (callViolations tables loc callee? args) := by
  cases callee? with
  | none => rfl
  | some callee =>
    simp only [callViolations, moveFindings_bind, mapM_type_relocate]
    refine bind_congr fun symbol => ?_
    cases symbol.kind with
    | localVar | type => rfl
    | function params prototyped external =>
      simp only [moveFindings_bind]
      refine bind_congr fun got => ?_
      simp only [moveFindings_ite, moveFindings_pure, voidArguments_relocate, List.map_cons,
        List.map_nil, Finding.relocate]

lemma conditionViolations_relocate (tables : Tables) (cond : Node) :
    conditionViolations tables (cond.relocate g) =
      moveFindings g (conditionViolations tables cond) := by
  simp only [conditionViolations, type_relocate, moveFindings_bind, moveFindings_pure,
    map_relocate_ite, location_relocate, List.map_cons, List.map_nil, Finding.relocate]

lemma castViolations_relocate (tables : Tables) (loc : Location) (target : TypeId)
    (operand : Node) : castViolations tables (g loc) target (operand.relocate g) =
      moveFindings g (castViolations tables loc target operand) := by
  simp only [castViolations, deepType_relocate, moveFindings_bind, moveFindings_pure,
    List.map_append, map_relocate_ite, List.map_cons, List.map_nil, Finding.relocate]

lemma variableViolations_relocate (tables : Tables) (loc : Location) (symbol? : Option SymbolId) :
    variableViolations tables (g loc) symbol? =
      moveFindings g (variableViolations tables loc symbol?) := by
  simp only [variableViolations, moveFindings_bind, moveFindings_pure, map_relocate_ite,
    List.map_cons, List.map_nil, Finding.relocate]

lemma paramViolations_relocate (types : TypeTable) (loc : Location) (function : String)
    (params : List Param) : paramViolations types (g loc) function params =
      moveFindings g (paramViolations types loc function params) := by
  induction params with
  | nil => rfl
  | cons param rest ih =>
    simp only [paramViolations, ih, moveFindings_bind, moveFindings_pure]
    refine bind_congr fun fits => ?_
    cases paramViolations types loc function rest with
    | error defect => rfl
    | ok others => cases fits <;> rfl

lemma signatureViolations_relocate (tables : Tables) (loc : Location)
    (symbol? : Option SymbolId) : signatureViolations tables (g loc) symbol? =
      moveFindings g (signatureViolations tables loc symbol?) := by
  cases symbol? with
  | none => rfl
  | some id =>
    simp only [signatureViolations, moveFindings_bind]
    refine bind_congr fun symbol => ?_
    cases symbol.kind with
    | localVar | type => rfl
    | function params prototyped external =>
      simp only [paramViolations_relocate, moveFindings_bind, moveFindings_ite, moveFindings_pure,
        pure_bind, List.map_append, map_relocate_ite, List.map_cons, List.map_nil,
        Finding.relocate]
      cases paramViolations tables.types loc symbol.name params <;> rfl

lemma returnViolations_relocate (tables : Tables) (loc : Location) (got : TypeId)
    (function : SymbolId) : returnViolations tables (g loc) got function =
      moveFindings g (returnViolations tables loc got function) := by
  simp only [returnViolations, moveFindings_bind, moveFindings_pure, map_relocate_ite,
    List.map_cons, List.map_nil, Finding.relocate]

/-- A node breaks the same rules at other places. -/
theorem violations_relocate (tables : Tables) (node : Node) :
    (node.relocate g).violations tables = moveFindings g (node.violations tables) := by
  cases node with
  | binary loc op lhs rhs => exact binaryViolations_relocate tables loc op lhs rhs
  | call loc callee? args => exact callViolations_relocate tables loc callee? args
  | ifThen loc cond body | ifElse loc cond thenBody elseBody | whileLoop loc cond body
  | forLoop loc init cond step body => exact conditionViolations_relocate tables cond
  | cast loc target operand => exact castViolations_relocate tables loc target operand
  | varDecl loc symbol? => exact variableViolations_relocate tables loc symbol?
  | functionDef loc symbol? params body => exact signatureViolations_relocate tables loc symbol?
  | externDecl loc symbol? => exact signatureViolations_relocate tables loc symbol?
  | returnVoid loc function => exact returnViolations_relocate tables loc _ function
  | returnValue loc value function =>
    simp only [relocate, violations, type_relocate, location_relocate, moveFindings_bind,
      returnViolations_relocate]
  | _ => rfl

lemma unsupportedCast?_relocate (tables : Tables) (node : Node) :
    (node.relocate g).unsupportedCast? tables = node.unsupportedCast? tables := by
  cases node with
  | cast loc target operand => simp only [relocate, unsupportedCast?, deepType_relocate]
  | _ => rfl

mutual

/-- The order of checking is that of the tree. -/
lemma checkOrder_relocate (node : Node) :
    (node.relocate g).checkOrder = node.checkOrder.map (relocate g) := by
  match node with
  | integer .. | boolean .. | varDecl .. | varRef .. | externDecl .. | returnVoid ..
  | typedefDecl .. | empty _ => rfl
  | binary loc op lhs rhs =>
    simp [relocate, checkOrder, checkOrder_relocate lhs, checkOrder_relocate rhs]
  | block loc body => simp [relocate, checkOrder, checkOrderAll_relocate body]
  | functionDef loc symbol? params body =>
    simp [relocate, checkOrder, checkOrderAll_relocate body]
  | call loc callee? args => simp [relocate, checkOrder, checkOrderAll_relocate args]
  | ifThen loc cond body | whileLoop loc cond body =>
    simp [relocate, checkOrder, checkOrder_relocate cond, checkOrderAll_relocate body]
  | ifElse loc cond thenBody elseBody =>
    simp [relocate, checkOrder, checkOrder_relocate cond, checkOrderAll_relocate thenBody,
      checkOrderAll_relocate elseBody]
  | forLoop loc init cond step body =>
    simp [relocate, checkOrder, checkOrder_relocate init, checkOrder_relocate cond,
      checkOrder_relocate step, checkOrderAll_relocate body]
  | cast loc target operand => simp [relocate, checkOrder, checkOrder_relocate operand]
  | returnValue loc value function => simp [relocate, checkOrder, checkOrder_relocate value]

lemma checkOrderAll_relocate (nodes : List Node) :
    checkOrderAll (relocateAll g nodes) = (checkOrderAll nodes).map (relocate g) := by
  match nodes with
  | [] => rfl
  | node :: rest =>
    simp [relocateAll, checkOrderAll, checkOrder_relocate node, checkOrderAll_relocate rest]

end

end Node

namespace Typing

open CompileM

lemma reportAll_moves (types : TypeTable) (findings : List Finding) :
    Moves g id (reportAll types findings)
      (reportAll types (findings.map (Finding.relocate g))) := by
  induction findings with
  | nil => exact .pure
  | cons finding rest ih =>
    exact .bind .promised_same fun message => .bind .report fun _ => ih

lemma checkNode_moves (node : Node) : Moves g id (checkNode node) (checkNode (node.relocate g)) := by
  refine .get fun ws => ?_
  simp only [Workspace.relocate_toTables, Node.violations_relocate, Node.unsupportedCast?_relocate,
    Node.location_relocate]
  have hfound : Moves g (List.map (Finding.relocate g)) (promised (node.violations ws.toTables))
      (promised (Node.moveFindings g (node.violations ws.toTables))) := by
    cases node.violations ws.toTables with
    | ok findings => exact fun _ => .ok
    | error defect => exact fun _ => .defect
  refine .bind hfound fun findings => .bind (reportAll_moves _ findings) fun _ => ?_
  refine .bind .promised_same fun source? => ?_
  cases source? with
  | none => exact .pure
  | some source => exact .bind .promised_same fun description => .notImplemented

lemma checkAll_moves (nodes : List Node) :
    Moves g id (checkAll nodes) (checkAll (nodes.map (Node.relocate g))) := by
  induction nodes with
  | nil => exact .pure
  | cons node rest ih => exact .bind (checkNode_moves node) fun _ => ih

/-- Checking a text that is laid out differently. -/
theorem check_moves (program : Program) :
    Moves g id (check program) (check (program.relocate g)) := by
  rw [check, check, Program.relocate, Node.checkOrderAll_relocate]
  exact checkAll_moves _

end Typing

end ParenC
