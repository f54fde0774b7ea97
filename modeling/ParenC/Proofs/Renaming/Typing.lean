/-
Checking looks at names only to tell of them.

A rule compares types, and these are numbers.  So a node breaks the same rules when everything has
another name, and what is found shows the other names.
-/
import ParenC.Proofs.Renaming.Basic
import ParenC.Typing.Check

namespace ParenC

variable {f : String → String}

/-! ## Violations -/

/-- The violation with other names for functions and parameters. -/
def Violation.rename (f : String → String) : Violation → Violation
  | voidArgument callee => voidArgument (f callee)
  | argumentTypes callee got expected => argumentTypes (f callee) got expected
  | parameterType param function type => parameterType (f param) (f function) type
  | resultType function type => resultType (f function) type
  | violation => violation

/-- A violation that can be told of can be told of with other names. -/
lemma Violation.message_answers (types : TypeTable) (violation : Violation) :
    Answers (violation.message types) ((violation.rename f).message (types.rename f)) := by
  have htype := types.describe_answers (f := f)
  have htypes := types.describeAll_answers (f := f)
  cases violation with
  | notStorage => exact .pure
  | operandMismatch lhs rhs => exact .bind (htype lhs) fun _ _ => .bind (htype rhs) fun _ _ => .pure
  | argumentCount got expected | argumentTypes callee got expected =>
    exact .bind (htypes got) fun _ _ => .bind (htypes expected) fun _ _ => .pure
  | unexpectedType got expected =>
    exact .bind (htype expected) fun _ _ => .bind (htype got) fun _ _ => .pure
  | voidLeft | voidRight | voidArgument callee => exact .bind (htype _) fun _ _ => .pure
  | structOperands type | castTarget type | castSource type | voidVariable type
  | parameterType param function type | resultType function type =>
    exact .bind (htype type) fun _ _ => .pure

/-- The finding with other names. -/
def Finding.rename (f : String → String) (finding : Finding) : Finding :=
  (finding.1, finding.2.rename f)

namespace Node

/-! ## Types of nodes -/

lemma symbolType_rename (symbols : SymbolTable) (symbol? : Option SymbolId) :
    symbolType (symbols.rename f) symbol? = symbolType symbols symbol? := by
  cases symbol? with
  | none => rfl
  | some id =>
    rw [symbolType, symbolType, SymbolTable.rename_get]
    cases symbols.get id <;> rfl

/-- The type of a node is known by its number. -/
lemma type_rename (symbols : SymbolTable) (node : Node) :
    node.type (symbols.rename f) = node.type symbols := by
  match node with
  | integer loc (.signed v) | integer loc (.unsigned v) => rfl
  | binary loc (.compare op) lhs rhs => rfl
  | binary loc .assign lhs rhs | binary loc (.arith op) lhs rhs => exact type_rename symbols lhs
  | varDecl loc symbol? | varRef loc symbol? => exact symbolType_rename symbols symbol?
  | call loc none args => rfl
  | call loc (some callee) args =>
    rw [type, type, SymbolTable.rename_get]
    rcases symbols.get callee with defect | ⟨name, type?, kind⟩
    · rfl
    · cases kind <;> rfl
  | boolean .. | block .. | externDecl .. | functionDef .. | ifThen .. | ifElse .. | whileLoop ..
  | forLoop .. | cast .. | returnVoid .. | returnValue .. | typedefDecl .. | empty _ => rfl

lemma deepType_rename (tables : Tables) (node : Node) :
    node.deepType (tables.rename f) = node.deepType tables := by
  simp only [deepType, Tables.rename, type_rename, TypeTable.rename_resolve]

/-! ## Rules -/

/-- What is found if a condition holds. -/
lemma map_rename_ite {c : Prop} [Decidable c] (xs ys : List Finding) :
    (if c then xs else ys).map (Finding.rename f) =
      if c then xs.map (Finding.rename f) else ys.map (Finding.rename f) :=
  apply_ite (List.map (Finding.rename f)) c xs ys

lemma binaryViolations_answersAs (tables : Tables) (loc : Location) (op : BinOp) (lhs rhs : Node) :
    AnswersAs (List.map (Finding.rename f)) (binaryViolations tables loc op lhs rhs)
      (binaryViolations (tables.rename f) loc op lhs rhs) := by
  refine .bind (.of_eq (lhs.type_rename _)) fun left => .bind (.of_eq (rhs.type_rename _))
    fun right => .bind (.of_eq (tables.types.rename_isStruct left)) fun isStruct => ?_
  simp only [pure_bind]
  refine .ite Iff.rfl (.pure ?_) (.ite Iff.rfl (.pure ?_) (.pure ?_)) <;>
    simp [map_rename_ite, Finding.rename, Violation.rename]

/-- A call tells of the name that it calls. -/
lemma callViolations_answersAs (tables : Tables) (loc : Location) (callee? : Option SymbolId)
    (args : List Node) : AnswersAs (List.map (Finding.rename f))
      (callViolations tables loc callee? args)
      (callViolations (tables.rename f) loc callee? args) := by
  cases callee? with
  | none => exact .pure rfl
  | some callee =>
    refine .bind (.of_map (tables.symbols.rename_get callee)) fun symbol => ?_
    obtain ⟨name, type?, kind⟩ := symbol
    cases kind with
    | localVar | type => exact .pure rfl
    | function params prototyped external =>
      have htypes : args.mapM (·.type (tables.rename f).symbols) =
          args.mapM (·.type tables.symbols) :=
        congrArg args.mapM (funext fun arg => arg.type_rename tables.symbols)
      have hexpected : (params.map (Param.rename f)).map Param.type = params.map Param.type := by
        simp [Param.rename]
      refine .bind (.of_eq htypes) fun got => .ite Iff.rfl (.pure ?_) ?_
      · simp [Finding.rename, Violation.rename, Symbol.rename]
      · dsimp only [Symbol.rename, SymbolKind.rename]
        rw [hexpected]
        exact .ite Iff.rfl (.pure rfl) (.ite Iff.rfl (.pure rfl) (.pure rfl))

lemma conditionViolations_answersAs (tables : Tables) (cond : Node) :
    AnswersAs (List.map (Finding.rename f)) (conditionViolations tables cond)
      (conditionViolations (tables.rename f) cond) := by
  refine .bind (.of_eq (cond.type_rename _)) fun got => .pure ?_
  simp [map_rename_ite, Finding.rename, Violation.rename]

lemma castViolations_answersAs (tables : Tables) (loc : Location) (target : TypeId)
    (operand : Node) : AnswersAs (List.map (Finding.rename f))
      (castViolations tables loc target operand)
      (castViolations (tables.rename f) loc target operand) := by
  refine .bind (.of_eq (tables.types.rename_isStruct target)) fun toStruct => ?_
  refine .bind (.of_eq (operand.deepType_rename tables)) fun source => ?_
  refine .bind (.of_map (tables.types.rename_get source)) fun info => .pure ?_
  simp [map_rename_ite, Finding.rename, Violation.rename, TypeInfo.rename, Shape.rename_eq_builtin]

lemma variableViolations_answersAs (tables : Tables) (loc : Location)
    (symbol? : Option SymbolId) : AnswersAs (List.map (Finding.rename f))
      (variableViolations tables loc symbol?)
      (variableViolations (tables.rename f) loc symbol?) := by
  refine .bind (.of_eq (symbolType_rename tables.symbols symbol?)) fun type => ?_
  refine .bind (.of_eq (tables.types.rename_resolve type)) fun root => .pure ?_
  simp [map_rename_ite, Finding.rename, Violation.rename]

lemma paramViolations_answersAs (types : TypeTable) (loc : Location) (function : String)
    (params : List Param) : AnswersAs (List.map (Finding.rename f))
      (paramViolations types loc function params)
      (paramViolations (types.rename f) loc (f function) (params.map (Param.rename f))) := by
  induction params with
  | nil => exact .pure rfl
  | cons param rest ih =>
    refine .bind (.of_eq (types.rename_isScalar param.type)) fun fits => .bind ih fun others => ?_
    refine .pure ?_
    cases fits <;> rfl

/-- A signature tells of the function and of its parameters. -/
lemma signatureViolations_answersAs (tables : Tables) (loc : Location)
    (symbol? : Option SymbolId) : AnswersAs (List.map (Finding.rename f))
      (signatureViolations tables loc symbol?)
      (signatureViolations (tables.rename f) loc symbol?) := by
  cases symbol? with
  | none => exact .pure rfl
  | some function =>
    refine .bind (.of_map (tables.symbols.rename_get function)) fun symbol => ?_
    obtain ⟨name, type?, kind⟩ := symbol
    cases kind with
    | localVar | type => exact .pure rfl
    | function params prototyped external =>
      refine .bind (paramViolations_answersAs tables.types loc name params) fun unfit => ?_
      refine .bind (Symbol.type_answersAs ⟨name, type?, .function params prototyped external⟩)
        fun result => ?_
      refine .ite Iff.rfl (.pure ?_)
        (.bind (.of_eq (tables.types.rename_isScalar result)) fun fits => .pure ?_) <;>
        simp [map_rename_ite, Finding.rename, Violation.rename, Symbol.rename]

lemma returnViolations_answersAs (tables : Tables) (loc : Location) (got : TypeId)
    (function : SymbolId) : AnswersAs (List.map (Finding.rename f))
      (returnViolations tables loc got function)
      (returnViolations (tables.rename f) loc got function) := by
  refine .bind (.of_map (tables.symbols.rename_get function)) fun symbol => ?_
  refine .bind symbol.type_answersAs fun expected => .pure ?_
  simp [map_rename_ite, Finding.rename, Violation.rename]

/-- A node breaks the same rules. -/
theorem violations_answersAs (tables : Tables) (node : Node) :
    AnswersAs (List.map (Finding.rename f)) (node.violations tables)
      (node.violations (tables.rename f)) := by
  cases node with
  | binary loc op lhs rhs => exact binaryViolations_answersAs tables loc op lhs rhs
  | call loc callee? args => exact callViolations_answersAs tables loc callee? args
  | ifThen loc cond body | ifElse loc cond thenBody elseBody | whileLoop loc cond body
  | forLoop loc init cond step body => exact conditionViolations_answersAs tables cond
  | cast loc target operand => exact castViolations_answersAs tables loc target operand
  | varDecl loc symbol? => exact variableViolations_answersAs tables loc symbol?
  | functionDef loc symbol? params body => exact signatureViolations_answersAs tables loc symbol?
  | externDecl loc symbol? => exact signatureViolations_answersAs tables loc symbol?
  | returnVoid loc function => exact returnViolations_answersAs tables loc _ function
  | returnValue loc value function =>
    exact .bind (.of_eq (value.type_rename _)) fun got =>
      returnViolations_answersAs tables value.location got function
  | _ => exact .pure rfl

lemma unsupportedCast?_rename (tables : Tables) (node : Node) :
    node.unsupportedCast? (tables.rename f) = node.unsupportedCast? tables := by
  cases node with
  | cast loc target operand =>
    rw [unsupportedCast?, unsupportedCast?, deepType_rename]
    refine bind_congr fun source => ?_
    rw [show (tables.rename f).types = tables.types.rename f from rfl, TypeTable.rename_get]
    rcases tables.types.get source with defect | ⟨shape, size, align⟩
    · rfl
    · cases shape <;> rfl
  | _ => rfl

end Node

namespace Typing

open CompileM

variable {kept : SymbolTable → Prop}

/-- As much is reported, at the same places. -/
lemma reportAll_renames (types : TypeTable) (findings : List Finding) :
    Renames f kept id (reportAll types findings)
      (reportAll (types.rename f) (findings.map (Finding.rename f))) := by
  induction findings with
  | nil => exact .pure
  | cons finding rest ih =>
    exact .answered_bind (finding.2.message_answers types) fun _ _ => .bind .report fun _ => ih

lemma checkNode_renames (node : Node) :
    Renames f kept id (checkNode node) (checkNode node) := by
  refine .get fun ws ws' h => ?_
  rw [h.tables]
  refine .bind (.promised (node.violations_answersAs ws.toTables)) fun findings => ?_
  refine .bind (reportAll_renames ws.types findings) fun _ => ?_
  refine .bind (.promised (.of_eq (node.unsupportedCast?_rename ws.toTables))) fun source? => ?_
  cases source? with
  | none => exact .pure
  | some source =>
    exact .answered_bind (ws.types.describe_answers source) fun _ _ => .notImplemented

lemma checkAll_renames (nodes : List Node) :
    Renames f kept id (checkAll nodes) (checkAll nodes) := by
  induction nodes with
  | nil => exact .pure
  | cons node rest ih => exact .bind (checkNode_renames node) fun _ => ih

/-- Checking a program whose names were replaced. -/
theorem check_renames (program : Program) :
    Renames f kept id (check program) (check program) := checkAll_renames _

end Typing

end ParenC
