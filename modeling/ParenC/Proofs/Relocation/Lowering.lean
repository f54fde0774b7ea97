/-
Generating code does not look at places.

Code has no places, so that it is the same code.  A place is only told where the backend lacks
something, and then it is the place of a node.  The statements of the top level have one of their
own, as the body of a function that no text defines; it is never told, because that function has no
parameters.
-/
import ParenC.Lowering.Unit
import ParenC.Proofs.Relocation.Typing

namespace ParenC

variable {g : Location → Location} {α β : Type}

namespace Node

lemma isLeaf_relocate (node : Node) : (node.relocate g).isLeaf = node.isLeaf := by
  cases node <;> rfl

lemma isExpression_relocate (node : Node) : (node.relocate g).isExpression = node.isExpression := by
  cases node <;> rfl

mutual

lemma declared_relocate (node : Node) : (node.relocate g).declared = node.declared := by
  match node with
  | integer .. | boolean .. | varDecl .. | varRef .. | externDecl .. | functionDef ..
  | returnVoid .. | typedefDecl .. | empty _ => rfl
  | binary loc op lhs rhs =>
    simp only [relocate, declared, declared_relocate lhs, declared_relocate rhs]
  | block loc body => simp only [relocate, declared, declaredAll_relocate body]
  | call loc callee? args => simp only [relocate, declared, declaredAll_relocate args]
  | ifThen loc cond body | whileLoop loc cond body =>
    simp only [relocate, declared, declared_relocate cond, declaredAll_relocate body]
  | ifElse loc cond thenBody elseBody =>
    simp only [relocate, declared, declared_relocate cond, declaredAll_relocate thenBody,
      declaredAll_relocate elseBody]
  | forLoop loc init cond step body =>
    simp only [relocate, declared, declared_relocate init, declared_relocate cond,
      declared_relocate step, declaredAll_relocate body]
  | cast loc target operand => simp only [relocate, declared, declared_relocate operand]
  | returnValue loc value function => simp only [relocate, declared, declared_relocate value]

lemma declaredAll_relocate (nodes : List Node) :
    declaredAll (relocateAll g nodes) = declaredAll nodes := by
  match nodes with
  | [] => rfl
  | node :: rest =>
    simp only [relocateAll, declaredAll, declared_relocate node, declaredAll_relocate rest]

end

end Node

namespace Lowering

/-! ## Code or an obstacle -/

/-- The second outcome is the first one, with the place of an obstacle moved. -/
inductive Shifted (g : Location → Location) : Lowered α → Lowered α → Prop
  | ok {a : α} : Shifted g (.ok a) (.ok a)
  | limit {loc : Location} {limit : Limit} :
      Shifted g (.error (.limit loc limit)) (.error (.limit (g loc) limit))
  | defect {d d' : Defect} : Shifted g (.error (.defect d)) (.error (.defect d'))

namespace Shifted

lemma bind {x x' : Lowered α} {next next' : α → Lowered β} (h : Shifted g x x')
    (hnext : ∀ a, Shifted g (next a) (next' a)) : Shifted g (x >>= next) (x' >>= next') := by
  cases h with
  | ok => exact hnext _
  | limit => exact .limit
  | defect => exact .defect

lemma pure {a : α} : Shifted g (Pure.pure a : Lowered α) (Pure.pure a) := .ok

lemma promised {x : Except Defect α} : Shifted g (promised x) (promised x) := by
  cases x with
  | ok a => exact .ok
  | error defect => exact .defect

end Shifted

/-- The same for code that counts the values on the stack. -/
def Shifts (g : Location → Location) (act act' : Emitting α) : Prop :=
  ∀ depth, Shifted g (act depth) (act' depth)

namespace Shifts

lemma bind {act act' : Emitting α} {next next' : α → Emitting β} (h : Shifts g act act')
    (hnext : ∀ a, Shifts g (next a) (next' a)) : Shifts g (act >>= next) (act' >>= next') :=
  fun depth => (h depth).bind fun pair => hnext pair.1 pair.2

lemma pure {a : α} : Shifts g (Pure.pure a : Emitting α) (Pure.pure a) := fun _ => .ok

lemma lift {x x' : Lowered α} (h : Shifted g x x') :
    Shifts g (liftM x : Emitting α) (liftM x') := fun _ => h.bind fun _ => .ok

lemma promised {x : Except Defect α} :
    Shifts g (liftM (Lowering.promised x) : Emitting α) (liftM (Lowering.promised x)) :=
  lift .promised

lemma defect {d d' : Defect} :
    Shifts g (throw (.defect d) : Emitting α) (throw (.defect d')) := fun _ => .defect

/-- Looking at the number of values on the stack. -/
lemma get {next next' : Nat → Emitting β} (h : ∀ depth, Shifts g (next depth) (next' depth)) :
    Shifts g (MonadState.get >>= next) (MonadState.get >>= next') := fun depth => h depth depth

lemma ite {c : Prop} [Decidable c] {act₁ act₂ act₁' act₂' : Emitting α} (h₁ : Shifts g act₁ act₁')
    (h₂ : Shifts g act₂ act₂') :
    Shifts g (if c then act₁ else act₂) (if c then act₁' else act₂') := by
  split
  · exact h₁
  · exact h₂

lemma push {src : Operand} : Shifts g (Lowering.push src) (Lowering.push src) := fun _ => .ok

lemma pop {dst : Reg} : Shifts g (Lowering.pop dst) (Lowering.pop dst) := by
  intro depth
  cases depth with
  | zero => exact .defect
  | succ depth => exact .ok

lemma pushAll (regs : List Reg) : Shifts g (Lowering.pushAll regs) (Lowering.pushAll regs) := by
  induction regs with
  | nil => exact pure
  | cons reg rest ih => exact bind push fun _ => bind ih fun _ => pure

lemma popAll (regs : List Reg) : Shifts g (Lowering.popAll regs) (Lowering.popAll regs) := by
  induction regs with
  | nil => exact pure
  | cons reg rest ih => exact bind pop fun _ => bind ih fun _ => pure

end Shifts

variable {tables : Tables}

/-! ## Values -/

lemma slot_shifted (loc : Location) (id : SymbolId) :
    Shifted g (slot tables loc id) (slot tables (g loc) id) := by
  refine .bind .promised fun symbol => .bind .promised fun offset => .bind .promised fun type => ?_
  refine .bind ?_ fun width => .pure
  refine .bind .promised fun shape => ?_
  split
  · exact .pure
  · exact .pure
  · exact .pure
  · exact .bind .promised fun description => .limit

lemma storage_shifted (node : Node) :
    Shifted g (storage tables node) (storage tables (node.relocate g)) := by
  match node with
  | .varRef loc (some id) | .varDecl loc (some id) => exact slot_shifted loc id
  | .varRef loc none | .varDecl loc none => exact .defect
  | .integer .. | .boolean .. | .binary .. | .block .. | .externDecl .. | .functionDef ..
  | .call .. | .ifThen .. | .ifElse .. | .whileLoop .. | .forLoop .. | .cast .. | .returnVoid ..
  | .returnValue .. | .typedefDecl .. | .empty _ => exact .defect

lemma isUnsigned_relocate (node : Node) :
    isUnsigned tables (node.relocate g) = isUnsigned tables node := by
  rw [isUnsigned, isUnsigned, Node.type_relocate]

lemma literal_shifts (value : IntegerValue) : Shifts g (literal value) (literal value) := by
  unfold literal
  split
  · exact .push
  · exact .bind .push fun _ => .pure

lemma arithmetic_shifts (unsigned : Bool) (op : ArithOp) :
    Shifts g (arithmetic unsigned op) (arithmetic unsigned op) := by
  cases op <;> exact .bind .push fun _ => .pure

lemma callCode_shifts (name : String) (returnsBool : Bool) :
    Shifts g (callCode name returnsBool) (callCode name returnsBool) := fun _ => .ok

lemma toBool_shifts : Shifts g toBool toBool :=
  .bind .pop fun _ => .bind .push fun _ => .pure

mutual

theorem value_shifts (node : Node) :
    Shifts g (value tables node) (value tables (node.relocate g)) := by
  match node with
  | .integer loc v => exact literal_shifts v
  | .boolean loc b => exact .push
  | .varRef loc symbol? | .varDecl loc symbol? =>
    exact .bind (.lift (storage_shifted _)) fun _ => .bind .push fun _ => .pure
  | .binary loc .assign lhs rhs =>
    refine .bind (value_shifts rhs) fun code => .bind .pop fun taken => ?_
    exact .bind (.lift (storage_shifted lhs)) fun target => .bind .push fun _ => .pure
  | .binary loc (.arith op) lhs rhs =>
    simp only [Node.relocate, value, isUnsigned_relocate]
    refine .bind (value_shifts rhs) fun right => .bind (value_shifts lhs) fun left => ?_
    refine .bind (.popAll _) fun taken => .bind .promised fun unsigned => ?_
    exact .bind (arithmetic_shifts unsigned op) fun _ => .pure
  | .binary loc (.compare op) lhs rhs =>
    simp only [Node.relocate, value, isUnsigned_relocate]
    refine .bind (value_shifts rhs) fun right => .bind (value_shifts lhs) fun left => ?_
    refine .bind (.popAll _) fun taken => .bind .promised fun unsigned => ?_
    exact .bind (.bind .push fun _ => .pure) fun _ => .pure
  | .call loc none args => exact .defect
  | .call loc (some callee) args =>
    refine .bind (arguments_shifts [] Reg.arguments args) fun loading => ?_
    refine .bind .promised fun symbol => .bind .promised fun result => ?_
    exact .bind (callCode_shifts _ _) fun _ => .pure
  | .cast loc target operand =>
    simp only [Node.relocate, value, Node.deepType_relocate]
    refine .bind (value_shifts operand) fun code => ?_
    refine .bind .promised fun goal => .bind .promised fun source => ?_
    split
    · exact .bind toBool_shifts fun _ => .pure
    · exact .pure
  | .block .. | .externDecl .. | .functionDef .. | .ifThen .. | .ifElse .. | .whileLoop ..
  | .forLoop .. | .returnVoid .. | .returnValue .. | .typedefDecl .. | .empty _ => exact .defect

theorem arguments_shifts (used free : List Reg) (args : List Node) :
    Shifts g (arguments tables used free args)
      (arguments tables used free (Node.relocateAll g args)) := by
  match args, free with
  | [], _ => exact .pure
  | arg :: rest, [] =>
    simp only [Node.relocateAll, arguments, Node.location_relocate]
    exact fun _ => .limit
  | arg :: rest, reg :: free =>
    simp only [Node.relocateAll, arguments, Node.isLeaf_relocate]
    refine .bind (.pushAll _) fun saving => .bind (value_shifts arg) fun code => ?_
    refine .bind .pop fun taken => .bind (.popAll _) fun restoring => ?_
    exact .bind (arguments_shifts (used ++ [reg]) free rest) fun others => .pure

end

/-! ## Statements -/

lemma evaluate_shifts (node : Node) :
    Shifts g (evaluate tables node) (evaluate tables (node.relocate g)) :=
  .bind (value_shifts node) fun _ => .bind .pop fun _ => .pure

lemma assign_shifts (lhs rhs : Node) :
    Shifts g (assign tables lhs rhs) (assign tables (lhs.relocate g) (rhs.relocate g)) :=
  .bind (evaluate_shifts rhs) fun _ => .bind (.lift (storage_shifted lhs)) fun _ => .pure

lemma skipUnless_shifts (cond : Node) (target : Nat) :
    Shifts g (skipUnless tables cond target) (skipUnless tables (cond.relocate g) target) :=
  .bind (.bind (evaluate_shifts cond) fun _ => .pure) fun _ => .pure

lemma functionName_shifted (symbols : SymbolTable) (loc : Location) (symbol? : Option SymbolId) :
    Shifted g (promised (functionName symbols loc symbol?))
      (promised (functionName symbols (g loc) symbol?)) := by
  cases symbol? with
  | none => exact .defect
  | some id => exact .promised

mutual

theorem statement_shifts (next : Nat) (node : Node) :
    Shifts g (statement tables next node) (statement tables next (node.relocate g)) := by
  match node with
  | .block loc body => exact statements_shifts next body
  | .binary loc .assign lhs rhs => exact .bind (assign_shifts lhs rhs) fun _ => .pure
  | .ifThen loc cond body =>
    refine .bind (skipUnless_shifts cond next) fun test => ?_
    exact .bind (statements_shifts (next + 1) body) fun _ => .pure
  | .ifElse loc cond thenBody elseBody =>
    refine .bind (skipUnless_shifts cond next) fun test => ?_
    refine .bind (statements_shifts (next + 1) thenBody) fun first => ?_
    exact .bind (statements_shifts (first.next + 1) elseBody) fun _ => .pure
  | .whileLoop loc cond body =>
    refine .bind (skipUnless_shifts cond (next + 1)) fun test => ?_
    exact .bind (statements_shifts (next + 2) body) fun _ => .pure
  | .forLoop loc init cond step body =>
    refine .bind (statement_shifts (next + 2) init) fun init => ?_
    refine .bind (skipUnless_shifts cond (next + 1)) fun test => ?_
    refine .bind (statements_shifts init.next body) fun body => ?_
    exact .bind (statement_shifts body.next step) fun _ => .pure
  | .returnVoid loc function => exact .pure
  | .returnValue loc result function =>
    simp only [Node.relocate, statement, Node.isExpression_relocate]
    split
    · exact .bind (evaluate_shifts result) fun _ => .pure
    · exact .bind (statement_shifts next result) fun _ => .pure
  | .externDecl loc symbol? =>
    exact .bind (.lift (functionName_shifted tables.symbols loc symbol?)) fun _ => .pure
  | .varDecl .. | .typedefDecl .. | .empty _ => exact .pure
  | .functionDef .. => exact .defect
  | .integer loc v => exact .bind (evaluate_shifts (.integer loc v)) fun _ => .pure
  | .boolean loc b => exact .bind (evaluate_shifts (.boolean loc b)) fun _ => .pure
  | .varRef loc symbol? => exact .bind (evaluate_shifts (.varRef loc symbol?)) fun _ => .pure
  | .binary loc (.arith op) lhs rhs =>
    exact .bind (evaluate_shifts (.binary loc (.arith op) lhs rhs)) fun _ => .pure
  | .binary loc (.compare op) lhs rhs =>
    exact .bind (evaluate_shifts (.binary loc (.compare op) lhs rhs)) fun _ => .pure
  | .call loc callee? args =>
    exact .bind (evaluate_shifts (.call loc callee? args)) fun _ => .pure
  | .cast loc target operand =>
    exact .bind (evaluate_shifts (.cast loc target operand)) fun _ => .pure

theorem statements_shifts (next : Nat) (nodes : List Node) :
    Shifts g (statements tables next nodes)
      (statements tables next (Node.relocateAll g nodes)) := by
  match nodes with
  | [] => exact .pure
  | node :: rest =>
    refine .bind (statement_shifts next node) fun first => ?_
    exact .bind (statements_shifts first.next rest) fun _ => .pure

end

lemma bodyCode_shifts (next : Nat) (nodes : List Node) :
    Shifts g (bodyCode tables next nodes) (bodyCode tables next (Node.relocateAll g nodes)) := by
  induction nodes generalizing next with
  | nil => exact .pure
  | cons node rest ih =>
    refine .bind (statement_shifts next node) fun first => .get fun depth => .ite ?_ ?_
    · exact fun _ => .defect
    · exact .bind (ih first.next) fun _ => .pure

/-! ## Functions and programs -/

/-- The function at another place. -/
def Function.relocate (g : Location → Location) (function : Function) : Function :=
  { function with location := g function.location, body := Node.relocateAll g function.body }

lemma spill_shifted (loc : Location) (pairs : List (SymbolId × Reg)) :
    Shifted g (spill tables loc pairs) (spill tables (g loc) pairs) := by
  induction pairs with
  | nil => exact .pure
  | cons pair rest ih => exact .bind (slot_shifted loc pair.1) fun _ => .bind ih fun _ => .pure

lemma Function.code_shifted (function : Function) (frame next : Nat) :
    Shifted g (function.code tables frame next) ((function.relocate g).code tables frame next) := by
  refine .bind (spill_shifted function.location _) fun spills => .bind ?_ fun body => .pure
  exact (bodyCode_shifts next function.body 0).bind fun _ => .pure

lemma run_moves {x x' : Lowered α} (h : Shifted g x x') : Moves g id (run x) (run x') := by
  cases h with
  | ok => exact .pure
  | limit => exact .notImplemented
  | defect => exact fun _ => .defect

lemma place_moves {used : Nat} {symbol : SymbolId} :
    Moves g id (place used symbol) (place used symbol) := by
  refine .get fun ws => .bind .promised_same fun type => .bind .promised_same fun info => ?_
  exact .bind .promised_same fun symbols => .bind (.set rfl) fun _ => .pure

lemma placeAll_moves (used : Nat) (symbols : List SymbolId) :
    Moves g id (placeAll used symbols) (placeAll used symbols) := by
  induction symbols generalizing used with
  | nil => exact .pure
  | cons symbol rest ih => exact .bind place_moves fun used => ih used

lemma addFunction_moves (assembly : Assembly) (function : Function) :
    Moves g id (addFunction assembly function) (addFunction assembly (function.relocate g)) := by
  simp only [addFunction, Function.relocate, Node.declaredAll_relocate]
  have hadd : Moves g id (do
        let used ← placeAll 0 (function.params ++ Node.declaredAll function.body)
        let frame := frameSize used
        let code ← run (function.code (← get).toTables frame assembly.labels)
        CompileM.log (.generated function.name frame)
        return ({
          externs := assembly.externs ++ code.externs
          routines := assembly.routines ++ [⟨function.name, code.lines⟩]
          labels := code.next } : Assembly)) (do
        let used ← placeAll 0 (function.params ++ Node.declaredAll function.body)
        let frame := frameSize used
        let code ← run ((function.relocate g).code (← get).toTables frame assembly.labels)
        CompileM.log (.generated function.name frame)
        return ({
          externs := assembly.externs ++ code.externs
          routines := assembly.routines ++ [⟨function.name, code.lines⟩]
          labels := code.next } : Assembly)) := by
    refine .bind (placeAll_moves 0 _) fun used => .get fun ws => ?_
    refine .bind (run_moves (function.code_shifted _ assembly.labels)) fun code => ?_
    exact .bind .log fun _ => .pure
  exact .ite Iff.rfl (.bind (run_moves .limit) fun _ => hadd) hadd

lemma functionName_moves (symbols : SymbolTable) (loc : Location) (symbol? : Option SymbolId) :
    Moves g id (CompileM.promised (functionName symbols loc symbol?))
      (CompileM.promised (functionName symbols (g loc) symbol?)) := by
  cases symbol? with
  | none => exact fun _ => .defect
  | some id => exact .promised_same

lemma addItems_moves (assembly : Assembly) (items : List Node) :
    Moves g id (addItems assembly items) (addItems assembly (Node.relocateAll g items)) := by
  induction items generalizing assembly with
  | nil => exact .pure
  | cons item rest ih =>
    refine .get fun ws => ?_
    cases item with
    | externDecl loc symbol? =>
      exact .bind (functionName_moves ws.symbols loc symbol?) fun name => ih _
    | functionDef loc symbol? params body =>
      refine .bind (functionName_moves ws.symbols loc symbol?) fun name => ?_
      exact .bind (addFunction_moves assembly ⟨name, loc, params, body, false⟩) fun assembly => ih _
    | _ => exact ih assembly

/-- A function without parameters never tells where it is defined. -/
lemma addFunction_location (assembly : Assembly) (name : String) (loc loc' : Location)
    (body : List Node) (exitsZero : Bool) :
    addFunction assembly ⟨name, loc, [], body, exitsZero⟩ =
      addFunction assembly ⟨name, loc', [], body, exitsZero⟩ := by
  simp [addFunction, Function.code, spill]

lemma statements_relocate (program : Program) :
    (program.relocate g).statements = Node.relocateAll g program.statements := by
  rw [Program.statements, Program.statements, Program.relocate, Node.relocateAll_eq_map,
    Node.relocateAll_eq_map, List.filter_map]
  congr 1
  exact List.filter_congr fun node _ => Node.isStatement_relocate g node

/-- Generating code for a text that is laid out differently. -/
theorem generate_moves (program : Program) :
    Moves g id (generate program) (generate (program.relocate g)) := by
  refine .bind (addItems_moves {} program.items) fun assembly => ?_
  have hfinish : ∀ assembly : Assembly, Moves g id (do
        CompileM.log (.emitted assembly.textLines.length assembly.labels)
        return assembly) (do
        CompileM.log (.emitted assembly.textLines.length assembly.labels)
        return assembly) := fun assembly => .bind .log fun _ => .pure
  refine .ite Iff.rfl (hfinish assembly) ?_
  have hstart := addFunction_moves (g := g) assembly ⟨"main", .start, [], program.statements, true⟩
  rw [Function.relocate, addFunction_location assembly "main" (g .start) .start] at hstart
  rw [statements_relocate]
  exact .bind hstart fun assembly => hfinish assembly

end Lowering

end ParenC
