/-
Code generation that writes its counter down.

While code is emitted, the values on the stack are counted, but the code itself does not say what
the counter was.  The functions here emit the same code and put the counter beside each
instruction, as it is at the moment the instruction is emitted.  Forgetting the counters gives
back the generator, so whatever is proved of counted code is proved of the code.
-/
import Mathlib.Tactic.Common
import ParenC.Lowering.Unit

namespace ParenC.Lowering

/-- Pieces of code, each with the number of values on the stack when it was emitted. -/
abbrev Counted (α : Type) := List (Nat × α)

namespace Counted

/-- The code without the counters. -/
def erase {α : Type} (code : Counted α) : List α := code.map Prod.snd

@[simp] lemma erase_nil {α : Type} : erase ([] : Counted α) = [] := rfl

@[simp] lemma erase_cons {α : Type} (depth : Nat) (a : α) (code : Counted α) :
    erase ((depth, a) :: code) = a :: erase code := rfl

@[simp] lemma erase_append {α : Type} (first second : Counted α) :
    erase (first ++ second) = erase first ++ erase second := List.map_append

/-- Pieces of code that were emitted at one count. -/
def level {α : Type} (depth : Nat) (code : List α) : Counted α := code.map (depth, ·)

@[simp] lemma erase_level {α : Type} (depth : Nat) (code : List α) :
    erase (level depth code) = code := by
  induction code with
  | nil => rfl
  | cons a rest ih => exact congrArg (a :: ·) ih

/-! ## Values -/

/-- Emit pieces of code that leave the counter as it is. -/
def emit {α : Type} (code : List α) : Emitting (Counted α) := do
  return level (← get) code

/-- Push a value. -/
def push (src : Operand) : Emitting (Counted Instr) := do
  let code ← emit [.pushq src]
  modify (· + 1)
  return code

/-- Push the value in `%rax`. -/
def pushResult : Emitting (Counted Instr) := push (.reg .rax)

/-- Pop a value; there has to be one. -/
def pop (dst : Reg) : Emitting (Counted Instr) := do
  let code ← emit [.popq dst]
  match ← get with
  | 0 => throw (.defect .emptyStack)
  | depth + 1 =>
    set depth
    return code

/-- Push the values in several registers, one after the other. -/
def pushAll : List Reg → Emitting (Counted Instr)
  | [] => return []
  | reg :: rest => do return (← push (.reg reg)) ++ (← pushAll rest)

/-- Pop values into several registers, one after the other. -/
def popAll : List Reg → Emitting (Counted Instr)
  | [] => return []
  | reg :: rest => do return (← pop reg) ++ (← popAll rest)

/-- Code for a literal. -/
def literal (value : IntegerValue) : Emitting (Counted Instr) := do
  if value.fitsHalf then push (.imm value.word)
  else return (← emit [.movabsq value.word .rax]) ++ (← pushResult)

/-- Code for an arithmetic operator, its left operand in `%rax` and its right one in `%rdi`. -/
def arithmetic (unsigned : Bool) : ArithOp → Emitting (Counted Instr)
  | .add => return (← emit [.addq (.reg .rdi) .rax]) ++ (← pushResult)
  | .sub => return (← emit [.subq (.reg .rdi) .rax]) ++ (← pushResult)
  | .mul => return (← emit [.imulq .rdi .rax]) ++ (← pushResult)
  | .div => return (← emit (division unsigned)) ++ (← pushResult)
  | .mod => return (← emit (division unsigned)) ++ (← push (.reg .rdx))

/-- Code for a comparison, its left operand in `%rax` and its right one in `%rdi`. -/
def comparison (unsigned : Bool) (op : CompareOp) : Emitting (Counted Instr) := do
  let code ← emit
    [.xorq .rsi .rsi, .cmpq (.reg .rdi) .rax, .set (condition unsigned op) .rsi]
  return code ++ (← push (.reg .rsi))

/-- Code for a call whose arguments are in their registers. -/
def callCode (name : String) (returnsBool : Bool) : Emitting (Counted Instr) := do
  let padded := (← get) % 2 = 1
  let before ← emit (if padded then [.subq (.imm 8) .rsp] else [])
  let code ← emit [.movq (.imm 0) (.reg .rax), .call name]
  let after ← emit (if padded then [.addq (.imm 8) .rsp] else [])
  let extended ← emit (if returnsBool then [.movzbq (.reg .rax) .rax] else [])
  return before ++ code ++ after ++ extended ++ (← pushResult)

/-- Code that turns the value on the stack into a boolean. -/
def toBool : Emitting (Counted Instr) := do
  let taken ← pop .rax
  let code ← emit [.cmpq (.imm 0) .rax, .set .notEqual .rax, .movzbq (.reg .rax) .rax]
  return taken ++ code ++ (← pushResult)

mutual

/-- Code that pushes the value of an expression. -/
def value (tables : Tables) (node : Node) : Emitting (Counted Instr) :=
  match node with
  | .integer _ v => literal v
  | .boolean _ b => push (.imm (if b then 1 else 0))
  | .varRef .. | .varDecl .. => do
    let source ← storage tables node
    return (← emit [source.load]) ++ (← pushResult)
  | .binary _ .assign lhs rhs => do
    let code ← value tables rhs
    let taken ← pop .rax
    let target ← storage tables lhs
    return code ++ taken ++ (← emit [target.store .rax]) ++ (← pushResult)
  | .binary _ (.arith op) lhs rhs => do
    let right ← value tables rhs
    let left ← value tables lhs
    let taken ← popAll [.rax, .rdi]
    let unsigned ← promised (isUnsigned tables lhs)
    return right ++ left ++ taken ++ (← arithmetic unsigned op)
  | .binary _ (.compare op) lhs rhs => do
    let right ← value tables rhs
    let left ← value tables lhs
    let taken ← popAll [.rax, .rdi]
    let unsigned ← promised (isUnsigned tables lhs)
    return right ++ left ++ taken ++ (← comparison unsigned op)
  | .call loc callee? args =>
    match callee? with
    | none => throw (.defect (.callWithoutCallee loc))
    | some callee => do
      let loading ← arguments tables [] Reg.arguments args
      let symbol ← promised (tables.symbols.get callee)
      let result ← promised (do tables.types.resolve (← symbol.type))
      return loading ++ (← callCode symbol.name (result = Builtin.bool.id))
  | .cast _ target operand => do
    let code ← value tables operand
    let goal ← promised (tables.types.resolve target)
    let source ← promised (operand.deepType tables)
    if goal = Builtin.bool.id && source ≠ Builtin.bool.id then return code ++ (← toBool)
    else return code
  | _ => throw (.defect (.notExpression node.location))
termination_by structural node

/-- Code that loads arguments into the `free` registers while the `used` ones keep theirs. -/
def arguments (tables : Tables) (used free : List Reg) (args : List Node) :
    Emitting (Counted Instr) :=
  match args with
  | [] => return []
  | arg :: rest =>
    match free with
    | [] => throw (.limit arg.location .stackArgument)
    | reg :: free => do
      let saved := if arg.isLeaf then [] else used
      let saving ← pushAll saved
      let code ← value tables arg
      let taken ← pop reg
      let restoring ← popAll saved.reverse
      let others ← arguments tables (used ++ [reg]) free rest
      return saving ++ code ++ taken ++ restoring ++ others
termination_by structural args

end

/-! ## Statements -/

/-- Instructions as lines. -/
def plain (instrs : Counted Instr) : Counted Line := instrs.map fun (depth, instr) =>
  (depth, .instr instr)

/-- Code that computes a value and leaves it in `%rax`. -/
def evaluate (tables : Tables) (node : Node) : Emitting (Counted Instr) := do
  let code ← value tables node
  return code ++ (← pop .rax)

/-- Code that computes a value and stores it in the variable that `lhs` stands for. -/
def assign (tables : Tables) (lhs rhs : Node) : Emitting (Counted Instr) := do
  let code ← evaluate tables rhs
  let target ← storage tables lhs
  return code ++ (← emit [target.store .rax])

/-- Code that computes a condition and compares it with zero. -/
def test (tables : Tables) (cond : Node) : Emitting (Counted Instr) := do
  return (← evaluate tables cond) ++ (← emit [.cmpq (.imm 0) .rax])

/-- Code that jumps to a label if a condition does not hold. -/
def skipUnless (tables : Tables) (cond : Node) (target : Nat) : Emitting (Counted Line) := do
  return plain (← test tables cond) ++ (← emit [.je target])

/-- The code of statements with counters. -/
structure Code where
  /-- The lines. -/
  lines : Counted Line
  /-- The functions declared as defined elsewhere. -/
  externs : List String
  /-- The first label that is still free. -/
  next : Nat

/-- The code of two statements, one after the other. -/
def Code.append (first second : Code) : Code :=
  ⟨first.lines ++ second.lines, first.externs ++ second.externs, second.next⟩

mutual

/-- Code for a statement. -/
def statement (tables : Tables) (next : Nat) (node : Node) : Emitting Code :=
  match node with
  | .block _ body => statements tables next body
  | .binary _ .assign lhs rhs => do return ⟨plain (← assign tables lhs rhs), [], next⟩
  | .ifThen _ cond body => do
    let test ← skipUnless tables cond next
    let body ← statements tables (next + 1) body
    return ⟨test ++ body.lines ++ (← emit [.label next]), body.externs, body.next⟩
  | .ifElse _ cond thenBody elseBody => do
    let test ← skipUnless tables cond next
    let first ← statements tables (next + 1) thenBody
    let middle ← emit [.jmp first.next, .label next]
    let second ← statements tables (first.next + 1) elseBody
    return ⟨test ++ first.lines ++ middle ++ second.lines ++ (← emit [.label first.next]),
      first.externs ++ second.externs, second.next⟩
  | .whileLoop _ cond body => do
    let head ← emit [.label next]
    let test ← skipUnless tables cond (next + 1)
    let body ← statements tables (next + 2) body
    return ⟨head ++ test ++ body.lines ++ (← emit [.jmp next, .label (next + 1)]),
      body.externs, body.next⟩
  | .forLoop _ init cond step body => do
    let init ← statement tables (next + 2) init
    let head ← emit [.label next]
    let test ← skipUnless tables cond (next + 1)
    let body ← statements tables init.next body
    let step ← statement tables body.next step
    return ⟨init.lines ++ head ++ test ++ body.lines ++ step.lines ++
      (← emit [.jmp next, .label (next + 1)]), init.externs ++ body.externs ++ step.externs,
      step.next⟩
  | .returnVoid .. => do return ⟨← emit epilogue, [], next⟩
  | .returnValue _ result _ =>
    if result.isExpression then do
      return ⟨plain (← evaluate tables result) ++ (← emit epilogue), [], next⟩
    else do
      let code ← statement tables next result
      return { code with lines := code.lines ++ (← emit epilogue) }
  | .externDecl loc symbol? => do
    return ⟨[], [← promised (functionName tables.symbols loc symbol?)], next⟩
  | .varDecl .. | .typedefDecl .. | .empty _ => return ⟨[], [], next⟩
  | .functionDef loc .. => throw (.defect (.nestedFunction loc))
  | .integer .. | .boolean .. | .varRef .. | .binary .. | .call .. | .cast .. => do
    return ⟨plain (← evaluate tables node), [], next⟩
termination_by structural node

/-- Code for statements, one after the other. -/
def statements (tables : Tables) (next : Nat) (nodes : List Node) : Emitting Code :=
  match nodes with
  | [] => return ⟨[], [], next⟩
  | node :: rest => do
    let first ← statement tables next node
    return first.append (← statements tables first.next rest)
termination_by structural nodes

end

/-- Code for the statements of a function, none of which may leave values on the stack. -/
def bodyCode (tables : Tables) (next : Nat) : List Node → Emitting Code
  | [] => return ⟨[], [], next⟩
  | node :: rest => do
    let first ← statement tables next node
    if (← get) ≠ 0 then throw (.defect .leftoverValues)
    return first.append (← bodyCode tables first.next rest)

/-- The code of a function whose frame is laid out and has the given size. -/
def code (function : Function) (tables : Tables) (frame next : Nat) : Lowered Code := do
  let spills ← spill tables function.location (function.params.zip Reg.arguments)
  let whole : Emitting Code := do
    let entry ← emit (Lowering.plain (prologue frame ++ spills))
    let body ← bodyCode tables next function.body
    let result ← emit (if function.exitsZero then [.instr (.movq (.imm 0) (.reg .rax))] else [])
    return { body with lines := entry ++ body.lines ++ result ++ (← emit epilogue) }
  whole.run' 0

/-! ## Forgetting the counters -/

lemma erase_push (src : Operand) : erase <$> push src = Lowering.push src := rfl

lemma erase_pop (dst : Reg) : erase <$> pop dst = Lowering.pop dst := by
  funext depth
  cases depth <;> rfl

lemma erase_pushAll (regs : List Reg) : erase <$> pushAll regs = Lowering.pushAll regs := by
  induction regs with
  | nil => rfl
  | cons reg rest ih => simp [pushAll, Lowering.pushAll, ← ih, ← erase_push]

lemma erase_popAll (regs : List Reg) : erase <$> popAll regs = Lowering.popAll regs := by
  induction regs with
  | nil => rfl
  | cons reg rest ih => simp [popAll, Lowering.popAll, ← ih, ← erase_pop]

lemma erase_literal (v : IntegerValue) : erase <$> literal v = Lowering.literal v := by
  unfold literal Lowering.literal
  split <;> rfl

lemma erase_arithmetic (unsigned : Bool) (op : ArithOp) :
    erase <$> arithmetic unsigned op = Lowering.arithmetic unsigned op := by
  cases op <;> cases unsigned <;> rfl

lemma erase_comparison (unsigned : Bool) (op : CompareOp) :
    erase <$> comparison unsigned op = Lowering.comparison unsigned op := rfl

lemma erase_callCode (name : String) (returnsBool : Bool) :
    erase <$> callCode name returnsBool = Lowering.callCode name returnsBool := by
  funext depth
  show Except.ok (erase (level depth _ ++ level depth _ ++ level depth _ ++ level depth _ ++
    level depth _), depth + 1) = Except.ok (_ ++ _ ++ _ ++ _ ++ _, depth + 1)
  simp only [erase_append, erase_level]

lemma erase_toBool : erase <$> toBool = Lowering.toBool := by
  funext depth
  cases depth <;> rfl

variable {tables : Tables}

mutual

/-- Forgetting the counters gives the code of an expression. -/
theorem erase_value (node : Node) : erase <$> value tables node = Lowering.value tables node := by
  match node with
  | .integer loc v => exact erase_literal v
  | .boolean loc b => rfl
  | .varRef loc symbol? =>
    simp only [value, Lowering.value, map_bind]
    exact bind_congr fun source => rfl
  | .varDecl loc symbol? =>
    simp only [value, Lowering.value, map_bind]
    exact bind_congr fun source => rfl
  | .binary loc .assign lhs rhs =>
    simp only [value, Lowering.value, ← erase_value rhs, ← erase_pop, map_bind, bind_map_left]
    refine bind_congr fun code => bind_congr fun taken => bind_congr fun target => ?_
    funext depth
    show Except.ok (erase (_ ++ _ ++ _ ++ _), _) = Except.ok (_ ++ _ ++ _ ++ _, _)
    simp only [erase_append]
    rfl
  | .binary loc (.arith op) lhs rhs =>
    simp only [value, Lowering.value, ← erase_value rhs, ← erase_value lhs, ← erase_popAll,
      ← erase_arithmetic, map_bind, map_pure, bind_map_left, erase_append]
  | .binary loc (.compare op) lhs rhs =>
    simp only [value, Lowering.value, ← erase_value rhs, ← erase_value lhs, ← erase_popAll,
      ← erase_comparison, map_bind, map_pure, bind_map_left, erase_append]
  | .call loc none args => rfl
  | .call loc (some callee) args =>
    simp only [value, Lowering.value, ← erase_arguments args, ← erase_callCode, map_bind,
      map_pure, bind_map_left, erase_append]
  | .cast loc target operand =>
    simp only [value, Lowering.value, ← erase_value operand, ← erase_toBool, map_bind,
      bind_map_left]
    refine bind_congr fun code => bind_congr fun goal => bind_congr fun source => ?_
    split <;> simp
  | .block .. | .externDecl .. | .functionDef .. | .ifThen .. | .ifElse .. | .whileLoop ..
  | .forLoop .. | .returnVoid .. | .returnValue .. | .typedefDecl .. | .empty _ => rfl

theorem erase_arguments (args : List Node) {used free : List Reg} :
    erase <$> arguments tables used free args = Lowering.arguments tables used free args := by
  match args, free with
  | [], free => rfl
  | arg :: rest, [] => rfl
  | arg :: rest, reg :: free =>
    simp only [arguments, Lowering.arguments, ← erase_value arg, ← erase_arguments rest,
      ← erase_pushAll, ← erase_popAll, ← erase_pop, map_bind, map_pure, bind_map_left,
      erase_append]

end

lemma erase_plain (code : Counted Instr) : erase (plain code) = Lowering.plain (erase code) := by
  simp [erase, plain, Lowering.plain]

lemma erase_evaluate (node : Node) :
    erase <$> evaluate tables node = Lowering.evaluate tables node := by
  simp only [evaluate, Lowering.evaluate, ← erase_value, ← erase_pop, map_bind, map_pure,
    bind_map_left, erase_append]

lemma erase_assign (lhs rhs : Node) :
    erase <$> assign tables lhs rhs = Lowering.assign tables lhs rhs := by
  simp only [assign, Lowering.assign, ← erase_evaluate, map_bind, map_pure, bind_map_left,
    erase_append]
  exact bind_congr fun code => bind_congr fun target => rfl

lemma erase_test (cond : Node) : erase <$> test tables cond = Lowering.test tables cond := by
  simp only [test, Lowering.test, ← erase_evaluate, map_bind, map_pure, bind_map_left,
    erase_append]
  exact bind_congr fun code => rfl

lemma erase_skipUnless (cond : Node) (target : Nat) :
    erase <$> skipUnless tables cond target = Lowering.skipUnless tables cond target := by
  simp only [skipUnless, Lowering.skipUnless, ← erase_test, map_bind, map_pure, bind_map_left,
    erase_append, erase_plain]
  exact bind_congr fun code => rfl

/-- The code without the counters. -/
def Code.erase (code : Code) : Lowering.Code := ⟨code.lines.erase, code.externs, code.next⟩

lemma emit_bind {α β : Type} (code : List α) (next : Counted α → Emitting β) (depth : Nat) :
    (emit code >>= next) depth = next (level depth code) depth := rfl

mutual

/-- Forgetting the counters gives the code of a statement. -/
theorem erase_statement (node : Node) {next : Nat} :
    Code.erase <$> statement tables next node = Lowering.statement tables next node := by
  match node with
  | .block loc body => exact erase_statements body
  | .binary loc .assign lhs rhs =>
    simp only [statement, Lowering.statement, ← erase_assign, map_bind, map_pure, bind_map_left,
      Code.erase, erase_plain]
  | .ifThen loc cond body =>
    simp only [statement, Lowering.statement, ← erase_skipUnless, ← erase_statements body,
      map_bind, map_pure, bind_map_left]
    refine bind_congr fun test => bind_congr fun body => ?_
    funext depth
    -- emitting a line leaves the counter of the stack alone, so the rest starts where it did
    rw [emit_bind]
    simp [Code.erase]
  | .ifElse loc cond thenBody elseBody =>
    simp only [statement, Lowering.statement, ← erase_skipUnless, ← erase_statements thenBody,
      ← erase_statements elseBody, map_bind, map_pure, bind_map_left]
    refine bind_congr fun test => bind_congr fun first => ?_
    funext depth
    rw [emit_bind]
    refine congrFun (bind_congr fun second => ?_) depth
    funext depth
    rw [emit_bind]
    simp [Code.erase]
  | .whileLoop loc cond body =>
    simp only [statement, Lowering.statement, ← erase_skipUnless, ← erase_statements body,
      map_bind, map_pure, bind_map_left]
    funext depth
    rw [emit_bind]
    refine congrFun (bind_congr fun test => bind_congr fun body => ?_) depth
    funext depth
    rw [emit_bind]
    simp [Code.erase]
  | .forLoop loc init cond step body =>
    simp only [statement, Lowering.statement, ← erase_skipUnless, ← erase_statement init,
      ← erase_statement step, ← erase_statements body, map_bind, map_pure, bind_map_left]
    refine bind_congr fun init => ?_
    funext depth
    rw [emit_bind]
    refine congrFun (bind_congr fun test => bind_congr fun body => bind_congr fun step => ?_) depth
    funext depth
    rw [emit_bind]
    simp [Code.erase]
  | .returnVoid loc function => rfl
  | .returnValue loc result function =>
    unfold statement Lowering.statement
    split
    · simp only [← erase_evaluate, map_bind, map_pure, bind_map_left]
      refine bind_congr fun code => ?_
      funext depth
      rw [emit_bind]
      simp [Code.erase, erase_plain]
    · simp only [← erase_statement result, map_bind, map_pure, bind_map_left]
      refine bind_congr fun code => ?_
      funext depth
      rw [emit_bind]
      simp [Code.erase]
  | .externDecl loc symbol? =>
    simp only [statement, Lowering.statement, map_bind, map_pure, Code.erase, erase_nil]
  | .varDecl .. | .typedefDecl .. | .empty _ | .functionDef .. => rfl
  | .integer .. | .boolean .. | .varRef .. | .binary _ (.arith _) .. | .binary _ (.compare _) ..
  | .call .. | .cast .. =>
    simp only [statement, Lowering.statement, ← erase_evaluate, map_bind, map_pure, bind_map_left,
      Code.erase, erase_plain]

theorem erase_statements (nodes : List Node) {next : Nat} :
    Code.erase <$> statements tables next nodes = Lowering.statements tables next nodes := by
  match nodes with
  | [] => rfl
  | node :: rest =>
    simp only [statements, Lowering.statements, ← erase_statement node, ← erase_statements rest,
      map_bind, map_pure, bind_map_left]
    refine bind_congr fun first => bind_congr fun others => ?_
    simp [Code.erase, Code.append, Lowering.Code.append]

end

/-- Forgetting the counters gives the code of the statements of a function. -/
theorem erase_bodyCode (nodes : List Node) {next : Nat} :
    Code.erase <$> bodyCode tables next nodes = Lowering.bodyCode tables next nodes := by
  induction nodes generalizing next with
  | nil => rfl
  | cons node rest ih =>
    simp only [bodyCode, Lowering.bodyCode, ← erase_statement node, ← ih, map_bind,
      bind_map_left]
    refine bind_congr fun first => bind_congr fun depth => ?_
    split
    · rfl
    · simp [Code.erase, Code.append, Lowering.Code.append]

lemma pure_at {α : Type} (a : α) (depth : Nat) :
    (StateT.pure a : Emitting α) depth = .ok (a, depth) := rfl

/-- Forgetting the counters gives the code of a function. -/
theorem erase_code (function : Function) (frame next : Nat) :
    Code.erase <$> code function tables frame next = function.code tables frame next := by
  simp only [code, Function.code, map_bind, ← erase_bodyCode]
  refine bind_congr fun spills => ?_
  rcases hbody : bodyCode tables next function.body 0 with obstacle | ⟨body, depth⟩
  · simp [StateT.run', StateT.map, StateT.bind, emit, hbody, bind, Except.bind, Functor.map,
      Except.map, get, getThe, MonadStateOf.get, StateT.get, pure, pure_at, Except.pure]
  · simp [StateT.run', StateT.map, StateT.bind, emit, hbody, bind, Except.bind, Functor.map,
      Except.map, get, getThe, MonadStateOf.get, StateT.get, pure, pure_at, Except.pure,
      Code.erase]

end Counted

end ParenC.Lowering
