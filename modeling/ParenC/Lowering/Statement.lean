/-
Code for statements.

The code of a statement leaves the stack as it found it; the values on the stack are counted on
all the same, and the statements of a function are held to it.  Labels are handed out in order:
a statement takes its labels from `next` on and says which one is next after it.  A function
that is declared inside of a statement as defined elsewhere is passed on to the head of the
assembly.
-/
import ParenC.Lowering.Value

namespace ParenC.Lowering

/-- The code of statements. -/
structure Code where
  /-- The lines. -/
  lines : List Line
  /-- The functions declared as defined elsewhere. -/
  externs : List String
  /-- The first label that is still free. -/
  next : Nat
deriving DecidableEq

/-- The code of two statements, one after the other. -/
def Code.append (first second : Code) : Code :=
  ⟨first.lines ++ second.lines, first.externs ++ second.externs, second.next⟩

/-- Instructions as lines. -/
def plain (instrs : List Instr) : List Line := instrs.map .instr

/-- Code that leaves the function. -/
def epilogue : List Line :=
  [.instr (.movq (.reg .rbp) (.reg .rsp)), .instr (.popq .rbp), .ret]

/-- Code that computes a value and leaves it in `%rax`. -/
def evaluate (tables : Tables) (node : Node) : Emitting (List Instr) := do
  let code ← value tables node
  return code ++ (← pop .rax)

/-- Code that computes a value and stores it in the variable that `lhs` stands for. -/
def assign (tables : Tables) (lhs rhs : Node) : Emitting (List Instr) := do
  let code ← evaluate tables rhs
  let target ← storage tables lhs
  return code ++ [target.store .rax]

/-- Code that computes a condition and compares it with zero. -/
def test (tables : Tables) (cond : Node) : Emitting (List Instr) := do
  return (← evaluate tables cond) ++ [.cmpq (.imm 0) .rax]

/-- Code that jumps to a label if a condition does not hold. -/
def skipUnless (tables : Tables) (cond : Node) (target : Nat) : Emitting (List Line) := do
  return plain (← test tables cond) ++ [.je target]

mutual

/-- Code for a statement. -/
def statement (tables : Tables) (next : Nat) (node : Node) : Emitting Code :=
  match node with
  | .block _ body => statements tables next body
  | .binary _ .assign lhs rhs => do return ⟨plain (← assign tables lhs rhs), [], next⟩
  | .ifThen _ cond body => do
    let test ← skipUnless tables cond next
    let body ← statements tables (next + 1) body
    return ⟨test ++ body.lines ++ [.label next], body.externs, body.next⟩
  | .ifElse _ cond thenBody elseBody => do
    let test ← skipUnless tables cond next
    let first ← statements tables (next + 1) thenBody
    let second ← statements tables (first.next + 1) elseBody
    return ⟨test ++ first.lines ++ [.jmp first.next, .label next] ++ second.lines ++
      [.label first.next], first.externs ++ second.externs, second.next⟩
  | .whileLoop _ cond body => do
    let test ← skipUnless tables cond (next + 1)
    let body ← statements tables (next + 2) body
    return ⟨[.label next] ++ test ++ body.lines ++ [.jmp next, .label (next + 1)],
      body.externs, body.next⟩
  | .forLoop _ init cond step body => do
    let init ← statement tables (next + 2) init
    let test ← skipUnless tables cond (next + 1)
    let body ← statements tables init.next body
    let step ← statement tables body.next step
    return ⟨init.lines ++ [.label next] ++ test ++ body.lines ++ step.lines ++
      [.jmp next, .label (next + 1)], init.externs ++ body.externs ++ step.externs, step.next⟩
  | .returnVoid .. => return ⟨epilogue, [], next⟩
  | .returnValue _ result _ =>
    if result.isExpression then do
      return ⟨plain (← evaluate tables result) ++ epilogue, [], next⟩
    else do
      let code ← statement tables next result
      return { code with lines := code.lines ++ epilogue }
  | .externDecl loc symbol? => do
    return ⟨[], [← promised (functionName tables.symbols loc symbol?)], next⟩
  | .varDecl .. | .typedefDecl .. | .empty _ => return ⟨[], [], next⟩
  | .functionDef loc .. => throw (.defect (.nestedFunction loc))
  | .integer .. | .boolean .. | .varRef .. | .binary .. | .call .. | .cast .. => do
    return ⟨plain (← evaluate tables node), [], next⟩
termination_by structural node

/-- Code for statements, one after the other. -/
def statements (tables : Tables) (next : Nat) (nodes : List Node) : Emitting Code :=
  match nodes with
  | [] => return ⟨[], [], next⟩
  | node :: rest => do
    let first ← statement tables next node
    return first.append (← statements tables first.next rest)
termination_by structural nodes

end

/-- Code for the statements of a function, none of which may leave values on the stack. -/
def bodyCode (tables : Tables) (next : Nat) : List Node → Emitting Code
  | [] => return ⟨[], [], next⟩
  | node :: rest => do
    let first ← statement tables next node
    if (← get) ≠ 0 then throw (.defect .leftoverValues)
    return first.append (← bodyCode tables first.next rest)

end ParenC.Lowering
