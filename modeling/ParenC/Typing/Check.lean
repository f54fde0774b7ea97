/-
Checking types.

Each node has a rule of its own that looks at the node and the types of its direct children, and
`Node.violations` lists what breaks it.  Checking a program applies the rules of all nodes, in
the order of `Node.checkOrder`: an operand comes before its operator, a condition before the
branches that hang on it, and the signature of a function before its body.  Violations are
recorded and checking goes on; only a cast from a struct, for which there is no code, ends it.
-/
import ParenC.Tree
import ParenC.Typing.Violation

namespace ParenC

/-- A violation and the place that shows it. -/
abbrev Finding := Location × Violation

namespace Node

/-! ## The rules -/

/-- The operands of an operator have one type, which has values and is no struct, and only a
variable can be assigned to. -/
def binaryViolations (tables : Tables) (loc : Location) (op : BinOp) (lhs rhs : Node) :
    Except Defect (List Finding) := do
  let left ← lhs.type tables.symbols
  let right ← rhs.type tables.symbols
  let void := Builtin.void.id
  let agreement ←
    if left ≠ right then pure [(loc, .operandMismatch left right)]
    else if ← tables.types.isStruct left then pure [(loc, .structOperands left)]
    else pure []
  return (if left = void then [(loc, .voidLeft)] else []) ++
    (if right = void then [(loc, .voidRight)] else []) ++
    agreement ++
    (if op = .assign && !lhs.isStorage then [(loc, .notStorage)] else [])

/-- The arguments of a call have the types of the parameters; where there is no signature they
only need to have values. -/
def callViolations (tables : Tables) (loc : Location) (callee? : Option SymbolId)
    (args : List Node) : Except Defect (List Finding) := do
  let some id := callee? | return []
  let symbol ← tables.symbols.get id
  let .function params prototyped _ := symbol.kind | return []
  let got ← args.mapM (·.type tables.symbols)
  if !prototyped then
    return ((args.zip got).filter fun (_, type) => type = Builtin.void.id).map fun (arg, _) =>
      (arg.location, .voidArgument symbol.name)
  let expected := params.map (·.type)
  if got.length ≠ expected.length then return [(loc, .argumentCount got expected)]
  else if got ≠ expected then return [(loc, .argumentTypes symbol.name got expected)]
  else return []

/-- A condition is a boolean. -/
def conditionViolations (tables : Tables) (cond : Node) : Except Defect (List Finding) := do
  let got ← cond.type tables.symbols
  let expected := Builtin.bool.id
  return if got ≠ expected then [(cond.location, .unexpectedType got expected)] else []

/-- A cast neither makes a struct nor starts from something without a value. -/
def castViolations (tables : Tables) (loc : Location) (target : TypeId) (operand : Node) :
    Except Defect (List Finding) := do
  let toStruct ← tables.types.isStruct target
  let source ← operand.deepType tables
  let shape := (← tables.types.get source).shape
  return (if toStruct then [(loc, .castTarget target)] else []) ++
    (if shape = .builtin .void then [(loc, .castSource source)] else [])

/-- A variable has a type with values. -/
def variableViolations (tables : Tables) (loc : Location) (symbol? : Option SymbolId) :
    Except Defect (List Finding) := do
  let type ← tables.types.resolve (← symbolType tables.symbols symbol?)
  return if type = Builtin.void.id then [(loc, .voidVariable type)] else []

/-- Parameters fit into registers. -/
def paramViolations (types : TypeTable) (loc : Location) (function : String) :
    List Param → Except Defect (List Finding)
  | [] => return []
  | param :: rest => do
    let fits ← types.isScalar param.type
    let others ← paramViolations types loc function rest
    return if fits then others
      else (loc, .parameterType param.name function param.type) :: others

/-- Parameters and results fit into registers, and there need not be a result. -/
def signatureViolations (tables : Tables) (loc : Location) (symbol? : Option SymbolId) :
    Except Defect (List Finding) := do
  let some id := symbol? | return []
  let symbol ← tables.symbols.get id
  let .function params _ _ := symbol.kind | return []
  let unfit ← paramViolations tables.types loc symbol.name params
  let result ← symbol.type
  let fits ← if result = Builtin.void.id then pure true else tables.types.isScalar result
  return unfit ++ if fits then [] else [(loc, .resultType symbol.name result)]

/-- What a function ends with has the type that the function returns. -/
def returnViolations (tables : Tables) (loc : Location) (got : TypeId) (function : SymbolId) :
    Except Defect (List Finding) := do
  let expected ← (← tables.symbols.get function).type
  return if got ≠ expected then [(loc, .unexpectedType got expected)] else []

/-- What breaks the rule of the node itself, whatever its children do. -/
def violations (tables : Tables) : Node → Except Defect (List Finding)
  | binary loc op lhs rhs => binaryViolations tables loc op lhs rhs
  | call loc callee? args => callViolations tables loc callee? args
  | ifThen _ cond _ | ifElse _ cond _ _ | whileLoop _ cond _ | forLoop _ _ cond _ _ =>
    conditionViolations tables cond
  | cast loc target operand => castViolations tables loc target operand
  | varDecl loc symbol? => variableViolations tables loc symbol?
  | functionDef loc symbol? _ _ | externDecl loc symbol? => signatureViolations tables loc symbol?
  | returnVoid loc function => returnViolations tables loc Builtin.void.id function
  | returnValue _ value function => do
    returnViolations tables value.location (← value.type tables.symbols) function
  | _ => return []

/-- The struct that the node starts a cast from, if it does. -/
def unsupportedCast? (tables : Tables) : Node → Except Defect (Option TypeId)
  | cast _ _ operand => do
    let source ← operand.deepType tables
    match (← tables.types.get source).shape with
    | .builtin _ => return none
    | _ => return some source
  | _ => return none

/-! ## The order -/

mutual

/-- The node and everything below it, in the order in which the rules are applied. -/
def checkOrder (node : Node) : List Node :=
  match node with
  | binary _ _ lhs rhs => lhs.checkOrder ++ rhs.checkOrder ++ [node]
  | call _ _ args => checkOrderAll args ++ [node]
  | ifThen _ cond body => cond.checkOrder ++ [node] ++ checkOrderAll body
  | ifElse _ cond thenBody elseBody =>
    cond.checkOrder ++ [node] ++ checkOrderAll thenBody ++ checkOrderAll elseBody
  | whileLoop _ cond body => cond.checkOrder ++ [node] ++ checkOrderAll body
  | forLoop _ init cond step body =>
    init.checkOrder ++ cond.checkOrder ++ step.checkOrder ++ [node] ++ checkOrderAll body
  | block _ body => node :: checkOrderAll body
  | cast _ _ operand => operand.checkOrder ++ [node]
  | functionDef _ _ _ body => node :: checkOrderAll body
  | returnValue _ value _ => value.checkOrder ++ [node]
  | _ => [node]
termination_by structural node

/-- The orders of several nodes, one after the other. -/
def checkOrderAll (nodes : List Node) : List Node :=
  match nodes with
  | [] => []
  | node :: rest => node.checkOrder ++ checkOrderAll rest
termination_by structural nodes

end

end Node

namespace Typing

open CompileM

/-- Record violations. -/
def reportAll (types : TypeTable) : List Finding → CompileM Unit
  | [] => return ()
  | (loc, violation) :: rest => do
    report loc (← promised (violation.message types))
    reportAll types rest

/-- Apply the rule of one node. -/
def checkNode (node : Node) : CompileM Unit := do
  let tables := (← get).toTables
  reportAll tables.types (← promised (node.violations tables))
  if let some source ← promised (node.unsupportedCast? tables) then
    let description ← promised (tables.types.describe source)
    notImplemented node.location ("cast from type " ++ description)

/-- Apply the rules of nodes, one after the other. -/
def checkAll : List Node → CompileM Unit
  | [] => return ()
  | node :: rest => do
    checkNode node
    checkAll rest

/-- Check a program. -/
def check (program : Program) : CompileM Unit :=
  checkAll (Node.checkOrderAll program.items)

end Typing

end ParenC
