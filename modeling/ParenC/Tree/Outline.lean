/-
Outlines of programs: the tree as a dump shows it.
-/
import ParenC.Outline
import ParenC.Tree

namespace ParenC

open Outline

/-- The outline of a location. -/
def Location.outline (loc : Location) : Outline :=
  record "Location" [field "line" (number loc.line), field "column" (number loc.column)]

/-- The outline of the number of a type. -/
def TypeId.outline (id : TypeId) : Outline := tuple "TypeId" [number id.index]

/-- The outline of the number of a symbol. -/
def SymbolId.outline (id : SymbolId) : Outline := tuple "SymbolId" [number id.index]

/-- The outline of a literal. -/
def IntegerValue.outline (value : IntegerValue) : Outline :=
  let shown := match value with
    | signed v => tuple "Signed" [leaf (toString v)]
    | unsigned v => tuple "Unsigned" [number v]
  record "IntegerLiteral" [field "value" shown, field "bits" (number 64)]

/-- The outline of an operator. -/
def BinOp.outline : BinOp → Outline
  | assign => leaf "Assign"
  | arith op => tuple "Arith" [leaf op.name]
  | compare op => tuple "Compare" [leaf op.name]

namespace Node

/-- The outline of a node whose own part is `kind`. -/
def outlineOf (node : Node) (kind : Outline) : Outline :=
  record "Node" [field "location" node.location.outline,
    field "symbol" (optional SymbolId.outline node.symbol?), field "kind" kind]

mutual

/-- The outline of a node. -/
def outline (node : Node) : Outline :=
  match node with
  | integer _ value => node.outlineOf (tuple "Integer" [value.outline])
  | boolean _ value => node.outlineOf (tuple "Boolean" [leaf (if value then "true" else "false")])
  | binary _ op lhs rhs => node.outlineOf (record "BinOp"
      [field "op" op.outline, field "lhs" lhs.outline, field "rhs" rhs.outline])
  | block _ body => node.outlineOf (tuple "Scope" [sequence (outlines body)])
  | varDecl .. => node.outlineOf (leaf "VarDecl")
  | varRef .. => node.outlineOf (leaf "VarRef")
  | externDecl .. => node.outlineOf (leaf "ExternFunctionDecl")
  | functionDef _ _ params body => node.outlineOf (record "FunctionDef"
      [field "params" (sequence (params.map SymbolId.outline)),
        field "body" (sequence (outlines body))])
  | call _ _ args => node.outlineOf (record "FunctionCall"
      [field "args" (sequence (outlines args))])
  | ifThen _ cond body => node.outlineOf (record "If"
      [field "cond" cond.outline, field "then_body" (sequence (outlines body)),
        field "else_body" (leaf "None")])
  | ifElse _ cond thenBody elseBody => node.outlineOf (record "If"
      [field "cond" cond.outline, field "then_body" (sequence (outlines thenBody)),
        field "else_body" (tuple "Some" [sequence (outlines elseBody)])])
  | whileLoop _ cond body => node.outlineOf (record "While"
      [field "cond" cond.outline, field "body" (sequence (outlines body))])
  | forLoop _ init cond step body => node.outlineOf (record "For"
      [field "init" init.outline, field "cond" cond.outline, field "step" step.outline,
        field "body" (sequence (outlines body))])
  | cast _ target operand => node.outlineOf (record "Cast"
      [field "target" target.outline, field "expr" operand.outline])
  | returnVoid _ function => node.outlineOf (record "Return"
      [field "value" (leaf "None"), field "function" function.outline])
  | returnValue _ value function => node.outlineOf (record "Return"
      [field "value" (tuple "Some" [value.outline]), field "function" function.outline])
  | typedefDecl .. => node.outlineOf (leaf "TypedefDecl")
  | empty _ => node.outlineOf (leaf "Empty")
termination_by structural node

/-- The outlines of several nodes. -/
def outlines (nodes : List Node) : List Outline :=
  match nodes with
  | [] => []
  | node :: rest => node.outline :: outlines rest
termination_by structural nodes

end

end Node

/-- The outline of a program. -/
def Program.outline (program : Program) : Outline :=
  record "Program" [field "items" (sequence (Node.outlines program.items))]

end ParenC
