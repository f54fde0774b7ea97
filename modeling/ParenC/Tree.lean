/-
The tree of a program.

Nodes refer to types and symbols by number and carry the location of the text they were read
from.  A node that declares or mentions a name holds the symbol of that name, unless the name
could not be declared or means nothing suitable; a finding was recorded then.
-/
import ParenC.Literal
import ParenC.Operator
import ParenC.Workspace

namespace ParenC

/-- A construct of a program. -/
inductive Node
  /-- An integer literal. -/
  | integer (loc : Location) (value : IntegerValue)
  /-- A boolean literal. -/
  | boolean (loc : Location) (value : Bool)
  /-- An operator between two operands. -/
  | binary (loc : Location) (op : BinOp) (lhs rhs : Node)
  /-- Statements with a scope of their own. -/
  | block (loc : Location) (body : List Node)
  /-- The declaration of a variable. -/
  | varDecl (loc : Location) (symbol? : Option SymbolId)
  /-- A mention of a variable. -/
  | varRef (loc : Location) (symbol? : Option SymbolId)
  /-- The declaration of a function that is defined elsewhere. -/
  | externDecl (loc : Location) (symbol? : Option SymbolId)
  /-- The definition of a function. -/
  | functionDef (loc : Location) (symbol? : Option SymbolId) (params : List SymbolId)
      (body : List Node)
  /-- A call of a function. -/
  | call (loc : Location) (callee? : Option SymbolId) (args : List Node)
  /-- Statements that run if a condition holds. -/
  | ifThen (loc : Location) (cond : Node) (body : List Node)
  /-- Statements that run if a condition holds, and others that run if it does not. -/
  | ifElse (loc : Location) (cond : Node) (thenBody elseBody : List Node)
  /-- Statements that run as long as a condition holds. -/
  | whileLoop (loc : Location) (cond : Node) (body : List Node)
  /-- A start, then statements and a step as long as a condition holds. -/
  | forLoop (loc : Location) (init cond step : Node) (body : List Node)
  /-- A value turned into a value of another type. -/
  | cast (loc : Location) (target : TypeId) (operand : Node)
  /-- The end of a function without a result. -/
  | returnVoid (loc : Location) (function : SymbolId)
  /-- The end of a function with a result. -/
  | returnValue (loc : Location) (value : Node) (function : SymbolId)
  /-- The declaration of a name for a type. -/
  | typedefDecl (loc : Location) (symbol? : Option SymbolId)
  /-- Nothing. -/
  | empty (loc : Location)

namespace Node

/-- Where the text of the node starts. -/
def location : Node → Location
  | integer loc .. | boolean loc .. | binary loc .. | block loc .. | varDecl loc ..
  | varRef loc .. | externDecl loc .. | functionDef loc .. | call loc .. | ifThen loc ..
  | ifElse loc .. | whileLoop loc .. | forLoop loc .. | cast loc .. | returnVoid loc ..
  | returnValue loc .. | typedefDecl loc .. | empty loc => loc

/-- The symbol that the node declares or mentions. -/
def symbol? : Node → Option SymbolId
  | varDecl _ symbol? | varRef _ symbol? | externDecl _ symbol? | functionDef _ symbol? _ _
  | call _ symbol? _ | typedefDecl _ symbol? => symbol?
  | _ => none

/-- Whether the node stands for a variable. -/
def isStorage : Node → Bool
  | varRef .. | varDecl .. => true
  | _ => false

/-- Whether the code of the node uses no register but `%rax`. -/
def isLeaf : Node → Bool
  | integer .. | boolean .. | varRef .. | varDecl .. | empty _ => true
  | _ => false

/-- Whether the node leaves a value. -/
def isExpression : Node → Bool
  | integer .. | boolean .. | varRef .. | varDecl .. | binary .. | call .. | cast .. => true
  | _ => false

/-- Whether the node is part of the code that runs when the program starts, if it stands at the
top level. -/
def isStatement : Node → Bool
  | functionDef .. | externDecl .. | typedefDecl .. => false
  | _ => true

/-! ## Types -/

/-- The type of the symbol, or `void` if there is no symbol or no type. -/
def symbolType (symbols : SymbolTable) : Option SymbolId → Except Defect TypeId
  | none => .ok Builtin.void.id
  | some id => do return (← symbols.get id).type?.getD Builtin.void.id

/-- The type of the node, under the name that the program gives it. -/
def type (symbols : SymbolTable) : Node → Except Defect TypeId
  | integer _ (.signed _) => .ok Builtin.s64.id
  | integer _ (.unsigned _) => .ok Builtin.u64.id
  | boolean .. => .ok Builtin.bool.id
  | binary _ (.compare _) _ _ => .ok Builtin.bool.id
  | binary _ _ lhs _ => lhs.type symbols
  | varDecl _ symbol? | varRef _ symbol? => symbolType symbols symbol?
  | call _ callee? _ =>
    match callee? with
    | none => .ok Builtin.void.id
    | some id => do
      let symbol ← symbols.get id
      return match symbol.kind with
        | .function .. => symbol.type?.getD Builtin.void.id
        | _ => Builtin.void.id
  | cast _ target _ => .ok target
  | _ => .ok Builtin.void.id

/-- The type of the node with all definitions followed. -/
def deepType (tables : Tables) (node : Node) : Except Defect TypeId := do
  tables.types.resolve (← node.type tables.symbols)

end Node

/-- A program: its top level, in the order of the text. -/
structure Program where
  /-- The constructs at the top level. -/
  items : List Node

namespace Program

/-- The constructs that run when the program starts. -/
def statements (program : Program) : List Node := program.items.filter Node.isStatement

/-- Whether anything runs when the program starts. -/
def hasStatements (program : Program) : Bool := program.items.any Node.isStatement

end Program

end ParenC
