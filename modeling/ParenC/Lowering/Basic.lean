/-
What stands in the way of generating code, and the sizes of values in memory.
-/
import ParenC.Assembly
import ParenC.Tree

namespace ParenC

/-- A feature that the backend lacks. -/
inductive Limit
  /-- The function has more parameters than there are registers for them. -/
  | stackParameters (function : String)
  /-- The argument has no register left. -/
  | stackArgument
  /-- The value of the type with the given text does not fit into a register. -/
  | registerValue (type : String)
deriving DecidableEq

/-- The text that reports the limit. -/
def Limit.feature : Limit → String
  | stackParameters function => "'" ++ function ++ "' takes parameters on the stack"
  | stackArgument => "arguments passed on the stack"
  | registerValue type => "values of type " ++ type ++ " in registers"

/-- Why there is no code for a node. -/
inductive Obstacle
  /-- The backend lacks a feature that the node at the location needs. -/
  | limit (loc : Location) (limit : Limit)
  /-- The tree is not as promised. -/
  | defect (defect : Defect)
deriving DecidableEq

namespace Lowering

/-- A result, or why there is none. -/
abbrev Lowered := Except Obstacle

/-- Go on with a value that is there as long as the compiler keeps its promises. -/
def promised {α : Type} : Except Defect α → Lowered α
  | .ok a => .ok a
  | .error defect => .error (.defect defect)

/-- Turn an obstacle into a failure of the compilation. -/
def run {α : Type} : Lowered α → CompileM α
  | .ok a => pure a
  | .error (.limit loc limit) => CompileM.notImplemented loc limit.feature
  | .error (.defect defect) => throw (.defect defect)

/-- How many bytes a value takes in the frame. -/
inductive Width
  | byte
  | quad
deriving DecidableEq

/-- The width of values of a type, which the node at `loc` keeps in a register. -/
def width (types : TypeTable) (loc : Location) (type : TypeId) : Lowered Width := do
  match ← promised (types.deepShape type) with
  | .builtin .bool => return .byte
  | .builtin .s64 | .builtin .u64 => return .quad
  | _ => throw (.limit loc (.registerValue (← promised (types.describe type))))

/-- Where a variable lies, and how wide it is. -/
structure Slot where
  /-- The distance below the frame pointer. -/
  offset : Nat
  /-- The number of bytes. -/
  width : Width
deriving DecidableEq

/-- The place of a variable that the node at `loc` mentions. -/
def slot (tables : Tables) (loc : Location) (id : SymbolId) : Lowered Slot := do
  let symbol ← promised (tables.symbols.get id)
  let offset ← promised symbol.offset
  return ⟨offset, ← width tables.types loc (← promised symbol.type)⟩

/-- The code that copies a variable to `%rax`. -/
def Slot.load : Slot → Instr
  | ⟨offset, .byte⟩ => .movzbq (.frame offset) .rax
  | ⟨offset, .quad⟩ => .movq (.frame offset) (.reg .rax)

/-- The code that copies a register to a variable. -/
def Slot.store (src : Reg) : Slot → Instr
  | ⟨offset, .byte⟩ => .movb src offset
  | ⟨offset, .quad⟩ => .movq (.reg src) (.frame offset)

/-- The place of the variable that a node stands for. -/
def storage (tables : Tables) (node : Node) : Lowered Slot :=
  match node with
  | .varRef loc (some id) | .varDecl loc (some id) => slot tables loc id
  | _ => throw (.defect (.notVariable node.location))

/-- The name of the function that a node declares or defines. -/
def functionName (symbols : SymbolTable) (loc : Location) : Option SymbolId → Except Defect String
  | none => .error (.namelessFunction loc)
  | some id => do return (← symbols.get id).name

end Lowering

end ParenC
