/-
Code for functions and programs.

A program becomes one routine for each function that it defines, in the order of the text.  The
statements of the top level become the routine `main`, which comes last, unless the program
defines `main` itself.
-/
import ParenC.Assembly.Text
import ParenC.Lowering.Frame
import ParenC.Lowering.Statement

namespace ParenC.Lowering

/-- Code that enters a function with a frame of the given size. -/
def prologue (frame : Nat) : List Instr :=
  [.pushq (.reg .rbp), .movq (.reg .rsp) (.reg .rbp)] ++
    if frame = 0 then [] else [.subq (.imm frame) .rsp]

/-- Code that stores the parameters of the function at `loc` in its frame. -/
def spill (tables : Tables) (loc : Location) : List (SymbolId × Reg) → Lowered (List Instr)
  | [] => return []
  | (param, reg) :: rest => do
    let target ← slot tables loc param
    return target.store reg :: (← spill tables loc rest)

/-- A function for which code is generated. -/
structure Function where
  /-- The name that calls mention. -/
  name : String
  /-- The place of its definition. -/
  location : Location
  /-- The variables that hold its arguments. -/
  params : List SymbolId
  /-- What it does. -/
  body : List Node
  /-- Whether it ends with the result zero. -/
  exitsZero : Bool

/-- The code of a function whose frame is laid out and has the given size. -/
def Function.code (function : Function) (tables : Tables) (frame next : Nat) : Lowered Code := do
  let spills ← spill tables function.location (function.params.zip Reg.arguments)
  let body ← (bodyCode tables next function.body).run' 0
  let result := if function.exitsZero then [.instr (.movq (.imm 0) (.reg .rax))] else []
  return { body with
    lines := plain (prologue frame ++ spills) ++ body.lines ++ result ++ epilogue }

/-- Lay out the frame of a function and add its code. -/
def addFunction (assembly : Assembly) (function : Function) : CompileM Assembly := do
  if function.params.length > Reg.arguments.length then
    run (.error (.limit function.location (.stackParameters function.name)))
  let used ← placeAll 0 (function.params ++ Node.declaredAll function.body)
  let frame := frameSize used
  let code ← run (function.code (← get).toTables frame assembly.labels)
  CompileM.log (.generated function.name frame)
  return {
    externs := assembly.externs ++ code.externs
    routines := assembly.routines ++ [⟨function.name, code.lines⟩]
    labels := code.next }

/-- Add the functions among the items of the top level, and what the program declares there as
defined elsewhere. -/
def addItems (assembly : Assembly) : List Node → CompileM Assembly
  | [] => return assembly
  | item :: rest => do
    let symbols := (← get).symbols
    let assembly ← match item with
      | .externDecl loc symbol? => do
        let name ← CompileM.promised (functionName symbols loc symbol?)
        pure { assembly with externs := assembly.externs ++ [name] }
      | .functionDef loc symbol? params body => do
        let name ← CompileM.promised (functionName symbols loc symbol?)
        addFunction assembly ⟨name, loc, params, body, false⟩
      | _ => pure assembly
    addItems assembly rest

/-- Generate the code of a program. -/
def generate (program : Program) : CompileM Assembly := do
  let assembly ← addItems {} program.items
  let assembly ←
    if assembly.routines.any (·.name = "main") then pure assembly
    else addFunction assembly ⟨"main", .start, [], program.statements, true⟩
  CompileM.log (.emitted assembly.textLines.length assembly.labels)
  return assembly

end ParenC.Lowering
