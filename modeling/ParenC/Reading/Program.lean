/-
Reading whole programs.
-/
import ParenC.Reading.Form

namespace ParenC.Reading

open CompileM

/-- Whether a construct of the top level defines the function `main`. -/
def isEntryPoint (symbols : SymbolTable) : Node → Except Defect Bool
  | .functionDef _ (some id) _ _ => do return (← symbols.get id).name = "main"
  | _ => .ok false

/-- The place of the last function among the items that is called `main`. -/
def entryPoint? (symbols : SymbolTable) : List Node → Except Defect (Option Location)
  | [] => .ok none
  | item :: rest => do
    let here ← isEntryPoint symbols item
    let later? ← entryPoint? symbols rest
    return later? <|> if here then some item.location else none

/-- Read the lists of the top level, one after the other. -/
def topForms : List Datum → CompileM (List Node)
  | [] => return []
  | datum :: rest => do
    let node ← form .topLevel datum
    return node :: (← topForms rest)

/-- Read a program from its tokens. -/
def program (tokens : List Token) : CompileM Program := do
  let top := Remainder.ofStream (.ofTokens tokens)
  let items ← topForms top.items
  if top.closing.kind ≠ .eof then refuseFor .lparen top.closing
  let program : Program := ⟨items⟩
  if let some loc ← promised (entryPoint? (← get).symbols items) then
    if program.hasStatements then complain loc .mainAndStatements
  let ws ← get
  if ws.symbols.depth ≠ 1 then throw (.defect .unbalancedScopes)
  log (.parsed items.length ws.symbols.size ws.types.size)
  return program

end ParenC.Reading
