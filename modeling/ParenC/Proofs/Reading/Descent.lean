/-
Reading token by token.

The functions of this module read constructs from a cursor: they look at the next tokens, move past
them and call each other, and their loops go round until a closing parenthesis comes up.  Nothing in
their form says that they come to an end.  So they get a depth, which limits how many of their calls
may be nested, a loop calling itself for every further round; a descent that needs more is `none`.
One that has no end is `none` at every depth, and one that ends is the same at all depths that are
great enough.

What is done with a construct once its tokens are known is not said again: it is what the reading
of data does.
-/
import ParenC.Reading.Program
import ParenC.Proofs.Workspace

namespace ParenC

/-- What a descent works on. -/
structure Descent where
  /-- The tokens from the cursor on. -/
  ahead : TokenStream
  /-- The tables and the journal. -/
  ws : Workspace

/-- A step of a descent: it may fail, and the depth may not suffice for it. -/
abbrev DescentM := ExceptT Failure (StateT Descent Option)

namespace TokenStream

/-- The cursor stands at a closing parenthesis. -/
def atClose (stream : TokenStream) : Bool := stream.next.kind == .rparen

/-- The cursor stands at the second branch of a condition. -/
def atElse (stream : TokenStream) : Bool :=
  stream.next.kind == .lparen && (stream.peek 1).is .keyword "else"

/-- The cursor stands after the last statement of the first branch of a condition. -/
def atBranchEnd (stream : TokenStream) : Bool := stream.atClose || stream.atElse

end TokenStream

namespace Descent

open CompileM Reading

variable {α : Type}

/-! ## Steps -/

/-- The depth does not suffice. -/
def tooDeep : DescentM α := ExceptT.mk fun _ => none

/-- Do something that takes no tokens. -/
def work (act : CompileM α) : DescentM α :=
  ExceptT.mk fun st => some (act.outcome st.ws, { st with ws := act.leaves st.ws })

/-- The tokens from the cursor on. -/
def look : DescentM TokenStream := ExceptT.mk fun st => some (.ok st.ahead, st)

/-- Move past the next token.  An end marker stays. -/
def consume : DescentM Token :=
  ExceptT.mk fun st => some (.ok st.ahead.next, { st with ahead := st.ahead.advance })

/-- Move past the next token, which has to be of the given kind. -/
def expect (kind : TokenKind) : DescentM Token := do
  let stream ← look
  match stream.expect kind with
  | .ok _ => consume
  | .error refusal => work (refuse stream.next.location refusal)

/-- Open a scope, do something, and close the scope whatever came of it. -/
def inScope (act : DescentM α) : DescentM α := ExceptT.mk fun st => do
  let opened := st.ws.symbols.openScope
  let (outcome, st) ← act.run.run { st with ws := { st.ws with symbols := opened } }
  match st.ws.symbols.closeScopeAt opened.depth with
  | .ok symbols => return (outcome, { st with ws := { st.ws with symbols } })
  | .error defect => return (.error (.defect defect), st)

/-- A loop from the start of one of its rounds on: unless it stops here, there is this round, and
then the others.  What the loop has read so far comes with the latest first. -/
def turn (stop : TokenStream → Bool) (round others : List α → DescentM (List α))
    (before : List α) : DescentM (List α) := do
  if stop (← look) then return before.reverse
  else others (← round before)

/-- A round that reads one thing more. -/
def push (part : DescentM α) (before : List α) : DescentM (List α) := do
  let node ← part
  return node :: before

/-- Read the parenthesis after a construct. -/
def close (node : Node) : DescentM Node := do
  let _ ← expect .rparen
  return node

/-! ## Types -/

mutual

/-- Read a type. -/
def typeExpr (depth : Nat) : DescentM TypeId :=
  match depth with
  | 0 => tooDeep
  | depth + 1 => do
    let stream ← look
    match stream.next.kind with
    | .typeName => do
      let token ← consume
      work (builtinType token)
    | .ident => do
      let token ← consume
      work (namedType token)
    | .lparen =>
      if (stream.peek 1).is .keyword "struct" then do
        let _ ← expect .lparen
        let _ ← consume
        let fields ← bindings depth true []
        let _ ← expect .rparen
        work (registerType (·.registerStruct (fields.map fun (name, type) => (name.text, type))))
      else work (refuseFor .typeName stream.next)
    | _ => work (refuseFor .typeName stream.next)
termination_by structural depth

/-- Read a name with its type.  If names have to be `distinct`, one that was there before is
reported and left out. -/
def binding (depth : Nat) (distinct : Bool) (before : List (Token × TypeId)) :
    DescentM (List (Token × TypeId)) :=
  match depth with
  | 0 => tooDeep
  | depth + 1 => do
    let name ← expect .ident
    let _ ← expect .colon
    let type ← typeExpr depth
    if distinct && before.any (·.1.text == name.text) then do
      work (complain name.location (.duplicateField name.text))
      return before
    else return (name, type) :: before
termination_by structural depth

/-- Read names with their types up to a closing parenthesis. -/
def bindings (depth : Nat) (distinct : Bool) (before : List (Token × TypeId)) :
    DescentM (List (Token × TypeId)) :=
  match depth with
  | 0 => tooDeep
  | depth + 1 => turn (·.atClose) (binding depth distinct) (bindings depth distinct) before
termination_by structural depth

end

/-- Read the parameters of a function. -/
def params (depth : Nat) : DescentM (List (Token × TypeId)) := do
  let _ ← expect .lparen
  let bound ← bindings depth false []
  let _ ← expect .rparen
  return bound

/-! ## Declarations -/

/-- Read the declaration of a variable from its keyword on. -/
def variableDecl (depth : Nat) (place : Place) (loc : Location) : DescentM Node := do
  let _ ← consume
  let type ← typeExpr depth
  let name ← expect .ident
  let id? ← work (declareVariable place name type)
  return .varDecl loc id?

/-- Read the declaration of a name for a type from its keyword on. -/
def definitionDecl (depth : Nat) (loc : Location) : DescentM Node := do
  let _ ← consume
  let name ← expect .ident
  let target ← typeExpr depth
  let defined ← work (registerType (·.registerDefinition name.text target))
  let id? ← work (declareDefinition name defined)
  return .typedefDecl loc id?

/-- Read the declaration of a function that is defined elsewhere from its keyword on. -/
def externalDecl (depth : Nat) (loc : Location) : DescentM Node := do
  let _ ← consume
  let name ← expect .ident
  let id? ← work (declare name .function)
  if (← look).next.kind = .lparen then do
    let bound ← params depth
    let result ← typeExpr depth
    work (setSignature id? name bound result true true)
    return .externDecl loc id?
  else do
    work (setSignature id? name [] Builtin.void.id false true)
    return .externDecl loc id?

/-! ## Lists -/

mutual

/-- Read a list. -/
def list (depth : Nat) (place : Place) : DescentM Node :=
  match depth with
  | 0 => tooDeep
  | depth + 1 => do
    let opening ← expect .lparen
    let node ← construct depth place opening.location
    close node
termination_by structural depth

/-- Read what stands between the parentheses of a list. -/
def construct (depth : Nat) (place : Place) (loc : Location) : DescentM Node :=
  match depth with
  | 0 => tooDeep
  | depth + 1 => do
    let stream ← look
    match stream.next.kind with
    | .lparen => return .block loc (← inScope (statements depth place []))
    | .rparen => return .empty loc
    | .operator => do
      let operator ← consume
      match BinOp.ofText? operator.text with
      | none => work (refuseToken operator)
      | some op => do
        let operands ← operands depth place []
        work (binaryNode loc op operator.text operands)
    | .ident => application depth place loc
    | .typeName => do
      let head ← consume
      let target ← work (builtinType head)
      let operands ← operands depth place []
      work (castNode loc target operands)
    | .keyword =>
      match Construct.ofKeyword? stream.next.text with
      | none => work (refuseToken stream.next)
      | some .binding => variableDecl depth place loc
      | some .definition => definitionDecl depth loc
      | some .external => externalDecl depth loc
      | some .function => functionForm depth place loc
      | some .conditional => conditionalForm depth place loc
      | some .alternative => do
        let _ ← consume
        work (complain loc .strayElse)
        return .block loc (← inScope (statements depth place []))
      | some .whileLoop => whileForm depth place loc
      | some .forLoop => do
        let _ ← consume
        inScope (forForm depth place loc)
      | some .result => returnForm depth place loc
    | _ => work (refuseToken stream.next)
termination_by structural depth

/-- Read a call or a cast, whichever the name at the cursor stands for. -/
def application (depth : Nat) (place : Place) (loc : Location) : DescentM Node :=
  match depth with
  | 0 => tooDeep
  | depth + 1 => do
    let head ← consume
    match (← work get).symbols.resolve head.text with
    | none => do
      work (complain head.location (.undeclared head.text))
      return .call loc none (← operands depth place [])
    | some id => do
      let symbol ← work (symbolAt id)
      match symbol.kind with
      | .type => do
        let target ← work (promised symbol.type)
        let operands ← operands depth place []
        work (castNode loc target operands)
      | .function .. => return .call loc (some id) (← operands depth place [])
      | .localVar .. => do
        work (complain head.location (.notCallable head.text))
        return .call loc none (← operands depth place [])
termination_by structural depth

/-- Read the definition of a function from its keyword on. -/
def functionForm (depth : Nat) (place : Place) (loc : Location) : DescentM Node :=
  match depth with
  | 0 => tooDeep
  | depth + 1 => do
    let _ ← consume
    let name ← expect .ident
    work (checkFunctionPlace place name)
    let id? ← work (declare name .function)
    let (ids, body) ← inScope do
      let bound ← params depth
      let ids ← work (declareParams (.body id?) bound)
      let result ← typeExpr depth
      work (setSignature id? name bound result true false)
      let body ← statements depth (.body id?) []
      return (ids, body)
    return .functionDef loc id? ids body
termination_by structural depth

/-- Read a condition from its keyword on. -/
def conditionalForm (depth : Nat) (place : Place) (loc : Location) : DescentM Node :=
  match depth with
  | 0 => tooDeep
  | depth + 1 => do
    let _ ← consume
    let cond ← item depth place
    let thenBody ← inScope (branch depth place [])
    match ← alternative? depth place with
    | none => return .ifThen loc cond thenBody
    | some elseBody => return .ifElse loc cond thenBody elseBody
termination_by structural depth

/-- Read the second branch of a condition, if there is one. -/
def alternative? (depth : Nat) (place : Place) : DescentM (Option (List Node)) :=
  match depth with
  | 0 => tooDeep
  | depth + 1 => do
    if (← look).atElse then do
      let _ ← consume
      let _ ← consume
      let body ← inScope (statements depth place [])
      let _ ← expect .rparen
      return some body
    else return none
termination_by structural depth

/-- Read a loop with a condition from its keyword on. -/
def whileForm (depth : Nat) (place : Place) (loc : Location) : DescentM Node :=
  match depth with
  | 0 => tooDeep
  | depth + 1 => do
    let _ ← consume
    let cond ← item depth place
    return .whileLoop loc cond (← inScope (statements depth place []))
termination_by structural depth

/-- Read the parts of a loop with a start, a condition and a step. -/
def forForm (depth : Nat) (place : Place) (loc : Location) : DescentM Node :=
  match depth with
  | 0 => tooDeep
  | depth + 1 => do
    let init ← item depth place
    let cond ← item depth place
    let step ← item depth place
    return .forLoop loc init cond step (← statements depth place [])
termination_by structural depth

/-- Read the end of a function from its keyword on. -/
def returnForm (depth : Nat) (place : Place) (loc : Location) : DescentM Node :=
  match depth with
  | 0 => tooDeep
  | depth + 1 => do
    let _ ← consume
    if (← look).atClose then work (returnNode place loc none)
    else do
      let value ← item depth place
      work (returnNode place loc (some value))
termination_by structural depth

/-- Read a list, a literal or a variable. -/
def item (depth : Nat) (place : Place) : DescentM Node :=
  match depth with
  | 0 => tooDeep
  | depth + 1 => do
    let stream ← look
    match stream.next.kind with
    | .lparen => list depth place
    | .integer => do
      let token ← consume
      work (integerNode token)
    | .keyword =>
      if stream.next.text = "true" then do
        let token ← consume
        return .boolean token.location true
      else if stream.next.text = "false" then do
        let token ← consume
        return .boolean token.location false
      else work (refuseToken stream.next)
    | .ident => do
      let token ← consume
      work (variableNode place token)
    | _ => work (refuseToken stream.next)
termination_by structural depth

/-- Read statements up to a closing parenthesis. -/
def statements (depth : Nat) (place : Place) (before : List Node) : DescentM (List Node) :=
  match depth with
  | 0 => tooDeep
  | depth + 1 => turn (·.atClose) (push (list depth place)) (statements depth place) before
termination_by structural depth

/-- Read values up to a closing parenthesis. -/
def operands (depth : Nat) (place : Place) (before : List Node) : DescentM (List Node) :=
  match depth with
  | 0 => tooDeep
  | depth + 1 => turn (·.atClose) (push (item depth place)) (operands depth place) before
termination_by structural depth

/-- Read statements up to a closing parenthesis or the second branch of a condition. -/
def branch (depth : Nat) (place : Place) (before : List Node) : DescentM (List Node) :=
  match depth with
  | 0 => tooDeep
  | depth + 1 => turn (·.atBranchEnd) (push (list depth place)) (branch depth place) before
termination_by structural depth

end

/-! ## Programs -/

/-- Read the lists of the top level up to an end marker. -/
def topForms (depth : Nat) (before : List Node) : DescentM (List Node) :=
  match depth with
  | 0 => tooDeep
  | depth + 1 => turn (·.isEof) (push (list depth .topLevel)) (topForms depth) before

/-- What remains to be done once a program is read. -/
def finish (items : List Node) : CompileM Program := do
  let program : Program := ⟨items⟩
  if let some loc ← promised (entryPoint? (← get).symbols items) then
    if program.hasStatements then complain loc .mainAndStatements
  let ws ← get
  if ws.symbols.depth ≠ 1 then throw (.defect .unbalancedScopes)
  log (.parsed items.length ws.symbols.size ws.types.size)
  return program

/-- Read a program. -/
def program (depth : Nat) : DescentM Program := do
  let items ← topForms depth []
  work (finish items)

end Descent

end ParenC
