/-
Reading constructs.

The head of a list selects its construct.  Names are declared and looked up while reading, in
the order of the text, because whether a list headed by a name is a call or a cast depends on
what the name means at that point.  Whether reading succeeds at all depends on the tokens alone.

The functions that read lists recurse on the data; what the parts of a construct make together
is stated before them, each construct by itself.
-/
import ParenC.Reading.TypeExpr

namespace ParenC.Reading

open CompileM

/-! ## What a keyword selects -/

/-- The constructs that have a keyword of their own. -/
inductive Construct
  /-- The declaration of a variable. -/
  | binding
  /-- The declaration of a function that is defined elsewhere. -/
  | external
  /-- The definition of a function. -/
  | function
  /-- A condition with one or two branches. -/
  | conditional
  /-- A second branch, which is read with its condition. -/
  | alternative
  /-- A loop with a condition. -/
  | whileLoop
  /-- A loop with a start, a condition and a step. -/
  | forLoop
  /-- The declaration of a name for a type. -/
  | definition
  /-- The end of a function. -/
  | result
deriving DecidableEq

/-- The construct that a keyword selects at the head of a list. -/
def Construct.ofKeyword? (text : String) : Option Construct :=
  [("let", binding), ("exfun", external), ("defun", function), ("if", conditional),
    ("else", alternative), ("while", whileLoop), ("for", forLoop), ("typedef", definition),
    ("return", result)].lookup text

/-- Whether a datum is the second branch of a condition. -/
def isAlternative : Datum → Bool
  | .list _ (.atom head :: _) _ => head.is .keyword "else"
  | _ => false

/-! ## What the parts make together -/

/-- An operator with its operands.  Operands in excess are dropped and missing ones are empty. -/
def binaryNode (loc : Location) (op : BinOp) (text : String) (operands : List Node) :
    CompileM Node := do
  if operands.length ≠ 2 then complain loc (.operandCount text operands.length)
  return .binary loc op (operands[0]?.getD (.empty loc)) (operands[1]?.getD (.empty loc))

/-- A cast with its operand. -/
def castNode (loc : Location) (target : TypeId) (operands : List Node) : CompileM Node := do
  if operands.length ≠ 1 then complain loc (.castOperandCount operands.length)
  return .cast loc target (operands[0]?.getD (.empty loc))

/-- A list headed by a name: a cast if the name means a type, and else a call. -/
def applyNode (loc : Location) (head : Token) (operands : CompileM (List Node)) :
    CompileM Node := do
  match (← get).symbols.resolve head.text with
  | none =>
    complain head.location (.undeclared head.text)
    return .call loc none (← operands)
  | some id =>
    let symbol ← symbolAt id
    match symbol.kind with
    | .type =>
      let target ← promised symbol.type
      castNode loc target (← operands)
    | .function .. => return .call loc (some id) (← operands)
    | .localVar .. =>
      complain head.location (.notCallable head.text)
      return .call loc none (← operands)

/-- The declaration of a variable. -/
def variableDecl (place : Place) (loc : Location) (items : List Datum) (closing : Token) :
    CompileM Node :=
  match items with
  | [] => refuseFor .typeName closing
  | typeDatum :: afterType => do
    let type ← typeExpr typeDatum
    match afterType with
    | [] => refuseFor .ident closing
    | nameDatum :: rest => do
      let name ← expectAtom .ident nameDatum
      let id? ← declareVariable place name type
      expectEnd rest closing
      return .varDecl loc id?

/-- The declaration of a name for a type. -/
def definitionDecl (loc : Location) (items : List Datum) (closing : Token) : CompileM Node :=
  match items with
  | [] => refuseFor .ident closing
  | nameDatum :: afterName => do
    let name ← expectAtom .ident nameDatum
    match afterName with
    | [] => refuseFor .typeName closing
    | typeDatum :: rest => do
      let target ← typeExpr typeDatum
      let defined ← registerType (·.registerDefinition name.text target)
      let id? ← declareDefinition name defined
      expectEnd rest closing
      return .typedefDecl loc id?

/-- Record the signature of a function whose name was declared as `id?`. -/
def setSignature (id? : Option SymbolId) (name : Token) (params : List (Token × TypeId))
    (result : TypeId) (prototyped external : Bool) : CompileM Unit := do
  if let some id := id? then
    let signature := params.map fun (param, type) => (⟨param.text, type⟩ : Param)
    changeSymbols (·.set id ⟨name.text, some result, .function signature prototyped external⟩)

/-- The declaration of a function that is defined elsewhere, with or without a signature. -/
def externalDecl (loc : Location) (items : List Datum) (closing : Token) : CompileM Node :=
  match items with
  | [] => refuseFor .ident closing
  | nameDatum :: afterName => do
    let name ← expectAtom .ident nameDatum
    let id? ← declare name .function
    match afterName with
    | .list opening inner close :: afterParams => do
      let bound ← params (.list opening inner close)
      match afterParams with
      | [] => refuseFor .typeName closing
      | typeDatum :: rest => do
        let result ← typeExpr typeDatum
        setSignature id? name bound result true true
        expectEnd rest closing
    | rest => do
      setSignature id? name [] Builtin.void.id false true
      expectEnd rest closing
    return .externDecl loc id?

/-- Declare the parameters of a function; a name that is there already is left out. -/
def declareParams (place : Place) : List (Token × TypeId) → CompileM (List SymbolId)
  | [] => return []
  | (name, type) :: rest => do
    let id? ← declareVariable place name type
    let ids ← declareParams place rest
    return id?.toList ++ ids

/-- Complain about a function that is not defined at the top level. -/
def checkFunctionPlace (place : Place) (name : Token) : CompileM Unit := do
  match place with
  | .body _ => complain name.location (.nestedFunction name.text)
  | .topLevel =>
    if (← get).symbols.depth > 1 then complain name.location (.scopedFunction name.text)

/-- The end of a function.  Outside of functions it makes nothing, and neither does it in a
function whose name could not be declared. -/
def returnNode (place : Place) (loc : Location) (value? : Option Node) : CompileM Node :=
  match place with
  | .topLevel => do
    complain loc .returnOutside
    return .empty loc
  | .body none => return .empty loc
  | .body (some function) =>
    match value? with
    | none => return .returnVoid loc function
    | some value => return .returnValue loc value function

/-! ## Lists -/

mutual

/-- Read a datum that has to be a list. -/
def form (place : Place) (datum : Datum) : CompileM Node :=
  match datum with
  | .atom token => refuseFor .lparen token
  | .list opening items closing => list place opening items closing
termination_by structural datum

/-- Read a datum that stands for a value: a list, a literal or a variable. -/
def item (place : Place) (datum : Datum) : CompileM Node :=
  match datum with
  | .atom token => atomNode place token
  | .list opening items closing => list place opening items closing
termination_by structural datum

/-- Read a list from its data. -/
def list (place : Place) (opening : Token) (items : List Datum) (closing : Token) : CompileM Node :=
  let loc := opening.location
  match items with
  | [] => if closing.kind = .rparen then return .empty loc else refuseToken closing
  | first :: rest =>
    match first.atom? with
    | none => do
      let body ← withScope do
        let node ← form place first
        return node :: (← statements place rest closing)
      return .block loc body
    | some head =>
      match head.kind with
      | .operator =>
        match BinOp.ofText? head.text with
        | none => refuseToken head
        | some op => do binaryNode loc op head.text (← operands place rest closing)
      | .ident => applyNode loc head (operands place rest closing)
      | .typeName => do
        let target ← builtinType head
        castNode loc target (← operands place rest closing)
      | .keyword =>
        match Construct.ofKeyword? head.text with
        | none => refuseToken head
        | some .binding => variableDecl place loc rest closing
        | some .definition => definitionDecl loc rest closing
        | some .external => externalDecl loc rest closing
        | some .function => functionForm place loc rest closing
        | some .conditional => conditionalForm place loc rest closing
        | some .alternative => do
          complain loc .strayElse
          return .block loc (← withScope (statements place rest closing))
        | some .whileLoop => whileForm place loc rest closing
        | some .forLoop => withScope (forForm place loc rest closing)
        | some .result => returnForm place loc rest closing
      | _ => refuseToken head
termination_by structural items

/-- Read the definition of a function after its keyword.  The name is declared in the current
scope, so that the body can call the function; parameters and body share a scope of their own. -/
def functionForm (place : Place) (loc : Location) (items : List Datum) (closing : Token) :
    CompileM Node :=
  match items with
  | [] => refuseFor .ident closing
  | nameDatum :: afterName => do
    let name ← expectAtom .ident nameDatum
    checkFunctionPlace place name
    let id? ← declare name .function
    let (ids, body) ← withScope do
      match afterName with
      | [] => refuseFor .lparen closing
      | paramsDatum :: afterParams => do
        let bound ← params paramsDatum
        let ids ← declareParams (.body id?) bound
        match afterParams with
        | [] => refuseFor .typeName closing
        | typeDatum :: bodyData => do
          let result ← typeExpr typeDatum
          setSignature id? name bound result true false
          let body ← statements (.body id?) bodyData closing
          return (ids, body)
    return .functionDef loc id? ids body
termination_by structural items

/-- Read a condition after its keyword.  Each branch has a scope of its own. -/
def conditionalForm (place : Place) (loc : Location) (items : List Datum) (closing : Token) :
    CompileM Node :=
  match items with
  | [] => refuseToken closing
  | condDatum :: branches => do
    let cond ← item place condDatum
    let thenBody ← withScope (branch place branches closing)
    match ← alternative? place branches closing with
    | none => return .ifThen loc cond thenBody
    | some elseBody => return .ifElse loc cond thenBody elseBody
termination_by structural items

/-- Read a loop with a condition after its keyword.  The body has a scope of its own. -/
def whileForm (place : Place) (loc : Location) (items : List Datum) (closing : Token) :
    CompileM Node :=
  match items with
  | [] => refuseToken closing
  | condDatum :: bodyData => do
    let cond ← item place condDatum
    return .whileLoop loc cond (← withScope (statements place bodyData closing))
termination_by structural items

/-- Read a loop with a start, a condition and a step after its keyword.  A variable that the
start declares is visible in all parts. -/
def forForm (place : Place) (loc : Location) (items : List Datum) (closing : Token) :
    CompileM Node :=
  match items with
  | [] => refuseToken closing
  | initDatum :: afterInit => do
    let init ← item place initDatum
    match afterInit with
    | [] => refuseToken closing
    | condDatum :: afterCond => do
      let cond ← item place condDatum
      match afterCond with
      | [] => refuseToken closing
      | stepDatum :: bodyData => do
        let step ← item place stepDatum
        return .forLoop loc init cond step (← statements place bodyData closing)
termination_by structural items

/-- Read the end of a function after its keyword. -/
def returnForm (place : Place) (loc : Location) (items : List Datum) (closing : Token) :
    CompileM Node :=
  match items with
  | [] => if closing.kind = .rparen then returnNode place loc none else refuseToken closing
  | valueDatum :: rest => do
    let value ← item place valueDatum
    let node ← returnNode place loc (some value)
    expectEnd rest closing
    return node
termination_by structural items

/-- Read statements up to the end of a list. -/
def statements (place : Place) (items : List Datum) (closing : Token) : CompileM (List Node) :=
  match items with
  | [] => if closing.kind = .rparen then return [] else refuseFor .lparen closing
  | datum :: rest => do
    let node ← form place datum
    return node :: (← statements place rest closing)
termination_by structural items

/-- Read values up to the end of a list. -/
def operands (place : Place) (items : List Datum) (closing : Token) : CompileM (List Node) :=
  match items with
  | [] => if closing.kind = .rparen then return [] else refuseToken closing
  | datum :: rest => do
    let node ← item place datum
    return node :: (← operands place rest closing)
termination_by structural items

/-- Read the first branch of a condition: statements up to the second branch or the end of the
list. -/
def branch (place : Place) (items : List Datum) (closing : Token) : CompileM (List Node) :=
  match items with
  | [] => if closing.kind = .rparen then return [] else refuseFor .lparen closing
  | datum :: rest =>
    if isAlternative datum then return []
    else do
      let node ← form place datum
      return node :: (← branch place rest closing)
termination_by structural items

/-- Read the second branch of a condition, if there is one after the statements of the first.
Nothing may follow it. -/
def alternative? (place : Place) (items : List Datum) (closing : Token) :
    CompileM (Option (List Node)) :=
  match items with
  | [] => return none
  | .list _ (.atom head :: bodyData) innerClosing :: rest =>
    if head.is .keyword "else" then do
      let body ← withScope (statements place bodyData innerClosing)
      expectEnd rest closing
      return some body
    else alternative? place rest closing
  | _ :: rest => alternative? place rest closing
termination_by structural items

end

end ParenC.Reading
