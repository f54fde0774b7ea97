/-
The actions that reading is made of.

Reading works on data whose parentheses are matched.  Where a list is too short or goes on too
long, the token at which that shows is the one refused: the first token of the datum in excess,
or the token that closes the list too early.
-/
import ParenC.Datum
import ParenC.Reading.Complaint
import ParenC.Tree

namespace ParenC

/-- Where a construct stands: outside of all functions, or in the body of one.  The function has
no symbol if its name could not be declared. -/
inductive Place
  | topLevel
  | body (function? : Option SymbolId)
deriving DecidableEq

/-- The function whose frame holds the variables declared at the place. -/
def Place.owner? : Place → Option SymbolId
  | topLevel => none
  | body function? => function?

namespace Reading

open CompileM

/-! ## Tokens -/

/-- Record a recoverable finding. -/
def complain (loc : Location) (complaint : Complaint) : CompileM Unit :=
  report loc complaint.message

/-- Refuse a token that stands where one of another kind had to. -/
def refuseFor {α : Type} (kind : TokenKind) (got : Token) : CompileM α :=
  refuse got.location (.expected kind got)

/-- Refuse a token that no construct allows where it stands. -/
def refuseToken {α : Type} (got : Token) : CompileM α :=
  refuse got.location (.unexpected got)

/-- The token of the given kind that the datum has to be. -/
def expectAtom (kind : TokenKind) : Datum → CompileM Token
  | .atom token => if token.kind = kind then return token else refuseFor kind token
  | .list opening _ _ => refuseFor kind opening

/-- Check that a list ends: `rest` is what follows the last part of its construct. -/
def expectEnd (rest : List Datum) (closing : Token) : CompileM Unit :=
  match rest with
  | [] => if closing.kind = .rparen then return () else refuseFor .rparen closing
  | datum :: _ => refuseFor .rparen datum.first

/-! ## Tables -/

/-- Work on the symbol table. -/
def changeSymbols (change : SymbolTable → Except Defect SymbolTable) : CompileM Unit := do
  let symbols ← promised (change (← get).symbols)
  modify fun ws => { ws with symbols }

/-- Add a type. -/
def registerType (add : TypeTable → Except Defect (TypeId × TypeTable)) : CompileM TypeId := do
  let (id, types) ← promised (add (← get).types)
  modify fun ws => { ws with types }
  return id

/-- The symbol with the given number. -/
def symbolAt (id : SymbolId) : CompileM Symbol := do promised ((← get).symbols.get id)

/-- Do something inside a scope of its own, which is closed again even if that fails. -/
def withScope {α : Type} (act : CompileM α) : CompileM α := fun ws =>
  let opened := ws.symbols.openScope
  match act { ws with symbols := opened } with
  | .ok a ws' =>
    match ws'.symbols.closeScopeAt opened.depth with
    | .ok symbols => .ok a { ws' with symbols }
    | .error defect => .error (.defect defect) ws'
  | .error failure ws' =>
    match ws'.symbols.closeScopeAt opened.depth with
    | .ok symbols => .error failure { ws' with symbols }
    | .error defect => .error (.defect defect) ws'

/-- Declare a name in the current scope, or complain that the scope has it already. -/
def declare (name : Token) (sort : SymbolSort) : CompileM (Option SymbolId) := do
  let symbols := (← get).symbols
  match symbols.declare name.text sort with
  | some (id, declared) =>
    modify fun ws => { ws with symbols := declared }
    log (.declared sort name.text id symbols.enclosing.length)
    return some id
  | none =>
    complain name.location (.redeclared name.text)
    return none

/-- Declare a variable of the given type at a place. -/
def declareVariable (place : Place) (name : Token) (type : TypeId) :
    CompileM (Option SymbolId) := do
  let id? ← declare name .localVar
  if let some id := id? then
    changeSymbols (·.set id ⟨name.text, some type, .localVar none place.owner?⟩)
  return id?

/-- Declare a name for the given type. -/
def declareDefinition (name : Token) (type : TypeId) : CompileM (Option SymbolId) := do
  let id? ← declare name .type
  if let some id := id? then changeSymbols (·.setType id (some type))
  return id?

/-! ## Atoms -/

/-- The node of an integer literal. -/
def integerNode (token : Token) : CompileM Node :=
  match IntegerValue.ofText token.text with
  | .ok value => return .integer token.location value
  | .error fault => refuse token.location (.literal fault)

/-- The node of a mention of a variable. -/
def variableNode (place : Place) (token : Token) : CompileM Node := do
  let name := token.text
  match (← get).symbols.resolve name with
  | none =>
    complain token.location (.undeclared name)
    return .varRef token.location none
  | some id =>
    match (← symbolAt id).kind with
    | .localVar _ function? =>
      if function? ≠ place.owner? then complain token.location (.foreignVariable name)
      return .varRef token.location (some id)
    | _ =>
      complain token.location (.notVariable name)
      return .varRef token.location none

/-- The node of a datum that is a single token. -/
def atomNode (place : Place) (token : Token) : CompileM Node :=
  match token.kind with
  | .integer => integerNode token
  | .ident => variableNode place token
  | .keyword =>
    if token.text = "true" then return .boolean token.location true
    else if token.text = "false" then return .boolean token.location false
    else refuseToken token
  | _ => refuseToken token

end Reading

end ParenC
