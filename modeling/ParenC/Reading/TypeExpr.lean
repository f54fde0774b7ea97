/-
Reading types.

A type is a builtin name, a name that the program has given to a type, or a struct written out.
Each struct written out becomes a new entry of the type table.
-/
import ParenC.Reading.Basic

namespace ParenC.Reading

open CompileM

/-- The builtin type that a token names. -/
def builtinType (token : Token) : CompileM TypeId :=
  match Builtin.ofName? token.text with
  | some which => return which.id
  | none => refuseToken token

/-- The type that a name of the program means; `void` if it means none. -/
def namedType (token : Token) : CompileM TypeId := do
  match ← promised ((← get).symbols.resolveSort token.text .type) with
  | some id => promised (← symbolAt id).type
  | none =>
    complain token.location (.undeclaredType token.text)
    return Builtin.void.id

/-- The type that a single token means. -/
def atomType (token : Token) : CompileM TypeId :=
  match token.kind with
  | .typeName => builtinType token
  | .ident => namedType token
  | _ => refuseFor .typeName token

mutual

/-- Read a type. -/
def typeExpr (datum : Datum) : CompileM TypeId :=
  match datum with
  | .atom token => atomType token
  | .list opening items closing =>
    match items with
    | .atom head :: rest =>
      if head.is .keyword "struct" then do
        let fields ← bindings true [] rest closing
        registerType (·.registerStruct (fields.map fun (name, type) => (name.text, type)))
      else refuseFor .typeName opening
    | _ => refuseFor .typeName opening
termination_by structural datum

/-- Read names with their types, each written `name : type`, up to the end of a list; `before`
holds those read so far, the latest first.  If they have to be `distinct`, a name that was there
before is reported and left out. -/
def bindings (distinct : Bool) (before : List (Token × TypeId)) (items : List Datum)
    (closing : Token) : CompileM (List (Token × TypeId)) :=
  match items with
  | [] =>
    if closing.kind = .rparen then return before.reverse else refuseFor .ident closing
  | nameDatum :: afterName => do
    let name ← expectAtom .ident nameDatum
    match afterName with
    | [] => refuseFor .colon closing
    | colonDatum :: afterColon => do
      let _ ← expectAtom .colon colonDatum
      match afterColon with
      | [] => refuseFor .typeName closing
      | typeDatum :: rest => do
        let type ← typeExpr typeDatum
        if distinct && before.any (·.1.text == name.text) then do
          complain name.location (.duplicateField name.text)
          bindings distinct before rest closing
        else bindings distinct ((name, type) :: before) rest closing
termination_by structural items

end

/-- Read the parameters of a function: a list of names with their types. -/
def params : Datum → CompileM (List (Token × TypeId))
  | .atom token => refuseFor .lparen token
  | .list _ items closing => bindings false [] items closing

end ParenC.Reading
