/-
The symbol table.

Every declaration of a program makes one symbol, known by its number.  Which symbol a name
means is decided by the open scopes, innermost first.  Closing a scope forgets its names only;
the symbols stay, because the tree refers to them by number.
-/
import ParenC.Defect

namespace ParenC

/-- The three sorts of symbol.  A symbol never changes its sort. -/
inductive SymbolSort
  /-- A variable or a parameter. -/
  | localVar
  /-- A function, defined here or elsewhere. -/
  | function
  /-- A name for a type. -/
  | type
deriving DecidableEq

/-- The name of the sort in the log. -/
def SymbolSort.name : SymbolSort → String
  | localVar => "LocalVar"
  | function => "Function"
  | type => "Type"

/-- Every sort, in the order of declaration. -/
def SymbolSort.all : List SymbolSort := [.localVar, .function, .type]

/-- A parameter in the signature of a function. -/
structure Param where
  /-- The name of the parameter. -/
  name : String
  /-- The type of the parameter. -/
  type : TypeId
deriving DecidableEq

/-- What is known of a symbol apart from its name and type. -/
inductive SymbolKind
  /-- A variable.  `offset` is its distance in bytes below the frame pointer, once the frame is
  laid out, and `function` is the function whose frame holds it, if it is not a variable of the
  top level. -/
  | localVar (offset : Option Nat) (function : Option SymbolId)
  /-- A function.  Arguments of a function that is not `prototyped` are not checked against
  `params`; an `external` function is defined elsewhere. -/
  | function (params : List Param) (prototyped external : Bool)
  /-- A name for a type. -/
  | type
deriving DecidableEq

/-- The sort of a symbol of this kind. -/
def SymbolKind.sort : SymbolKind → SymbolSort
  | localVar .. => .localVar
  | function .. => .function
  | type => .type

/-- An entry of the symbol table. -/
structure Symbol where
  /-- The name that was declared. -/
  name : String
  /-- The type of the variable, the type that the function returns, or the type that the name
  stands for.  It is missing while the declaration is being read. -/
  type? : Option TypeId
  /-- What else is known. -/
  kind : SymbolKind
deriving DecidableEq

namespace Symbol

/-- The entry made when only a name and its sort have been read. -/
def placeholder (name : String) : SymbolSort → Symbol
  | .localVar => ⟨name, none, .localVar none none⟩
  | .function => ⟨name, none, .function [] true false⟩
  | .type => ⟨name, none, .type⟩

/-- The type of a symbol whose declaration has been read. -/
def type (symbol : Symbol) : Except Defect TypeId :=
  match symbol.type? with
  | some type => .ok type
  | none => .error (.untypedSymbol symbol.name)

/-- The distance below the frame pointer of a variable whose frame has been laid out. -/
def offset (symbol : Symbol) : Except Defect Nat :=
  match symbol.kind with
  | .localVar (some offset) _ => .ok offset
  | _ => .error (.unplacedSymbol symbol.name)

/-- Give a variable its place in the frame. -/
def place (symbol : Symbol) (offset : Nat) : Symbol :=
  match symbol.kind with
  | .localVar _ function => { symbol with kind := .localVar (some offset) function }
  | _ => symbol

end Symbol

/-- The names declared in one scope, the latest first. -/
abbrev Scope := List (String × SymbolId)

/-- All symbols of a program, and the scopes that are open. -/
structure SymbolTable where
  /-- The symbols, by number. -/
  entries : Array Symbol
  /-- The innermost open scope. -/
  scope : Scope
  /-- The scopes around it, from the inside outwards.  The last one is global, or the innermost
  scope is when there are none. -/
  enclosing : List Scope
deriving DecidableEq

namespace SymbolTable

/-- The table of an empty program: no symbols, and the global scope open. -/
def initial : SymbolTable := ⟨#[], [], []⟩

/-- The number of symbols. -/
def size (table : SymbolTable) : Nat := table.entries.size

/-! ## Scopes -/

/-- The open scopes, innermost first. -/
def scopes (table : SymbolTable) : List Scope := table.scope :: table.enclosing

/-- The number of open scopes. -/
def depth (table : SymbolTable) : Nat := table.scopes.length

/-- Open a scope inside the current one. -/
def openScope (table : SymbolTable) : SymbolTable :=
  { table with scope := [], enclosing := table.scopes }

/-- Close the current scope; the global scope stays open. -/
def closeScope (table : SymbolTable) : Except Defect SymbolTable :=
  match table.enclosing with
  | [] => .error .closingGlobalScope
  | outer :: rest => .ok { table with scope := outer, enclosing := rest }

/-- Close the current scope, which has to be the one that made `depth` open scopes. -/
def closeScopeAt (table : SymbolTable) (depth : Nat) : Except Defect SymbolTable :=
  if table.depth = depth then table.closeScope else .error .unbalancedScopes

/-- The symbol that a name means: its declaration in the innermost scope that has one. -/
def resolve (table : SymbolTable) (name : String) : Option SymbolId :=
  table.scopes.findSome? fun scope => scope.lookup name

/-! ## Symbols -/

/-- The symbol with the given number. -/
def get (table : SymbolTable) (id : SymbolId) : Except Defect Symbol :=
  match table.entries[id.index]? with
  | some symbol => .ok symbol
  | none => .error (.invalidSymbol id)

/-- Declare a name in the current scope.  A scope takes each name once. -/
def declare (table : SymbolTable) (name : String) (sort : SymbolSort) :
    Option (SymbolId × SymbolTable) :=
  match table.scope.lookup name with
  | some _ => none
  | none =>
    let id : SymbolId := ⟨table.size⟩
    some (id, { table with
      entries := table.entries.push (Symbol.placeholder name sort)
      scope := (name, id) :: table.scope })

/-- The symbol that a name means, if that symbol is of the given sort. -/
def resolveSort (table : SymbolTable) (name : String) (sort : SymbolSort) :
    Except Defect (Option SymbolId) :=
  match table.resolve name with
  | none => .ok none
  | some id => do
    return if (← table.get id).kind.sort = sort then some id else none

/-- Change a symbol, leaving its sort to the caller. -/
def modify (table : SymbolTable) (id : SymbolId) (change : Symbol → Symbol) :
    Except Defect SymbolTable := do
  let symbol ← table.get id
  return { table with entries := table.entries.setIfInBounds id.index (change symbol) }

/-- Replace a symbol by another one of the same sort. -/
def set (table : SymbolTable) (id : SymbolId) (symbol : Symbol) : Except Defect SymbolTable := do
  let old ← table.get id
  if old.kind.sort ≠ symbol.kind.sort then throw (.sortChanged id)
  table.modify id fun _ => symbol

/-- Set or clear the type of a symbol. -/
def setType (table : SymbolTable) (id : SymbolId) (type? : Option TypeId) :
    Except Defect SymbolTable :=
  table.modify id fun symbol => { symbol with type? := type? }

end SymbolTable

end ParenC
