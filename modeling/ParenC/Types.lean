/-
The type table.

Every type is an entry of one table, known by its number.  The builtin types are the first
four entries.  A struct or a definition only mentions types that were registered before it, as
long as it is registered through `registerStruct` and `registerDefinition`; the plain
`register` takes any entry.  Nothing is shared: each struct written in a program is an entry of
its own.

Struct fields are laid out in order, each at the least multiple of its alignment that is not
below the end of the field before it.

Sizes and offsets are numbers without bound here, where a machine keeps words of 64 bits that
start again from zero.  `Proofs.Types.Words` shows that nothing but the sizes themselves is lost by
that: cut down to words, the table is what a machine finds.  The sizes enter a frame as words.
-/
import ParenC.Defect

namespace ParenC

/-- A type that every program knows. -/
inductive Builtin
  | void
  | s64
  | u64
  | bool
deriving DecidableEq

/-- A member of a struct. -/
structure Field where
  /-- The name of the member; a struct read from a program has no name twice. -/
  name : String
  /-- The type of the member. -/
  type : TypeId
  /-- The distance in bytes from the start of the struct. -/
  offset : Nat
deriving DecidableEq

/-- What a type is made of. -/
inductive Shape
  /-- One of the builtin types. -/
  | builtin (which : Builtin)
  /-- A sequence of fields. -/
  | struct (fields : List Field)
  /-- Another name for an existing type. -/
  | definition (name : String) (target : TypeId)
deriving DecidableEq

/-- An entry of the type table. -/
structure TypeInfo where
  /-- What the type is made of. -/
  shape : Shape
  /-- The number of bytes that a value takes. -/
  size : Nat
  /-- The number that the address of a value is a multiple of. -/
  align : Nat
deriving DecidableEq

namespace Builtin

/-- The builtin types in the order of their entries. -/
def all : List Builtin := [void, s64, u64, bool]

/-- The name of the type in a program. -/
def name : Builtin → String
  | void => "void"
  | s64 => "s64"
  | u64 => "u64"
  | bool => "bool"

/-- The builtin type with the given name. -/
def ofName? (name : String) : Option Builtin := all.find? (·.name == name)

/-- The number of bytes that a value takes. -/
def size : Builtin → Nat
  | void => 0
  | s64 | u64 => 8
  | bool => 1

/-- The entry of the type in every table. -/
def info (which : Builtin) : TypeInfo := ⟨.builtin which, which.size, max which.size 1⟩

/-- The number of the type in every table. -/
def id : Builtin → TypeId
  | void => ⟨0⟩
  | s64 => ⟨1⟩
  | u64 => ⟨2⟩
  | bool => ⟨3⟩

/-- Whether values of the type fit into a register. -/
def isScalar : Builtin → Bool
  | void => false
  | s64 | u64 | bool => true

end Builtin

/-- The least multiple of `align` that is not below `n`. -/
def roundUp (n align : Nat) : Nat := (n + align - 1) / align * align

/-- All types of a program. -/
structure TypeTable where
  /-- The entries, by number. -/
  entries : Array TypeInfo
deriving DecidableEq

namespace TypeTable

/-- The table of a program without types of its own. -/
def initial : TypeTable := ⟨(Builtin.all.map Builtin.info).toArray⟩

/-- The number of entries. -/
def size (table : TypeTable) : Nat := table.entries.size

/-- The entry with the given number. -/
def get (table : TypeTable) (id : TypeId) : Except Defect TypeInfo :=
  match table.entries[id.index]? with
  | some info => .ok info
  | none => .error (.invalidType id)

/-- The number of bytes that a value of the type takes. -/
def sizeOf (table : TypeTable) (id : TypeId) : Nat :=
  match table.get id with
  | .ok info => info.size
  | .error _ => 0

/-- Add an entry. -/
def register (table : TypeTable) (info : TypeInfo) : TypeId × TypeTable :=
  (⟨table.size⟩, ⟨table.entries.push info⟩)

/-- The number of a builtin type, if the table has one for it. -/
def builtin? (table : TypeTable) (which : Builtin) : Option TypeId :=
  (table.entries.findIdx? (·.shape = .builtin which)).map TypeId.mk

/-- The number of a builtin type, which becomes an entry at its first use. -/
def registerBuiltin (table : TypeTable) (which : Builtin) : TypeId × TypeTable :=
  match table.builtin? which with
  | some id => (id, table)
  | none => table.register which.info

/-! ## Structs and definitions -/

/-- The fields of a struct after they were given their places. -/
structure Layout where
  /-- The fields with their offsets. -/
  fields : List Field
  /-- The end of the last field. -/
  stop : Nat
  /-- The largest alignment of a field, and at least one. -/
  align : Nat

/-- Give places to fields, the first of which lies at or after `start`; `align` is the largest
alignment among the fields before them. -/
def layOut (table : TypeTable) (start align : Nat) :
    List (String × TypeId) → Except Defect Layout
  | [] => .ok ⟨[], start, align⟩
  | (name, type) :: rest => do
    let info ← table.get type
    if info.align = 0 then throw .zeroAlignment
    let offset := roundUp start info.align
    let layout ← table.layOut (offset + info.size) (max align info.align) rest
    return { layout with fields := ⟨name, type, offset⟩ :: layout.fields }

/-- Add a struct with the given fields. -/
def registerStruct (table : TypeTable) (fields : List (String × TypeId)) :
    Except Defect (TypeId × TypeTable) := do
  let layout ← table.layOut 0 1 fields
  return table.register
    ⟨.struct layout.fields, roundUp layout.stop layout.align, layout.align⟩

/-- Add another name for the type `target`. -/
def registerDefinition (table : TypeTable) (name : String) (target : TypeId) :
    Except Defect (TypeId × TypeTable) := do
  let info ← table.get target
  return table.register ⟨.definition name target, info.size, info.align⟩

/-! ## What a type stands for -/

/-- Follow at most `steps` definitions.  A chain that is longer than the table runs in a
circle, and no type is at its end. -/
def resolveWithin (table : TypeTable) : (steps : Nat) → TypeId → Except Defect TypeId
  | 0, id => .error (.invalidType id)
  | steps + 1, id => do
    match (← table.get id).shape with
    | .definition _ target => table.resolveWithin steps target
    | _ => return id

/-- The type at the end of a chain of definitions. -/
def resolve (table : TypeTable) (id : TypeId) : Except Defect TypeId :=
  table.resolveWithin table.size id

/-- What the type at the end of a chain of definitions is made of. -/
def deepShape (table : TypeTable) (id : TypeId) : Except Defect Shape := do
  return (← table.get (← table.resolve id)).shape

/-- Whether values of the type fit into a register. -/
def isScalar (table : TypeTable) (id : TypeId) : Except Defect Bool := do
  match ← table.deepShape id with
  | .builtin which => return which.isScalar
  | _ => return false

/-- Whether the type is `u64` under whatever name. -/
def isUnsigned (table : TypeTable) (id : TypeId) : Except Defect Bool := do
  return (← table.deepShape id) = .builtin .u64

/-- Whether the type is a struct under whatever name. -/
def isStruct (table : TypeTable) (id : TypeId) : Except Defect Bool := do
  match ← table.deepShape id with
  | .struct _ => return true
  | _ => return false

/-- The text of a type whose structs are nested less than `levels` deep. -/
def describeWithin (table : TypeTable) : (levels : Nat) → TypeId → Except Defect String
  | 0, id => .error (.invalidType id)
  | levels + 1, id => do
    match (← table.get id).shape with
    | .builtin which => return which.name
    | .definition name _ => return name
    | .struct fields =>
      let texts ← fields.mapM fun field => do
        return field.name ++ ": " ++ (← table.describeWithin levels field.type) ++ " "
      return "struct (" ++ String.join texts ++ ")"

/-- The text of a type in messages: its name, or its fields if it has none. -/
def describe (table : TypeTable) (id : TypeId) : Except Defect String :=
  table.describeWithin table.size id

end TypeTable

end ParenC
