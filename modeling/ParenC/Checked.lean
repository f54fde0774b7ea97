/-
Builds that check their sums.

Sizes and offsets are words of 64 bits.  What no word holds starts again from zero, unless the
compiler was built to check its sums and products: then it stops there.  Whether such a build has
stopped on the way can be told from the tables at the end, since what is in them stays: the
structs are laid out while a program is read, and the frames of its functions afterwards.
-/
import ParenC.Compilation

namespace ParenC

/-- What stops a build that checks its sums, if `n` is a sum. -/
def Defect.ofSum? (n : Nat) : Option Defect := if n < wordCount then none else some .sumOverflow

/-- What stops a build that checks its products, if `n` is a product. -/
def Defect.ofProduct? (n : Nat) : Option Defect :=
  if n < wordCount then none else some .productOverflow

/-- What stops the layout of a struct: the start of a field, its end, or the end of the struct. -/
def TypeTable.overflow? (table : TypeTable) : Option Defect :=
  table.entries.toList.findSome? fun info =>
    match info.shape with
    | .struct fields =>
      let inside := fields.findSome? fun field =>
        (Defect.ofProduct? field.offset).or
          (Defect.ofSum? (field.offset + table.sizeOf field.type))
      inside.or (Defect.ofProduct? info.size)
    | .builtin _ | .definition .. => none

namespace Tables

/-- The number of bytes that a symbol takes in the frame of `owner`: none before it is placed. -/
def bytesIn (tables : Tables) (owner : Option SymbolId) (symbol : Symbol) : Nat :=
  match symbol.kind, symbol.type? with
  | .localVar (some _) function, some type =>
    if function = owner then tables.types.sizeOf type else 0
  | _, _ => 0

/-- The number of bytes that the variables which are placed in the frame of `owner` take. -/
def placedBytes (tables : Tables) (owner : Option SymbolId) : Nat :=
  tables.symbols.entries.toList.foldr (fun symbol rest => tables.bytesIn owner symbol + rest) 0

/-- What stops the layout of a frame: the end of a variable, or the end of the frame. -/
def frameOverflow? (tables : Tables) (owner : Option SymbolId) : Option Defect :=
  (Defect.ofSum? (tables.placedBytes owner)).or
    (Defect.ofProduct? (roundUp (tables.placedBytes owner) Lowering.stackAlign))

/-- What has stopped a build that checks, if these are the tables of one that does not. -/
def overflow? (tables : Tables) : Option Defect :=
  let frames := tables.symbols.entries.toList.findSome? fun symbol =>
    match symbol.kind with
    | .localVar (some _) function => tables.frameOverflow? function
    | _ => none
  tables.types.overflow?.or frames

end Tables

/-- The assembly text for a source text, from a build that checks its sums. -/
def assembleChecked (file source : String) : Except Failure String :=
  match (compile source).run (.initial file) with
  | .ok assembly ws =>
    match ws.toTables.overflow? with
    | none => .ok assembly.text
    | some defect => .error (.defect defect)
  | .error failure ws =>
    match ws.toTables.overflow? with
    | none => .error failure
    | some defect => .error (.defect defect)

end ParenC
