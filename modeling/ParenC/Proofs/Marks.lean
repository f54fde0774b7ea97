/-
The text of a program, read off its tree and its tables.

The traversal below writes a program down again.  Next to the tokens it marks what the names in
them have to do with the tables: which symbol or type a name means, from where on a name is
declared, and where a scope begins and ends.  Dropping the marks that are no tokens gives the
text; keeping them gives the text as lexical scoping sees it.
-/
import ParenC.Proofs.Literal
import ParenC.Proofs.Workspace
import ParenC.Tree

namespace ParenC

/-- What is left of a token without its place: its kind and its text. -/
abbrev Face := TokenKind × String

/-- The token without its place. -/
def Token.face (token : Token) : Face := (token.kind, token.text)

lemma Token.face_eq {token : Token} {kind : TokenKind} (h : token.kind = kind) :
    token.face = (kind, token.text) := by
  rw [Token.face, h]

/-- What a name in a text means. -/
inductive Meaning
  /-- A variable or a function. -/
  | symbol (id : SymbolId)
  /-- A type. -/
  | type (id : TypeId)
deriving DecidableEq

/-- A token of a text, or something that happens between two tokens. -/
inductive Mark
  /-- A token that means nothing by itself, or one that introduces a name. -/
  | word (kind : TokenKind) (text : String)
  /-- A name that means something. -/
  | mention (name : String) (meaning : Meaning)
  /-- From here on the name is declared, as the name of this symbol. -/
  | declare (name : String) (id : SymbolId)
  /-- A scope begins. -/
  | enter
  /-- A scope ends. -/
  | leave
deriving DecidableEq

namespace Mark

/-- The token, if the mark is one. -/
def face? : Mark → Option Face
  | word kind text => some (kind, text)
  | mention name _ => some (.ident, name)
  | _ => none

/-- The tokens among marks. -/
def faces (marks : List Mark) : List Face := marks.filterMap face?

@[simp] lemma faces_nil : faces [] = [] := rfl

@[simp] lemma faces_append (xs ys : List Mark) : faces (xs ++ ys) = faces xs ++ faces ys :=
  List.filterMap_append

@[simp] lemma faces_word (kind : TokenKind) (text : String) (marks : List Mark) :
    faces (word kind text :: marks) = (kind, text) :: faces marks := rfl

@[simp] lemma faces_mention (name : String) (meaning : Meaning) (marks : List Mark) :
    faces (mention name meaning :: marks) = (.ident, name) :: faces marks := rfl

@[simp] lemma faces_declare (name : String) (id : SymbolId) (marks : List Mark) :
    faces (declare name id :: marks) = faces marks := rfl

@[simp] lemma faces_enter (marks : List Mark) : faces (enter :: marks) = faces marks := rfl

@[simp] lemma faces_leave (marks : List Mark) : faces (leave :: marks) = faces marks := rfl

/-- A keyword. -/
def keyword (text : String) : Mark := word .keyword text

/-- Parentheses around marks. -/
def bracket (marks : List Mark) : List Mark := word .lparen "(" :: (marks ++ [word .rparen ")"])

/-- A scope around marks. -/
def region (marks : List Mark) : List Mark := enter :: (marks ++ [leave])

/-- Names with their types, each written `name : type`. -/
def bindings (type : TypeId → List Mark) (bound : List (String × TypeId)) : List Mark :=
  bound.flatMap fun pair => word .ident pair.1 :: word .colon ":" :: type pair.2

@[simp] lemma bindings_nil (type : TypeId → List Mark) : bindings type [] = [] := rfl

@[simp] lemma bindings_cons (type : TypeId → List Mark) (name : String) (id : TypeId)
    (rest : List (String × TypeId)) : bindings type ((name, id) :: rest) =
      word .ident name :: word .colon ":" :: (type id ++ bindings type rest) := rfl

lemma bindings_congr {type type' : TypeId → List Mark} {bound : List (String × TypeId)}
    (h : ∀ pair ∈ bound, type pair.2 = type' pair.2) : bindings type bound = bindings type' bound := by
  induction bound with
  | nil => rfl
  | cons pair rest ih =>
    obtain ⟨name, id⟩ := pair
    rw [bindings_cons, bindings_cons, h (name, id) (by simp), ih fun p hp => h p (by simp [hp])]

end Mark

open Mark

/-! ## Types -/

namespace TypeTable

variable {table : TypeTable}

/-- A type whose structs are nested less than `levels` deep: the name of a builtin type, the name
of a definition, or a struct written out. -/
def marksWithin (table : TypeTable) : (levels : Nat) → TypeId → List Mark
  | 0, _ => []
  | levels + 1, id =>
    match (table.entries[id.index]?).map TypeInfo.shape with
    | none => []
    | some (.builtin which) => [word .typeName which.name]
    | some (.definition name _) => [mention name (.type id)]
    | some (.struct fields) => bracket (keyword "struct" ::
        bindings (table.marksWithin levels) (fields.map fun field => (field.name, field.type)))

/-- A type, written down. -/
def marks (table : TypeTable) (id : TypeId) : List Mark := table.marksWithin table.size id

/-- The type that a definition is made for. -/
def target? (table : TypeTable) (id : TypeId) : Option TypeId :=
  match (table.entries[id.index]?).map TypeInfo.shape with
  | some (.definition _ target) => some target
  | _ => none

/-- Enough levels are enough. -/
lemma marksWithin_congr (sound : table.Sound) {id : TypeId} (hid : table.Has id)
    {levels levels' : Nat} (h : id.index < levels) (h' : id.index < levels') :
    table.marksWithin levels id = table.marksWithin levels' id := by
  -- by induction on the levels: fields have smaller numbers than their struct
  induction levels generalizing id levels' with
  | zero => omega
  | succ levels ih =>
    obtain ⟨levels', rfl⟩ : ∃ k, levels' = k + 1 := ⟨levels' - 1, by omega⟩
    obtain ⟨info, hinfo⟩ := has_iff.mp hid
    simp only [marksWithin, hinfo, Option.map_some]
    cases hshape : info.shape with
    | builtin which => rfl
    | definition name target => rfl
    | struct fields =>
      have hfields := (sound.entry hinfo).fields hshape
      have hbindings : bindings (table.marksWithin levels) (fields.map fun f => (f.name, f.type)) =
          bindings (table.marksWithin levels') (fields.map fun f => (f.name, f.type)) := by
        refine bindings_congr fun pair hpair => ?_
        obtain ⟨field, hfield, rfl⟩ := List.mem_map.mp hpair
        have hlt : field.type.index < id.index := hfields field hfield
        have hsize : id.index < table.size := hid
        exact ih (show field.type.index < table.size by omega) (by omega) (by omega)
      simp only [hbindings]

lemma marks_builtin (sound : table.Sound) (which : Builtin) :
    table.marks which.id = [word .typeName which.name] := by
  have hpos : 0 < table.size := by
    have := sound.has_builtin which
    unfold Has at this
    omega
  obtain ⟨levels, hlevels⟩ : ∃ k, table.size = k + 1 := ⟨table.size - 1, by omega⟩
  simp [marks, hlevels, marksWithin, sound.builtins which, Builtin.info]

lemma marks_definition {id target : TypeId} {info : TypeInfo} {name : String}
    (hinfo : table.entries[id.index]? = some info) (hshape : info.shape = .definition name target) :
    table.marks id = [mention name (.type id)] := by
  have hid : id.index < table.size := has_iff.mpr ⟨info, hinfo⟩
  obtain ⟨levels, hlevels⟩ : ∃ k, table.size = k + 1 := ⟨table.size - 1, by omega⟩
  simp [marks, hlevels, marksWithin, hinfo, hshape]

lemma marks_struct (sound : table.Sound) {id : TypeId} {info : TypeInfo} {fields : List Field}
    (hinfo : table.entries[id.index]? = some info) (hshape : info.shape = .struct fields) :
    table.marks id = bracket (keyword "struct" ::
      bindings table.marks (fields.map fun field => (field.name, field.type))) := by
  have hid : id.index < table.size := has_iff.mpr ⟨info, hinfo⟩
  obtain ⟨levels, hlevels⟩ : ∃ k, table.size = k + 1 := ⟨table.size - 1, by omega⟩
  have hfields := (sound.entry hinfo).fields hshape
  have hbindings : bindings (table.marksWithin levels) (fields.map fun f => (f.name, f.type)) =
      bindings table.marks (fields.map fun f => (f.name, f.type)) := by
    refine bindings_congr fun pair hpair => ?_
    obtain ⟨field, hfield, rfl⟩ := List.mem_map.mp hpair
    have hlt : field.type.index < id.index := hfields field hfield
    have hhas : table.Has field.type := show field.type.index < table.size by omega
    exact marksWithin_congr sound hhas (by omega) hhas
  rw [marks, hlevels]
  simp only [marksWithin, hinfo, Option.map_some, hshape, hbindings]

end TypeTable

/-! ## Symbols -/

namespace SymbolTable

/-- The type of a symbol, `void` if there is none. -/
def typeOf (symbols : SymbolTable) (id : SymbolId) : TypeId :=
  ((symbols.entries[id.index]?).bind Symbol.type?).getD Builtin.void.id

/-- The parameters in the signature of a function, if they were written. -/
def signatureOf (symbols : SymbolTable) (id : SymbolId) : Option (List (String × TypeId)) :=
  match (symbols.entries[id.index]?).map Symbol.kind with
  | some (.function params true _) => some (params.map fun param => (param.name, param.type))
  | _ => none

/-- A name that means a symbol. -/
def mention (symbols : SymbolTable) (id : SymbolId) : Mark :=
  .mention (symbols.nameOf id) (.symbol id)

/-- The name of a symbol, where the symbol is introduced. -/
def introduce (symbols : SymbolTable) (id : SymbolId) : Mark := .word .ident (symbols.nameOf id)

/-- The point from which on the name of a symbol is declared. -/
def declaration (symbols : SymbolTable) (id : SymbolId) : Mark :=
  .declare (symbols.nameOf id) id

end SymbolTable

/-- What comes after the name in the signature of a function: its parameters, which `declared` are
if the function is defined, and the type of its result. -/
def Tables.signature (tables : Tables) (id : SymbolId) (declared : List SymbolId) : List Mark :=
  match tables.symbols.signatureOf id with
  | none => []
  | some params => bracket (bindings tables.types.marks params) ++
      (declared.map tables.symbols.declaration ++ tables.types.marks (tables.symbols.typeOf id))

/-! ## Nodes -/

/-- The text of an operator. -/
def BinOp.text : BinOp → String
  | assign => ":="
  | arith .add => "+"
  | arith .sub => "-"
  | arith .mul => "*"
  | arith .div => "/"
  | arith .mod => "%"
  | compare .eq => "=="
  | compare .ne => "!="
  | compare .le => "<="
  | compare .lt => "<"
  | compare .ge => ">="
  | compare .gt => ">"

lemma BinOp.text_of_ofText? {text : String} {op : BinOp} (h : ofText? text = some op) :
    op.text = text := by
  simp only [ofText?, table, List.lookup_cons] at h
  repeat' split at h
  all_goals first
    | cases h; rename_i heq; exact (LawfulBEq.eq_of_beq heq).symm
    | simp at h

namespace Node

mutual

/-- A construct, written down. -/
def marks (tables : Tables) (node : Node) : List Mark :=
  match node with
  | integer _ value => [word .integer value.text]
  | boolean _ value => [keyword (if value then "true" else "false")]
  | binary _ op lhs rhs =>
    bracket (word .operator op.text :: (lhs.marks tables ++ rhs.marks tables))
  | block _ body => bracket (region (marksAll tables body))
  | varDecl _ (some id) => bracket (keyword "let" :: (tables.types.marks (tables.symbols.typeOf id) ++
      [tables.symbols.introduce id, tables.symbols.declaration id]))
  | varRef _ (some id) => [tables.symbols.mention id]
  | externDecl _ (some id) => bracket (keyword "exfun" :: tables.symbols.introduce id ::
      tables.symbols.declaration id :: tables.signature id [])
  | functionDef _ (some id) params body =>
    bracket (keyword "defun" :: tables.symbols.introduce id :: tables.symbols.declaration id ::
      region (tables.signature id params ++ marksAll tables body))
  | call _ (some id) args => bracket (tables.symbols.mention id :: marksAll tables args)
  | ifThen _ cond body =>
    bracket (keyword "if" :: (cond.marks tables ++ region (marksAll tables body)))
  | ifElse _ cond thenBody elseBody =>
    bracket (keyword "if" :: (cond.marks tables ++ (region (marksAll tables thenBody) ++
      bracket (keyword "else" :: region (marksAll tables elseBody)))))
  | whileLoop _ cond body =>
    bracket (keyword "while" :: (cond.marks tables ++ region (marksAll tables body)))
  | forLoop _ init cond step body => bracket (keyword "for" :: region (init.marks tables ++
      (cond.marks tables ++ (step.marks tables ++ marksAll tables body))))
  | cast _ target operand => bracket (tables.types.marks target ++ operand.marks tables)
  | returnVoid _ _ => bracket [keyword "return"]
  | returnValue _ value _ => bracket (keyword "return" :: value.marks tables)
  | typedefDecl _ (some id) => bracket (keyword "typedef" :: tables.symbols.introduce id ::
      (((tables.types.target? (tables.symbols.typeOf id)).elim [] tables.types.marks) ++
        [tables.symbols.declaration id]))
  | empty _ => bracket []
  -- a name that could not be declared or means nothing suitable
  | varDecl _ none | varRef _ none | externDecl _ none | functionDef _ none _ _ | call _ none _
  | typedefDecl _ none => []
termination_by structural node

/-- Constructs, written down one after the other. -/
def marksAll (tables : Tables) (nodes : List Node) : List Mark :=
  match nodes with
  | [] => []
  | node :: rest => node.marks tables ++ marksAll tables rest
termination_by structural nodes

end

@[simp] lemma marksAll_nil (tables : Tables) : marksAll tables [] = [] := rfl

@[simp] lemma marksAll_cons (tables : Tables) (node : Node) (rest : List Node) :
    marksAll tables (node :: rest) = node.marks tables ++ marksAll tables rest := rfl

/-! ### Locations -/

mutual

/-- The construct without the places that it was read from. -/
def unlocated (node : Node) : Node :=
  match node with
  | integer _ value => integer .nowhere value
  | boolean _ value => boolean .nowhere value
  | binary _ op lhs rhs => binary .nowhere op lhs.unlocated rhs.unlocated
  | block _ body => block .nowhere (unlocatedAll body)
  | varDecl _ symbol? => varDecl .nowhere symbol?
  | varRef _ symbol? => varRef .nowhere symbol?
  | externDecl _ symbol? => externDecl .nowhere symbol?
  | functionDef _ symbol? params body => functionDef .nowhere symbol? params (unlocatedAll body)
  | call _ callee? args => call .nowhere callee? (unlocatedAll args)
  | ifThen _ cond body => ifThen .nowhere cond.unlocated (unlocatedAll body)
  | ifElse _ cond thenBody elseBody =>
    ifElse .nowhere cond.unlocated (unlocatedAll thenBody) (unlocatedAll elseBody)
  | whileLoop _ cond body => whileLoop .nowhere cond.unlocated (unlocatedAll body)
  | forLoop _ init cond step body =>
    forLoop .nowhere init.unlocated cond.unlocated step.unlocated (unlocatedAll body)
  | cast _ target operand => cast .nowhere target operand.unlocated
  | returnVoid _ function => returnVoid .nowhere function
  | returnValue _ value function => returnValue .nowhere value.unlocated function
  | typedefDecl _ symbol? => typedefDecl .nowhere symbol?
  | empty _ => empty .nowhere
termination_by structural node

/-- Constructs without the places that they were read from. -/
def unlocatedAll (nodes : List Node) : List Node :=
  match nodes with
  | [] => []
  | node :: rest => node.unlocated :: unlocatedAll rest
termination_by structural nodes

end

mutual

/-- Where a construct was read from does not show. -/
lemma marks_unlocated (tables : Tables) (node : Node) :
    node.unlocated.marks tables = node.marks tables := by
  match node with
  | integer _ _ | boolean _ _ | varDecl _ none | varDecl _ (some _) | varRef _ none
  | varRef _ (some _) | externDecl _ none | externDecl _ (some _) | returnVoid _ _
  | typedefDecl _ none | typedefDecl _ (some _) | empty _ | call _ none _
  | functionDef _ none _ _ => rfl
  | binary _ op lhs rhs =>
    simp only [unlocated, marks, marks_unlocated tables lhs, marks_unlocated tables rhs]
  | block _ body => simp only [unlocated, marks, marksAll_unlocated tables body]
  | functionDef _ (some id) params body =>
    simp only [unlocated, marks, marksAll_unlocated tables body]
  | call _ (some id) args => simp only [unlocated, marks, marksAll_unlocated tables args]
  | ifThen _ cond body =>
    simp only [unlocated, marks, marks_unlocated tables cond, marksAll_unlocated tables body]
  | ifElse _ cond thenBody elseBody =>
    simp only [unlocated, marks, marks_unlocated tables cond, marksAll_unlocated tables thenBody,
      marksAll_unlocated tables elseBody]
  | whileLoop _ cond body =>
    simp only [unlocated, marks, marks_unlocated tables cond, marksAll_unlocated tables body]
  | forLoop _ init cond step body =>
    simp only [unlocated, marks, marks_unlocated tables init, marks_unlocated tables cond,
      marks_unlocated tables step, marksAll_unlocated tables body]
  | cast _ target operand => simp only [unlocated, marks, marks_unlocated tables operand]
  | returnValue _ value function => simp only [unlocated, marks, marks_unlocated tables value]

lemma marksAll_unlocated (tables : Tables) (nodes : List Node) :
    marksAll tables (unlocatedAll nodes) = marksAll tables nodes := by
  match nodes with
  | [] => rfl
  | node :: rest =>
    simp only [unlocatedAll, marksAll_cons, marks_unlocated tables node,
      marksAll_unlocated tables rest]

end

end Node

/-! ## Programs -/

namespace Program

/-- A program, written down with all marks. -/
def marks (program : Program) (tables : Tables) : List Mark := Node.marksAll tables program.items

/-- The tokens of a program. -/
def unparse (program : Program) (tables : Tables) : List Face := faces (program.marks tables)

/-- The program without the places that it was read from. -/
def unlocated (program : Program) : Program := ⟨Node.unlocatedAll program.items⟩

/-- Where a program was read from does not show. -/
lemma unparse_unlocated (program : Program) (tables : Tables) :
    program.unlocated.unparse tables = program.unparse tables := by
  rw [unparse, marks, unlocated, Node.marksAll_unlocated, unparse, marks]

end Program

end ParenC
