/-
What the text of a program declares is what its nodes introduce.

The marks of a tree declare the symbols that its nodes introduce, and types declare none.  With the
numbering of symbols in the order of the text it follows that every symbol of a program that was
read without findings is introduced by one of its nodes.
-/
import ParenC.Proofs.Reading.Making
import ParenC.Proofs.Scoping

namespace ParenC

/-! ## Declarations among marks -/

namespace Mark

/-- The symbols that marks declare, in the order of the text. -/
def declarations (marks : List Mark) : List SymbolId := marks.filterMap declared?

@[simp] lemma declarations_nil : declarations [] = [] := rfl

@[simp] lemma declarations_append (xs ys : List Mark) :
    declarations (xs ++ ys) = declarations xs ++ declarations ys :=
  List.filterMap_append

@[simp] lemma declarations_word (kind : TokenKind) (text : String) (marks : List Mark) :
    declarations (word kind text :: marks) = declarations marks := rfl

@[simp] lemma declarations_keyword (text : String) (marks : List Mark) :
    declarations (keyword text :: marks) = declarations marks := rfl

@[simp] lemma declarations_mention (name : String) (meaning : Meaning) (marks : List Mark) :
    declarations (mention name meaning :: marks) = declarations marks := rfl

@[simp] lemma declarations_declare (name : String) (id : SymbolId) (marks : List Mark) :
    declarations (declare name id :: marks) = id :: declarations marks := rfl

@[simp] lemma declarations_bracket (marks : List Mark) :
    declarations (bracket marks) = declarations marks := by
  rw [bracket, declarations_word, declarations_append]
  exact List.append_nil _

@[simp] lemma declarations_region (marks : List Mark) :
    declarations (region marks) = declarations marks := by
  show declarations (marks ++ [leave]) = declarations marks
  rw [declarations_append]
  exact List.append_nil _

lemma declarations_bindings {type : TypeId → List Mark} (h : ∀ id, declarations (type id) = [])
    (bound : List (String × TypeId)) : declarations (bindings type bound) = [] := by
  induction bound with
  | nil => rfl
  | cons pair rest ih =>
    rw [bindings_cons, declarations_word, declarations_word, declarations_append, h, ih]
    rfl

end Mark

open Mark

/-- Types declare nothing. -/
@[simp] lemma TypeTable.declarations_marks (table : TypeTable) (id : TypeId) :
    declarations (table.marks id) = [] := by
  have hwithin : ∀ levels id, declarations (table.marksWithin levels id) = [] := by
    intro levels
    induction levels with
    | zero => exact fun _ => rfl
    | succ levels ih =>
      intro id
      rw [marksWithin]
      split
      · rfl
      · rfl
      · rfl
      · rw [declarations_bracket, declarations_keyword, declarations_bindings ih]
  exact hwithin table.size id

/-- A signature declares the parameters, if it is there. -/
lemma Tables.declarations_signature (tables : Tables) (id : SymbolId) (params : List SymbolId) :
    (declarations (tables.signature id params)).Sublist params := by
  have hparams : declarations (params.map tables.symbols.declaration) = params := by
    induction params with
    | nil => rfl
    | cons param rest ih =>
      rw [List.map_cons, SymbolTable.declaration, declarations_declare, ih]
  unfold signature
  split
  · exact List.nil_sublist _
  · rw [declarations_append, declarations_append, declarations_bracket,
      declarations_bindings tables.types.declarations_marks, hparams,
      TypeTable.declarations_marks, List.append_nil]
    exact .refl _

namespace Node

lemma introducedAll_cons (node : Node) (rest : List Node) :
    introducedAll (node :: rest) = introducedAll [node] ++ introducedAll rest :=
  introducedAll_append [node] rest

mutual

/-- The marks of a construct declare what its nodes introduce, in the same order. -/
lemma declarations_marks (tables : Tables) (node : Node) :
    (declarations (node.marks tables)).Sublist (introducedAll [node]) := by
  rw [introducedAll_singleton]
  match node with
  | integer _ _ | boolean _ _ | varRef _ none | varRef _ (some _) | empty _ | returnVoid _ _
  | varDecl _ none | externDecl _ none | typedefDecl _ none | call _ none _
  | functionDef _ none _ _ => exact List.nil_sublist _
  | varDecl _ (some id) =>
    simp [marks, SymbolTable.introduce, SymbolTable.declaration, introduced]
  | externDecl _ (some id) =>
    simpa [marks, SymbolTable.introduce, SymbolTable.declaration, introduced, parts] using
      tables.declarations_signature id []
  | typedefDecl _ (some id) =>
    -- without a target the definition is not written, so that the marks can be fewer
    cases htarget : tables.types.target? (tables.symbols.typeOf id) <;>
      simp [marks, SymbolTable.introduce, SymbolTable.declaration, introduced, htarget]
  | functionDef _ (some id) params body =>
    have hinside := (tables.declarations_signature id params).append
      (declarations_marksAll tables body)
    simpa [marks, SymbolTable.introduce, SymbolTable.declaration, introduced, parts] using hinside
  | block _ body => simpa [marks, introduced, parts] using declarations_marksAll tables body
  | call _ (some id) args =>
    simpa [marks, SymbolTable.mention, introduced, parts] using declarations_marksAll tables args
  | cast _ target operand => simpa [marks, introduced, parts] using declarations_marks tables operand
  | returnValue _ value _ => simpa [marks, introduced, parts] using declarations_marks tables value
  | binary _ op lhs rhs =>
    have hoperands := (declarations_marks tables lhs).append (declarations_marks tables rhs)
    simpa [marks, introduced, parts, ← introducedAll_cons] using hoperands
  | ifThen _ cond body | whileLoop _ cond body =>
    have hparts := (declarations_marks tables cond).append (declarations_marksAll tables body)
    rw [parts, introducedAll_cons]
    simpa [marks, introduced] using hparts
  | ifElse _ cond thenBody elseBody =>
    have hbranches := (declarations_marksAll tables thenBody).append
      (declarations_marksAll tables elseBody)
    have hparts := (declarations_marks tables cond).append hbranches
    rw [parts, introducedAll_cons]
    simpa [marks, introduced] using hparts
  | forLoop _ init cond step body =>
    have hstep := (declarations_marks tables step).append (declarations_marksAll tables body)
    have hcond := (declarations_marks tables cond).append hstep
    have hparts := (declarations_marks tables init).append hcond
    rw [parts, introducedAll_cons init, introducedAll_cons cond, introducedAll_cons step]
    simpa [marks, introduced] using hparts

/-- So do the marks of several constructs. -/
lemma declarations_marksAll (tables : Tables) (nodes : List Node) :
    (declarations (marksAll tables nodes)).Sublist (introducedAll nodes) := by
  match nodes with
  | [] => exact List.nil_sublist _
  | node :: rest =>
    rw [marksAll_cons, declarations_append, introducedAll_cons]
    exact (declarations_marks tables node).append (declarations_marksAll tables rest)

end

end Node

end ParenC
