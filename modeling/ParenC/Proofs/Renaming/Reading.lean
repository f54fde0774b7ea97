/-
Reading looks at names only to compare them.

One statement per action: on data with other names it makes the same tree, and the same findings
up to their wording.  Nodes have no names in them, so that the tree is not renamed.  Scopes are
searched with the same result because different names stay different.

The names of functions have to stay what they are, because there is one name that means something:
a function called `main` is where the program starts.
-/
import ParenC.Proofs.Grammar
import ParenC.Proofs.Reading.Form
import ParenC.Proofs.Renaming.Basic
import ParenC.Proofs.Renaming.Text

namespace ParenC

variable {f : String → String} {α α' : Type} {map : α → α'}

namespace Reading

open CompileM Datum SymbolTable

/-! ## Tokens and tables -/

section Actions

variable {kept : SymbolTable → Prop}

lemma complain_renames {loc : Location} {complaint complaint' : Complaint} :
    Renames f kept id (complain loc complaint) (complain loc complaint') := .report

lemma refuseFor_renames {kind : TokenKind} {got : Token} :
    Renames f kept map (refuseFor kind got) (refuseFor kind (got.rename f)) := .refuse

lemma refuseToken_renames {got : Token} :
    Renames f kept map (refuseToken got) (refuseToken (got.rename f)) := .refuse

/-- A token that is no name. -/
lemma expectAtom_renames {kind : TokenKind} {datum : Datum} :
    Renames f kept (Token.rename f) (expectAtom kind datum) (expectAtom kind (datum.rename f)) := by
  cases datum with
  | atom token => exact .ite Iff.rfl .pure refuseFor_renames
  | list opening items closing => exact refuseFor_renames

/-- What goes on with a name may rely on that it is one. -/
lemma expectName_bind {datum : Datum} {next : Token → CompileM α} {next' : Token → CompileM α'}
    (hnext : ∀ token, datum = .atom token → token.kind = .ident →
      Renames f kept map (next token) (next' (token.respell f))) :
    Renames f kept map (expectAtom .ident datum >>= next)
      (expectAtom .ident (datum.rename f) >>= next') := by
  cases datum with
  | atom token =>
    by_cases h : token.kind = .ident
    · rw [Datum.rename, expectAtom, expectAtom, Token.rename_kind, if_pos h, if_pos h, pure_bind,
        pure_bind, Token.rename_of_ident h]
      exact hnext token rfl h
    · rw [Datum.rename, expectAtom, expectAtom, Token.rename_kind, if_neg h, if_neg h]
      exact .refuse_bind
  | list opening items closing => exact .refuse_bind

lemma expectEnd_renames (rest : List Datum) {closing : Token} :
    Renames f kept id (expectEnd rest closing)
      (expectEnd (renameAll f rest) (closing.rename f)) := by
  cases rest with
  | nil => exact .ite Iff.rfl .pure refuseFor_renames
  | cons datum rest =>
    simp only [expectEnd, renameAll, rename_first]
    exact refuseFor_renames

lemma registerType_renames {add add' : TypeTable → Except Defect (TypeId × TypeTable)}
    (h : ∀ types, add' (types.rename f) = Prod.map id (TypeTable.rename f) <$> add types) :
    Renames f kept id (registerType add) (registerType add') := by
  refine .get fun ws ws' halike => ?_
  have hadd : add' ws'.types = Prod.map id (TypeTable.rename f) <$> add ws.types := by
    rw [halike.types_eq, h]
  refine .bind (.promised (.of_map hadd)) fun added => ?_
  exact .bind (.modify fun _ _ h => h.with_types rfl) fun _ => .pure

lemma symbolAt_renames {id : SymbolId} :
    Renames f kept (Symbol.rename f) (symbolAt id) (symbolAt id) := by
  refine .get fun ws ws' h => .promised (.of_map ?_)
  rw [h.symbols_eq, rename_get]

end Actions

lemma changeSymbols_renames {change change' : SymbolTable → Except Defect SymbolTable}
    (h : ∀ symbols, change' (symbols.rename f) = SymbolTable.rename f <$> change symbols)
    (hkept : ∀ symbols symbols', symbols.KeepsFunctions f → change symbols = .ok symbols' →
      symbols'.KeepsFunctions f) :
    Renames f (KeepsFunctions f) id (changeSymbols change) (changeSymbols change') := by
  refine .get fun ws ws' halike => ?_
  rw [halike.symbols_eq, h]
  cases hchange : change ws.symbols with
  | error defect => exact fun _ _ _ => .defect
  | ok symbols =>
    have hsymbols := hkept ws.symbols symbols halike.symbols hchange
    exact .modify fun _ _ h => h.with_symbols rfl hsymbols

/-- Scopes are closed in the same way. -/
lemma withScope_renames {act : CompileM α} {act' : CompileM α'}
    (h : Renames f (KeepsFunctions f) map act act') :
    Renames f (KeepsFunctions f) map (withScope act) (withScope act') := by
  intro ws ws' halike
  have hsymbols : ws'.symbols.openScope = ws.symbols.openScope.rename f := by
    rw [halike.symbols_eq, rename_openScope]
  have hact := h _ _ (halike.with_symbols hsymbols halike.symbols.openScope)
  have hdepth : ws'.symbols.openScope.depth = ws.symbols.openScope.depth := by
    rw [hsymbols, rename_depth]
  simp only [withScope, hdepth]
  generalize act { ws with symbols := ws.symbols.openScope } = outcome at hact
  generalize act' { ws' with symbols := ws'.symbols.openScope } = outcome' at hact
  cases hact with
  | ok h | error he h =>
    dsimp only
    rw [h.symbols_eq, rename_closeScopeAt]
    cases hclose : SymbolTable.closeScopeAt _ _ with
    | error defect => exact .defect
    | ok symbols =>
      have hclosed := h.with_symbols rfl (h.symbols.closeScopeAt hclose)
      first
        | exact .ok hclosed
        | exact .error he hclosed
  | defect =>
    dsimp only
    split <;> exact .defect

section Names

variable (hf : Function.Injective f)

include hf

lemma declare_renames {name : Token} {sort : SymbolSort}
    (hname : sort = .function → f name.text = name.text) :
    Renames f (KeepsFunctions f) id (declare name sort) (declare (name.respell f) sort) := by
  refine .get fun ws ws' halike => ?_
  have hdeclare : ws'.symbols.declare (name.respell f).text sort =
      (ws.symbols.declare name.text sort).map (Prod.map id (SymbolTable.rename f)) := by
    rw [halike.symbols_eq]
    exact rename_declare hf ws.symbols name.text sort
  dsimp only
  rw [hdeclare]
  cases hdeclared : ws.symbols.declare name.text sort with
  | none => exact .bind complain_renames fun _ => .pure
  | some declared =>
    have hkept := halike.symbols.declare hname hdeclared
    exact .bind (.modify fun _ _ h => h.with_symbols rfl hkept) fun _ => .bind .log fun _ => .pure

lemma declareVariable_renames {place : Place} {name : Token} {type : TypeId} :
    Renames f (KeepsFunctions f) id (declareVariable place name type)
      (declareVariable place (name.respell f) type) := by
  refine .bind (declare_renames hf (by simp)) fun id? => ?_
  cases id? with
  | none => exact .pure
  | some id =>
    refine .bind (changeSymbols_renames (fun symbols => ?_) fun symbols symbols' h hset => ?_)
      fun _ => .pure
    · exact rename_set symbols id ⟨name.text, some type, .localVar none place.owner?⟩
    · exact h.set (by simp [SymbolKind.sort]) hset

lemma declareDefinition_renames {name : Token} {type : TypeId} :
    Renames f (KeepsFunctions f) id (declareDefinition name type)
      (declareDefinition (name.respell f) type) := by
  refine .bind (declare_renames hf (by simp)) fun id? => ?_
  cases id? with
  | none => exact .pure
  | some id =>
    refine .bind (changeSymbols_renames (fun symbols => ?_) fun symbols symbols' h hset => ?_)
      fun _ => .pure
    · exact rename_setType symbols id (some type)
    · exact h.setType hset

/-! ## Types -/

lemma namedType_renames {token : Token} (h : token.kind = .ident) :
    Renames f (KeepsFunctions f) id (namedType token) (namedType (token.rename f)) := by
  rw [Token.rename_of_ident h]
  refine .get fun ws ws' halike => ?_
  have hresolve : ws'.symbols.resolveSort (token.respell f).text .type =
      ws.symbols.resolveSort token.text .type := by
    rw [halike.symbols_eq]
    exact rename_resolveSort hf ws.symbols token.text .type
  refine .bind (.promised (.of_eq hresolve)) fun id? => ?_
  cases id? with
  | none => exact .bind complain_renames fun _ => .pure
  | some id => exact .bind symbolAt_renames fun symbol => .promised symbol.type_answersAs

end Names

lemma builtinType_renames {kept : SymbolTable → Prop} {token : Token} :
    Renames f kept id (builtinType token) (builtinType token) := by
  unfold builtinType
  cases Builtin.ofName? token.text with
  | none => exact .refuse
  | some which => exact .pure

lemma atomType_renames (hf : Function.Injective f) (token : Token) :
    Renames f (KeepsFunctions f) id (atomType token) (atomType (token.rename f)) := by
  unfold atomType
  rw [Token.rename_kind]
  split
  · rename_i hkind
    rw [Token.rename_of_ne (by simp [hkind])]
    exact builtinType_renames
  · rename_i hkind
    exact namedType_renames hf hkind
  · exact refuseFor_renames

/-- A name is there before exactly if its replacement is. -/
lemma any_respellBound (hf : Function.Injective f) (bound : List (Token × TypeId)) (name : Token) :
    (Token.respellBound f bound).any (·.1.text == (name.respell f).text) =
      bound.any (·.1.text == name.text) := by
  rw [Token.respellBound, List.any_map]
  refine congrArg bound.any (funext fun pair => ?_)
  simp [Token.respell, hf.eq_iff]

mutual

theorem typeExpr_renames (hf : Function.Injective f) (datum : Datum) :
    Renames f (KeepsFunctions f) id (typeExpr datum) (typeExpr (datum.rename f)) := by
  match datum with
  | .atom token => exact atomType_renames hf token
  | .list opening [] closing => exact refuseFor_renames
  | .list opening (.list _ _ _ :: rest) closing => exact refuseFor_renames
  | .list opening (.atom head :: rest) closing =>
    refine .ite (by rw [Token.rename_is_keyword]) ?_ refuseFor_renames
    refine .bind (bindings_renames hf true [] rest closing) fun fields => ?_
    refine registerType_renames fun types => ?_
    have hnames : (Token.respellBound f fields).map (fun pair => (pair.1.text, pair.2)) =
        (fields.map fun pair => (pair.1.text, pair.2)).map (Prod.map f id) := by
      simp [Token.respellBound, Token.respell]
    rw [hnames]
    exact types.rename_registerStruct _

theorem bindings_renames (hf : Function.Injective f) (distinct : Bool)
    (before : List (Token × TypeId)) (items : List Datum) (closing : Token) :
    Renames f (KeepsFunctions f) (Token.respellBound f) (bindings distinct before items closing)
      (bindings distinct (Token.respellBound f before) (renameAll f items)
        (closing.rename f)) := by
  match items with
  | [] =>
    unfold bindings
    refine .ite Iff.rfl ?_ refuseFor_renames
    rw [Token.respellBound, ← List.map_reverse]
    exact .pure
  | [nameDatum] => exact expectName_bind fun _ _ _ => refuseFor_renames
  | [nameDatum, colonDatum] =>
    exact expectName_bind fun _ _ _ => .bind expectAtom_renames fun _ => refuseFor_renames
  | nameDatum :: colonDatum :: typeDatum :: rest =>
    refine expectName_bind fun name _ _ => .bind expectAtom_renames fun _ => ?_
    refine .bind (typeExpr_renames hf typeDatum) fun type => .ite ?_ ?_ ?_
    · rw [any_respellBound hf]
    · exact .bind complain_renames fun _ => bindings_renames hf distinct before rest closing
    · exact bindings_renames hf distinct ((name, type) :: before) rest closing

end

lemma params_renames (hf : Function.Injective f) (datum : Datum) :
    Renames f (KeepsFunctions f) (Token.respellBound f) (params datum)
      (params (datum.rename f)) := by
  cases datum with
  | atom token => exact refuseFor_renames
  | list opening items closing => exact bindings_renames hf false [] items closing

/-! ## Single constructs -/

section Nodes

variable {kept : SymbolTable → Prop}

/-- The other name means what the name means. -/
lemma resolve_respell (hf : Function.Injective f) {ws ws' : Workspace} (h : ws.Alike f kept ws')
    {token : Token} :
    ws'.symbols.resolve (token.respell f).text = ws.symbols.resolve token.text := by
  rw [h.symbols_eq]
  exact rename_resolve hf ws.symbols token.text

lemma integerNode_renames {token : Token} :
    Renames f kept id (integerNode token) (integerNode token) := by
  unfold integerNode
  cases IntegerValue.ofText token.text with
  | ok value => exact .pure
  | error fault => exact .refuse

lemma variableNode_renames (hf : Function.Injective f) {place : Place} {token : Token}
    (h : token.kind = .ident) :
    Renames f kept id (variableNode place token) (variableNode place (token.rename f)) := by
  rw [Token.rename_of_ident h]
  refine .get fun ws ws' halike => ?_
  rw [resolve_respell hf halike]
  cases ws.symbols.resolve token.text with
  | none => exact .bind complain_renames fun _ => .pure
  | some symbol =>
    refine .bind symbolAt_renames fun entry => ?_
    dsimp only [Symbol.rename]
    cases entry.kind with
    | localVar offset function? =>
      exact .ite Iff.rfl (.bind complain_renames fun _ => .pure) .pure
    | function | type => exact .bind complain_renames fun _ => .pure

lemma atomNode_renames (hf : Function.Injective f) {place : Place} {token : Token} :
    Renames f kept id (atomNode place token) (atomNode place (token.rename f)) := by
  by_cases h : token.kind = .ident
  · simp only [atomNode, Token.rename_kind, h]
    exact variableNode_renames hf h
  · rw [Token.rename_of_ne h]
    unfold atomNode
    split
    · exact integerNode_renames
    · exact absurd ‹_› h
    · exact .ite Iff.rfl .pure (.ite Iff.rfl .pure .refuse)
    · exact .refuse

lemma binaryNode_renames {loc : Location} {op : BinOp} {text : String} {operands : List Node} :
    Renames f kept id (binaryNode loc op text operands) (binaryNode loc op text operands) :=
  .ite Iff.rfl (.bind complain_renames fun _ => .pure) .pure

lemma castNode_renames {loc : Location} {target : TypeId} {operands : List Node} :
    Renames f kept id (castNode loc target operands) (castNode loc target operands) :=
  .ite Iff.rfl (.bind complain_renames fun _ => .pure) .pure

lemma applyNode_renames (hf : Function.Injective f) {loc : Location} {head : Token}
    (hhead : head.kind = .ident) {operands operands' : CompileM (List Node)}
    (h : Renames f kept id operands operands') :
    Renames f kept id (applyNode loc head operands)
      (applyNode loc (head.rename f) operands') := by
  rw [Token.rename_of_ident hhead]
  refine .get fun ws ws' halike => ?_
  rw [resolve_respell hf halike]
  cases ws.symbols.resolve head.text with
  | none => exact .bind complain_renames fun _ => .bind h fun _ => .pure
  | some symbol =>
    refine .bind symbolAt_renames fun entry => ?_
    obtain ⟨name, type?, kind⟩ := entry
    dsimp only [Symbol.rename]
    cases kind with
    | type =>
      exact .bind (.promised (Symbol.type_answersAs ⟨name, type?, .type⟩)) fun _ =>
        .bind h fun _ => castNode_renames
    | function params prototyped external => exact .bind h fun _ => .pure
    | localVar offset function? => exact .bind complain_renames fun _ => .bind h fun _ => .pure

lemma returnNode_renames {place : Place} {loc : Location} {value? : Option Node} :
    Renames f kept id (returnNode place loc value?) (returnNode place loc value?) := by
  rcases place with _ | _ | function
  · exact .bind complain_renames fun _ => .pure
  · exact .pure
  · cases value? with
    | none => exact .pure
    | some value => exact .pure

end Nodes

/-! ## Declarations -/

section Declarations

variable (hf : Function.Injective f)

include hf

lemma variableDecl_renames {place : Place} {loc : Location} {items : List Datum} {closing : Token} :
    Renames f (KeepsFunctions f) id (variableDecl place loc items closing)
      (variableDecl place loc (renameAll f items) (closing.rename f)) := by
  rcases items with _ | ⟨typeDatum, _ | ⟨nameDatum, rest⟩⟩
  · exact refuseFor_renames
  · exact .bind (typeExpr_renames hf typeDatum) fun _ => refuseFor_renames
  · refine .bind (typeExpr_renames hf typeDatum) fun type => expectName_bind fun name _ _ => ?_
    refine .bind (declareVariable_renames hf) fun id? => ?_
    exact .bind (expectEnd_renames rest) fun _ => .pure

lemma definitionDecl_renames {loc : Location} {items : List Datum} {closing : Token} :
    Renames f (KeepsFunctions f) id (definitionDecl loc items closing)
      (definitionDecl loc (renameAll f items) (closing.rename f)) := by
  rcases items with _ | ⟨nameDatum, _ | ⟨typeDatum, rest⟩⟩
  · exact refuseFor_renames
  · exact expectName_bind fun _ _ _ => refuseFor_renames
  · refine expectName_bind fun name _ _ => .bind (typeExpr_renames hf typeDatum) fun target => ?_
    have hadd : ∀ types : TypeTable, (types.rename f).registerDefinition (name.respell f).text
        target = Prod.map id (TypeTable.rename f) <$> types.registerDefinition name.text target :=
      fun types => types.rename_registerDefinition name.text target
    refine .bind (registerType_renames hadd) fun defined => ?_
    refine .bind (declareDefinition_renames hf) fun id? => ?_
    exact .bind (expectEnd_renames rest) fun _ => .pure

omit hf in
/-- A signature has the names of the parameters in it, and that of the function. -/
lemma setSignature_renames {id? : Option SymbolId} {name : Token} {bound : List (Token × TypeId)}
    {result : TypeId} {prototyped external : Bool} (hname : f name.text = name.text) :
    Renames f (KeepsFunctions f) id (setSignature id? name bound result prototyped external)
      (setSignature id? (name.respell f) (Token.respellBound f bound) result prototyped
        external) := by
  have hsignature : (Token.respellBound f bound).map (fun pair => (⟨pair.1.text, pair.2⟩ : Param)) =
      (bound.map fun pair => (⟨pair.1.text, pair.2⟩ : Param)).map (Param.rename f) := by
    simp [Token.respellBound, Token.respell, Param.rename]
  cases id? with
  | none => exact .pure
  | some id =>
    simp only [setSignature, hsignature]
    refine changeSymbols_renames (fun symbols => ?_) fun symbols symbols' h hset => ?_
    · exact rename_set symbols id ⟨name.text, some result,
        .function (bound.map fun pair => ⟨pair.1.text, pair.2⟩) prototyped external⟩
    · exact h.set (fun _ => hname) hset

lemma externalDecl_renames {loc : Location} {items : List Datum} {closing : Token}
    (hname : KeepsName f items) :
    Renames f (KeepsFunctions f) id (externalDecl loc items closing)
      (externalDecl loc (renameAll f items) (closing.rename f)) := by
  cases items with
  | nil => exact refuseFor_renames
  | cons nameDatum afterName =>
    refine expectName_bind fun name hdatum hkind => ?_
    have hkept : f name.text = name.text := by
      rw [hdatum] at hname
      exact hname hkind
    refine .bind (declare_renames hf fun _ => hkept) fun id? => ?_
    cases afterName with
    | nil =>
      exact .bind (setSignature_renames hkept) fun _ => .bind (expectEnd_renames []) fun _ => .pure
    | cons datum rest =>
      cases datum with
      | atom token =>
        exact .bind (setSignature_renames hkept) fun _ =>
          .bind (expectEnd_renames (.atom token :: rest)) fun _ => .pure
      | list opening inner close =>
        refine .bind (params_renames hf (.list opening inner close)) fun bound => ?_
        cases rest with
        | nil => exact refuseFor_renames
        | cons typeDatum rest =>
          refine .bind (typeExpr_renames hf typeDatum) fun result => ?_
          exact .bind (setSignature_renames hkept) fun _ =>
            .bind (expectEnd_renames rest) fun _ => .pure

lemma declareParams_renames {place : Place} (bound : List (Token × TypeId)) :
    Renames f (KeepsFunctions f) id (declareParams place bound)
      (declareParams place (Token.respellBound f bound)) := by
  induction bound with
  | nil => exact .pure
  | cons pair rest ih =>
    exact .bind (declareVariable_renames hf) fun id? => .bind ih fun ids => .pure

end Declarations

lemma checkFunctionPlace_renames {kept : SymbolTable → Prop} {place : Place} {name : Token} :
    Renames f kept id (checkFunctionPlace place name)
      (checkFunctionPlace place (name.respell f)) := by
  cases place with
  | body function? => exact complain_renames
  | topLevel =>
    refine .get fun ws ws' h => .ite ?_ complain_renames .pure
    rw [h.symbols_eq, rename_depth]

/-! ## Lists -/

lemma isAlternative_rename (datum : Datum) :
    isAlternative (datum.rename f) = isAlternative datum := by
  match datum with
  | .atom _ | .list _ [] _ | .list _ (.list _ _ _ :: _) _ => rfl
  | .list _ (.atom head :: _) _ => exact head.rename_is_keyword "else"

/-- The keyword of a function is followed by its name. -/
lemma keepsName_of_selects {head : Token} {rest : List Datum} (hkeyword : head.kind = .keyword)
    (hkeeps : KeepsHead f (.atom head :: rest)) {construct : Construct}
    (hselected : Construct.ofKeyword? head.text = some construct)
    (h : construct = .function ∨ construct = .external) : KeepsName f rest := by
  refine hkeeps ?_
  have htext := Construct.ofKeyword?_eq_some.mp hselected
  rcases h with rfl | rfl <;> simp [Token.declaresFunction, Token.is, hkeyword, htext,
    Construct.keyword]

mutual

theorem form_renames (hf : Function.Injective f) (place : Place) (datum : Datum)
    (h : datum.Keeps f) :
    Renames f (KeepsFunctions f) id (form place datum) (form place (datum.rename f)) := by
  match datum with
  | .atom token => exact refuseFor_renames
  | .list opening items closing => exact list_renames hf place opening items closing h.1 h.2

theorem item_renames (hf : Function.Injective f) (place : Place) (datum : Datum)
    (h : datum.Keeps f) :
    Renames f (KeepsFunctions f) id (item place datum) (item place (datum.rename f)) := by
  match datum with
  | .atom token => exact atomNode_renames hf
  | .list opening items closing => exact list_renames hf place opening items closing h.1 h.2

theorem list_renames (hf : Function.Injective f) (place : Place) (opening : Token)
    (items : List Datum) (closing : Token) (hhead : KeepsHead f items) (h : KeepsAll f items) :
    Renames f (KeepsFunctions f) id (list place opening items closing)
      (list place (opening.rename f) (renameAll f items) (closing.rename f)) := by
  match items with
  | [] => exact .ite Iff.rfl .pure refuseToken_renames
  | .list opening' inner closing' :: rest =>
    refine .bind (withScope_renames ?_) fun _ => .pure
    refine .bind (form_renames hf place (.list opening' inner closing') h.1) fun node => ?_
    exact .bind (statements_renames hf place rest closing h.2) fun nodes => .pure
  | .atom head :: rest =>
    -- only names are renamed, so that in the other cases the same is selected
    by_cases hident : head.kind = .ident
    · simp only [list, renameAll, Datum.rename, Datum.atom?, Token.rename_kind, hident]
      exact applyNode_renames hf hident (operands_renames hf place rest closing h.2)
    · simp only [list, renameAll, Datum.rename, Datum.atom?, Token.rename_of_ne hident]
      cases hkind : head.kind with
      | ident => exact absurd hkind hident
      | operator =>
        dsimp only
        cases BinOp.ofText? head.text with
        | none => exact .refuse
        | some op =>
          exact .bind (operands_renames hf place rest closing h.2) fun _ => binaryNode_renames
      | typeName =>
        refine .bind builtinType_renames fun target => ?_
        exact .bind (operands_renames hf place rest closing h.2) fun _ => castNode_renames
      | keyword =>
        dsimp only
        cases hselected : Construct.ofKeyword? head.text with
        | none => exact .refuse
        | some construct =>
          have hname := keepsName_of_selects hkind hhead hselected
          cases construct with
          | binding => exact variableDecl_renames hf
          | definition => exact definitionDecl_renames hf
          | external => exact externalDecl_renames hf (hname (.inr rfl))
          | function => exact functionForm_renames hf place _ rest closing (hname (.inl rfl)) h.2
          | conditional => exact conditionalForm_renames hf place _ rest closing h.2
          | alternative =>
            refine .bind complain_renames fun _ => ?_
            exact .bind (withScope_renames (statements_renames hf place rest closing h.2))
              fun _ => .pure
          | whileLoop => exact whileForm_renames hf place _ rest closing h.2
          | forLoop => exact withScope_renames (forForm_renames hf place _ rest closing h.2)
          | result => exact returnForm_renames hf place _ rest closing h.2
      | lparen | rparen | colon | integer | eof => exact .refuse

theorem functionForm_renames (hf : Function.Injective f) (place : Place) (loc : Location)
    (items : List Datum) (closing : Token) (hname : KeepsName f items) (h : KeepsAll f items) :
    Renames f (KeepsFunctions f) id (functionForm place loc items closing)
      (functionForm place loc (renameAll f items) (closing.rename f)) := by
  match items with
  | [] => exact refuseFor_renames
  | nameDatum :: afterName =>
    rw [renameAll, functionForm, functionForm]
    refine expectName_bind fun name hdatum hkind => ?_
    have hkept : f name.text = name.text := by
      rw [hdatum] at hname
      exact hname hkind
    refine .bind checkFunctionPlace_renames fun _ => ?_
    refine .bind (declare_renames hf fun _ => hkept) fun id? => ?_
    refine .bind (withScope_renames (?_ : Renames f _ id _ _)) fun _ => .pure
    match afterName with
    | [] => exact refuseFor_renames
    | [paramsDatum] =>
      refine .bind (params_renames hf paramsDatum) fun bound => ?_
      exact .bind (declareParams_renames hf bound) fun _ => refuseFor_renames
    | paramsDatum :: typeDatum :: bodyData =>
      refine .bind (params_renames hf paramsDatum) fun bound => ?_
      refine .bind (declareParams_renames hf bound) fun ids => ?_
      refine .bind (typeExpr_renames hf typeDatum) fun result => ?_
      refine .bind (setSignature_renames hkept) fun _ => ?_
      exact .bind (statements_renames hf (.body id?) bodyData closing h.2.2.2) fun body => .pure

theorem conditionalForm_renames (hf : Function.Injective f) (place : Place) (loc : Location)
    (items : List Datum) (closing : Token) (h : KeepsAll f items) :
    Renames f (KeepsFunctions f) id (conditionalForm place loc items closing)
      (conditionalForm place loc (renameAll f items) (closing.rename f)) := by
  match items with
  | [] => exact refuseToken_renames
  | condDatum :: branches =>
    refine .bind (item_renames hf place condDatum h.1) fun cond => ?_
    refine .bind (withScope_renames (branch_renames hf place branches closing h.2))
      fun thenBody => ?_
    refine .bind (alternative?_renames hf place branches closing h.2) fun elseBody? => ?_
    cases elseBody? with
    | none => exact .pure
    | some elseBody => exact .pure

theorem whileForm_renames (hf : Function.Injective f) (place : Place) (loc : Location)
    (items : List Datum) (closing : Token) (h : KeepsAll f items) :
    Renames f (KeepsFunctions f) id (whileForm place loc items closing)
      (whileForm place loc (renameAll f items) (closing.rename f)) := by
  match items with
  | [] => exact refuseToken_renames
  | condDatum :: bodyData =>
    refine .bind (item_renames hf place condDatum h.1) fun cond => ?_
    exact .bind (withScope_renames (statements_renames hf place bodyData closing h.2))
      fun _ => .pure

theorem forForm_renames (hf : Function.Injective f) (place : Place) (loc : Location)
    (items : List Datum) (closing : Token) (h : KeepsAll f items) :
    Renames f (KeepsFunctions f) id (forForm place loc items closing)
      (forForm place loc (renameAll f items) (closing.rename f)) := by
  match items with
  | [] => exact refuseToken_renames
  | [initDatum] =>
    exact .bind (item_renames hf place initDatum h.1) fun _ => refuseToken_renames
  | [initDatum, condDatum] =>
    refine .bind (item_renames hf place initDatum h.1) fun _ => ?_
    exact .bind (item_renames hf place condDatum h.2.1) fun _ => refuseToken_renames
  | initDatum :: condDatum :: stepDatum :: bodyData =>
    refine .bind (item_renames hf place initDatum h.1) fun init => ?_
    refine .bind (item_renames hf place condDatum h.2.1) fun cond => ?_
    refine .bind (item_renames hf place stepDatum h.2.2.1) fun step => ?_
    exact .bind (statements_renames hf place bodyData closing h.2.2.2) fun _ => .pure

theorem returnForm_renames (hf : Function.Injective f) (place : Place) (loc : Location)
    (items : List Datum) (closing : Token) (h : KeepsAll f items) :
    Renames f (KeepsFunctions f) id (returnForm place loc items closing)
      (returnForm place loc (renameAll f items) (closing.rename f)) := by
  match items with
  | [] => exact .ite Iff.rfl returnNode_renames refuseToken_renames
  | valueDatum :: rest =>
    refine .bind (item_renames hf place valueDatum h.1) fun value => ?_
    exact .bind returnNode_renames fun node => .bind (expectEnd_renames rest) fun _ => .pure

theorem statements_renames (hf : Function.Injective f) (place : Place) (items : List Datum)
    (closing : Token) (h : KeepsAll f items) :
    Renames f (KeepsFunctions f) id (statements place items closing)
      (statements place (renameAll f items) (closing.rename f)) := by
  match items with
  | [] => exact .ite Iff.rfl .pure refuseFor_renames
  | datum :: rest =>
    refine .bind (form_renames hf place datum h.1) fun node => ?_
    exact .bind (statements_renames hf place rest closing h.2) fun nodes => .pure

theorem operands_renames (hf : Function.Injective f) (place : Place) (items : List Datum)
    (closing : Token) (h : KeepsAll f items) :
    Renames f (KeepsFunctions f) id (operands place items closing)
      (operands place (renameAll f items) (closing.rename f)) := by
  match items with
  | [] => exact .ite Iff.rfl .pure refuseToken_renames
  | datum :: rest =>
    refine .bind (item_renames hf place datum h.1) fun node => ?_
    exact .bind (operands_renames hf place rest closing h.2) fun nodes => .pure

theorem branch_renames (hf : Function.Injective f) (place : Place) (items : List Datum)
    (closing : Token) (h : KeepsAll f items) :
    Renames f (KeepsFunctions f) id (branch place items closing)
      (branch place (renameAll f items) (closing.rename f)) := by
  match items with
  | [] => exact .ite Iff.rfl .pure refuseFor_renames
  | datum :: rest =>
    refine .ite (by rw [isAlternative_rename]) .pure ?_
    refine .bind (form_renames hf place datum h.1) fun node => ?_
    exact .bind (branch_renames hf place rest closing h.2) fun nodes => .pure

theorem alternative?_renames (hf : Function.Injective f) (place : Place) (items : List Datum)
    (closing : Token) (h : KeepsAll f items) :
    Renames f (KeepsFunctions f) id (alternative? place items closing)
      (alternative? place (renameAll f items) (closing.rename f)) := by
  match items with
  | [] => exact .pure
  | .atom _ :: rest | .list _ [] _ :: rest | .list _ (.list _ _ _ :: _) _ :: rest =>
    exact alternative?_renames hf place rest closing h.2
  | .list opening (.atom head :: bodyData) innerClosing :: rest =>
    refine .ite (by rw [Token.rename_is_keyword]) ?_
      (alternative?_renames hf place rest closing h.2)
    refine .bind (withScope_renames
      (statements_renames hf place bodyData innerClosing h.1.2.2)) fun body => ?_
    exact .bind (expectEnd_renames rest) fun _ => .pure

end

/-! ## Programs -/

lemma topForms_renames (hf : Function.Injective f) (items : List Datum) (h : KeepsAll f items) :
    Renames f (KeepsFunctions f) id (topForms items) (topForms (renameAll f items)) := by
  induction items with
  | nil => exact .pure
  | cons datum rest ih =>
    exact .bind (form_renames hf .topLevel datum h.1) fun node => .bind (ih h.2) fun nodes => .pure

/-- A function is called `main` if it is after its name was kept. -/
lemma isEntryPoint_rename {tables : Tables} (hkept : tables.symbols.KeepsFunctions f) {item : Node}
    (hvalid : item.Valid tables) :
    isEntryPoint (tables.symbols.rename f) item = isEntryPoint tables.symbols item := by
  unfold isEntryPoint
  split
  · rename_i loc id params body
    obtain ⟨symbol, hget, hsort⟩ := hvalid.1 id rfl
    have hname := hkept symbol (Array.mem_of_getElem? hget) hsort
    rw [rename_get, get_eq_ok_iff.mpr hget]
    simp only [Functor.map, Except.map, Bind.bind, Except.bind, Symbol.rename, hname]
  · rfl

lemma entryPoint?_rename {tables : Tables} (hkept : tables.symbols.KeepsFunctions f)
    {items : List Node} (hvalid : ∀ item ∈ items, item.Valid tables) :
    entryPoint? (tables.symbols.rename f) items = entryPoint? tables.symbols items := by
  induction items with
  | nil => rfl
  | cons item rest ih =>
    rw [entryPoint?, entryPoint?, isEntryPoint_rename hkept (hvalid item (by simp)),
      ih fun node hnode => hvalid node (by simp [hnode])]

/-- Reading a text with other names. -/
theorem program_renames (hf : Function.Injective f) {body : List Token}
    (hbody : ∀ token ∈ body, token.kind ≠ .eof) (loc : Location)
    (hnames : ∀ name ∈ functionNames body, f name = name) {ws ws' : Workspace}
    (halike : ws.Alike f (KeepsFunctions f) ws') (sound : ws.toTables.Sound) :
    Renamed f (KeepsFunctions f) id (program (body ++ [Token.eof loc]) ws)
      (program (body.map (Token.rename f) ++ [Token.eof loc]) ws') := by
  have hrenamed : ∀ token ∈ body.map (Token.rename f), token.kind ≠ .eof := by
    intro token htoken
    obtain ⟨original, horiginal, rfl⟩ := List.mem_map.mp htoken
    exact hbody original horiginal
  have htop : (Nesting.ofTokens (Token.eof loc) (body.map (Token.rename f))).inner =
      (Nesting.ofTokens (Token.eof loc) body).inner.rename f :=
    congrArg Nesting.inner (Nesting.ofTokens_rename (Token.eof loc) body)
  have hkeeps : KeepsAll f (Nesting.ofTokens (Token.eof loc) body).inner.items :=
    (Nesting.ofTokens_keeps hnames).1
  simp only [program, Remainder.ofStream_eq hbody, Remainder.ofStream_eq hrenamed, htop]
  generalize (Nesting.ofTokens (Token.eof loc) body).inner = top at hkeeps
  refine (topForms_renames hf top.items hkeeps ws ws' halike).bind ?_
  intro items ws₁ ws₁' hrun halike₁
  -- from here on the symbols stay what they are
  have hvalid : ∀ item ∈ items, item.Valid ws₁.toTables := fun item hitem =>
    ((topForms_does top.items sound).run hrun).2.valid item
      (Node.mem_checkOrderAll.mpr ⟨item, hitem, item.self_mem_checkOrder⟩)
  refine (Renames.run (?_ : Renames f (fun symbols => symbols = ws₁.symbols) id _ _)
    (halike₁.imp rfl)).imp fun symbols hsymbols => hsymbols ▸ halike₁.symbols
  -- the last steps, whether or not there was something to say about `main`
  have hfinish : Renames f (fun symbols => symbols = ws₁.symbols) id (do
        let ws ← get
        if ws.symbols.depth ≠ 1 then throw (.defect .unbalancedScopes)
        log (.parsed items.length ws.symbols.size ws.types.size)
        return (⟨items⟩ : Program)) (do
        let ws ← get
        if ws.symbols.depth ≠ 1 then throw (.defect .unbalancedScopes)
        log (.parsed items.length ws.symbols.size ws.types.size)
        return (⟨items⟩ : Program)) := by
    refine .get fun ws ws' h => .ite (by rw [h.symbols_eq, rename_depth]) ?_ ?_
    · exact fun _ _ _ => .defect
    · exact .bind .log fun _ => .pure
  refine .ite Iff.rfl .refuse_bind (.get fun ws ws' h => ?_)
  have hentry : entryPoint? ws'.symbols items = entryPoint? ws.symbols items := by
    rw [h.symbols_eq, h.symbols]
    exact entryPoint?_rename halike₁.symbols hvalid
  refine .bind (.promised (.of_eq hentry)) fun loc? => ?_
  cases loc? with
  | none => exact hfinish
  | some loc => exact .ite Iff.rfl (.bind complain_renames fun _ => hfinish) hfinish

end Reading

end ParenC
