/-
Reading does not look at places.

One statement per action: on data at other places it has the outcome at other places.  The places
of nodes and findings are those of tokens that the action was given.
-/
import ParenC.Proofs.Datum
import ParenC.Proofs.Reading.Records
import ParenC.Proofs.Relocation.Basic

namespace ParenC

variable {g : Location → Location} {α α' : Type} {move : α → α'}

/-! ## Data -/

lemma Datum.first_relocate (datum : Datum) :
    (datum.relocate g).first = datum.first.relocate g := by
  cases datum <;> rfl

/-- The rest of a list at other places. -/
def Remainder.relocate (g : Location → Location) (remainder : Remainder) : Remainder :=
  ⟨Datum.relocateAll g remainder.items, remainder.closing.relocate g⟩

/-- The rests of nested lists at other places. -/
def Nesting.relocate (g : Location → Location) (nesting : Nesting) : Nesting :=
  ⟨nesting.inner.relocate g, nesting.outer.map (Remainder.relocate g)⟩

/-- Parentheses are matched by the kinds of tokens. -/
lemma Nesting.ofTokens_relocate (eof : Token) (tokens : List Token) :
    ofTokens (eof.relocate g) (tokens.map (Token.relocate g)) =
      (ofTokens eof tokens).relocate g := by
  induction tokens with
  | nil => rfl
  | cons token rest ih =>
    simp only [List.map_cons, ofTokens, Token.relocate_kind, ih]
    split
    · -- an opening parenthesis closes the innermost rest to a list
      rcases ofTokens eof rest with ⟨inner, _ | ⟨outer, others⟩⟩ <;> rfl
    · rfl
    · rfl

/-- Tokens with types. -/
def Token.relocateBound (g : Location → Location) (bound : List (Token × TypeId)) :
    List (Token × TypeId) :=
  bound.map fun pair => (pair.1.relocate g, pair.2)

namespace Node

lemma relocateAll_length (nodes : List Node) : (relocateAll g nodes).length = nodes.length := by
  rw [relocateAll_eq_map, List.length_map]

/-- The operand at a position, or nothing at the place of the operator. -/
lemma relocateAll_getD (nodes : List Node) (i : Nat) (loc : Location) :
    (relocateAll g nodes)[i]?.getD (empty (g loc)) = (nodes[i]?.getD (empty loc)).relocate g := by
  rw [relocateAll_eq_map, List.getElem?_map]
  cases nodes[i]? <;> rfl

end Node

namespace Reading

open CompileM

/-! ## Tokens and tables -/

lemma complain_moves {loc : Location} {complaint : Complaint} :
    Moves g id (complain loc complaint) (complain (g loc) complaint) := .report

lemma refuseFor_moves {kind : TokenKind} {got : Token} :
    Moves g move (refuseFor kind got) (refuseFor kind (got.relocate g)) := .refuse rfl

lemma refuseToken_moves {got : Token} :
    Moves g move (refuseToken got) (refuseToken (got.relocate g)) := .refuse rfl

lemma expectAtom_moves {kind : TokenKind} {datum : Datum} :
    Moves g (Token.relocate g) (expectAtom kind datum) (expectAtom kind (datum.relocate g)) := by
  cases datum with
  | atom token => exact .ite Iff.rfl .pure refuseFor_moves
  | list opening items closing => exact refuseFor_moves

lemma expectEnd_moves (rest : List Datum) {closing : Token} :
    Moves g id (expectEnd rest closing)
      (expectEnd (Datum.relocateAll g rest) (closing.relocate g)) := by
  cases rest with
  | nil => exact .ite Iff.rfl .pure refuseFor_moves
  | cons datum rest =>
    simp only [expectEnd, Datum.relocateAll, Datum.first_relocate]
    exact refuseFor_moves

lemma changeSymbols_moves {change : SymbolTable → Except Defect SymbolTable} :
    Moves g id (changeSymbols change) (changeSymbols change) :=
  .get fun _ => .bind .promised_same fun _ => .modify fun _ => rfl

lemma registerType_moves {add : TypeTable → Except Defect (TypeId × TypeTable)} :
    Moves g id (registerType add) (registerType add) :=
  .get fun _ => .bind .promised_same fun _ => .bind (.modify fun _ => rfl) fun _ => .pure

lemma symbolAt_moves {symbol : SymbolId} : Moves g id (symbolAt symbol) (symbolAt symbol) :=
  .get fun _ => .promised_same

/-- Scopes have no places. -/
lemma withScope_moves (move : α → α') {act : CompileM α} {act' : CompileM α'}
    (h : Moves g move act act') : Moves g move (withScope act) (withScope act') := by
  intro ws
  have hact := h { ws with symbols := ws.symbols.openScope }
  have hopen : { Workspace.relocate g ws with
      symbols := (Workspace.relocate g ws).symbols.openScope } =
      Workspace.relocate g { ws with symbols := ws.symbols.openScope } := rfl
  simp only [withScope, hopen]
  generalize act { ws with symbols := ws.symbols.openScope } = outcome at hact
  generalize act' (Workspace.relocate g { ws with symbols := ws.symbols.openScope }) = outcome'
    at hact
  cases hact with
  | ok =>
    dsimp only [Workspace.relocate]
    split
    · exact .ok
    · exact .defect
  | error =>
    dsimp only [Workspace.relocate]
    split
    · exact .error
    · exact .defect
  | defect =>
    dsimp only
    split <;> split <;> exact .defect

lemma declare_moves {name : Token} {sort : SymbolSort} :
    Moves g id (declare name sort) (declare (name.relocate g) sort) := by
  refine .get fun ws => ?_
  simp only [Token.relocate_text, Workspace.relocate_toTables]
  cases ws.symbols.declare name.text sort with
  | none => exact .bind complain_moves fun _ => .pure
  | some declared => exact .bind (.modify fun _ => rfl) fun _ => .bind .log fun _ => .pure

lemma declareVariable_moves {place : Place} {name : Token} {type : TypeId} :
    Moves g id (declareVariable place name type)
      (declareVariable place (name.relocate g) type) := by
  refine .bind declare_moves fun id? => ?_
  cases id? with
  | none => exact .pure
  | some symbol => exact .bind changeSymbols_moves fun _ => .pure

lemma declareDefinition_moves {name : Token} {type : TypeId} :
    Moves g id (declareDefinition name type) (declareDefinition (name.relocate g) type) := by
  refine .bind declare_moves fun id? => ?_
  cases id? with
  | none => exact .pure
  | some symbol => exact .bind changeSymbols_moves fun _ => .pure

/-! ## Types -/

lemma builtinType_moves {token : Token} :
    Moves g id (builtinType token) (builtinType (token.relocate g)) := by
  simp only [builtinType, Token.relocate_text]
  cases Builtin.ofName? token.text with
  | none => exact refuseToken_moves
  | some which => exact .pure

lemma namedType_moves {token : Token} :
    Moves g id (namedType token) (namedType (token.relocate g)) := by
  refine .get fun ws => .bind .promised_same fun id? => ?_
  cases id? with
  | none => exact .bind complain_moves fun _ => .pure
  | some symbol => exact .bind symbolAt_moves fun _ => .promised_same

lemma atomType_moves {token : Token} :
    Moves g id (atomType token) (atomType (token.relocate g)) := by
  simp only [atomType, Token.relocate_kind]
  split
  · exact builtinType_moves
  · exact namedType_moves
  · exact refuseFor_moves

mutual

theorem typeExpr_moves (datum : Datum) :
    Moves g id (typeExpr datum) (typeExpr (datum.relocate g)) := by
  match datum with
  | .atom token => exact atomType_moves
  | .list opening [] closing => exact refuseFor_moves
  | .list opening (.list _ _ _ :: rest) closing => exact refuseFor_moves
  | .list opening (.atom head :: rest) closing =>
    refine .ite Iff.rfl ?_ refuseFor_moves
    refine .bind (bindings_moves true [] rest closing) fun fields => ?_
    have hnames : (Token.relocateBound g fields).map (fun pair => (pair.1.text, pair.2)) =
        fields.map fun pair => (pair.1.text, pair.2) := by
      simp [Token.relocateBound, Token.relocate]
    simp only [hnames]
    exact registerType_moves

theorem bindings_moves (distinct : Bool) (before : List (Token × TypeId)) (items : List Datum)
    (closing : Token) : Moves g (Token.relocateBound g) (bindings distinct before items closing)
      (bindings distinct (Token.relocateBound g before) (Datum.relocateAll g items)
        (closing.relocate g)) := by
  match items with
  | [] =>
    unfold bindings
    refine .ite Iff.rfl ?_ refuseFor_moves
    rw [Token.relocateBound, ← List.map_reverse]
    exact .pure
  | [nameDatum] => exact .bind expectAtom_moves fun _ => refuseFor_moves
  | [nameDatum, colonDatum] =>
    exact .bind expectAtom_moves fun _ => .bind expectAtom_moves fun _ => refuseFor_moves
  | nameDatum :: colonDatum :: typeDatum :: rest =>
    refine .bind expectAtom_moves fun name => .bind expectAtom_moves fun _ => ?_
    refine .bind (typeExpr_moves typeDatum) fun type => .ite ?_ ?_ ?_
    · simp [Token.relocateBound, Token.relocate]
    · exact .bind complain_moves fun _ => bindings_moves distinct before rest closing
    · exact bindings_moves distinct ((name, type) :: before) rest closing

end

lemma params_moves (datum : Datum) :
    Moves g (Token.relocateBound g) (params datum) (params (datum.relocate g)) := by
  cases datum with
  | atom token => exact refuseFor_moves
  | list opening items closing => exact bindings_moves false [] items closing

/-! ## Single constructs -/

lemma integerNode_moves {token : Token} :
    Moves g (Node.relocate g) (integerNode token) (integerNode (token.relocate g)) := by
  simp only [integerNode, Token.relocate_text]
  cases IntegerValue.ofText token.text with
  | ok value => exact .pure
  | error fault => exact .refuse rfl

lemma variableNode_moves {place : Place} {token : Token} :
    Moves g (Node.relocate g) (variableNode place token)
      (variableNode place (token.relocate g)) := by
  refine .get fun ws => ?_
  simp only [Token.relocate_text, Workspace.relocate_toTables]
  cases ws.symbols.resolve token.text with
  | none => exact .bind complain_moves fun _ => .pure
  | some symbol =>
    refine .bind symbolAt_moves fun entry => ?_
    dsimp only [id]
    cases entry.kind with
    | localVar offset function? =>
      exact .ite Iff.rfl (.bind complain_moves fun _ => .pure) .pure
    | function | type => exact .bind complain_moves fun _ => .pure

lemma atomNode_moves {place : Place} {token : Token} :
    Moves g (Node.relocate g) (atomNode place token) (atomNode place (token.relocate g)) := by
  simp only [atomNode, Token.relocate_kind]
  split
  · exact integerNode_moves
  · exact variableNode_moves
  · exact .ite Iff.rfl .pure (.ite Iff.rfl .pure refuseToken_moves)
  · exact refuseToken_moves

lemma binaryNode_moves {loc : Location} {op : BinOp} {text : String} {operands : List Node} :
    Moves g (Node.relocate g) (binaryNode loc op text operands)
      (binaryNode (g loc) op text (Node.relocateAll g operands)) := by
  unfold binaryNode
  rw [Node.relocateAll_length, Node.relocateAll_getD, Node.relocateAll_getD]
  exact .ite Iff.rfl (.bind complain_moves fun _ => .pure) .pure

lemma castNode_moves {loc : Location} {target : TypeId} {operands : List Node} :
    Moves g (Node.relocate g) (castNode loc target operands)
      (castNode (g loc) target (Node.relocateAll g operands)) := by
  unfold castNode
  rw [Node.relocateAll_length, Node.relocateAll_getD]
  exact .ite Iff.rfl (.bind complain_moves fun _ => .pure) .pure

lemma applyNode_moves {loc : Location} {head : Token} {operands operands' : CompileM (List Node)}
    (h : Moves g (Node.relocateAll g) operands operands') :
    Moves g (Node.relocate g) (applyNode loc head operands)
      (applyNode (g loc) (head.relocate g) operands') := by
  refine .get fun ws => ?_
  simp only [Token.relocate_text, Workspace.relocate_toTables]
  cases ws.symbols.resolve head.text with
  | none => exact .bind complain_moves fun _ => .bind h fun _ => .pure
  | some symbol =>
    refine .bind symbolAt_moves fun entry => ?_
    dsimp only [id]
    cases entry.kind with
    | type => exact .bind .promised_same fun target => .bind h fun _ => castNode_moves
    | function params prototyped external => exact .bind h fun _ => .pure
    | localVar offset function? => exact .bind complain_moves fun _ => .bind h fun _ => .pure

lemma returnNode_moves {place : Place} {loc : Location} (value? : Option Node) :
    Moves g (Node.relocate g) (returnNode place loc value?)
      (returnNode place (g loc) (value?.map (Node.relocate g))) := by
  rcases place with _ | _ | function
  · exact .bind complain_moves fun _ => .pure
  · exact .pure
  · cases value? with
    | none => exact .pure
    | some value => exact .pure

/-! ## Declarations -/

lemma variableDecl_moves {place : Place} {loc : Location} {items : List Datum} {closing : Token} :
    Moves g (Node.relocate g) (variableDecl place loc items closing)
      (variableDecl place (g loc) (Datum.relocateAll g items) (closing.relocate g)) := by
  match items with
  | [] => exact refuseFor_moves
  | [typeDatum] => exact .bind (typeExpr_moves typeDatum) fun _ => refuseFor_moves
  | typeDatum :: nameDatum :: rest =>
    refine .bind (typeExpr_moves typeDatum) fun type => .bind expectAtom_moves fun name => ?_
    exact .bind declareVariable_moves fun id? => .bind (expectEnd_moves _) fun _ => .pure

lemma definitionDecl_moves {loc : Location} {items : List Datum} {closing : Token} :
    Moves g (Node.relocate g) (definitionDecl loc items closing)
      (definitionDecl (g loc) (Datum.relocateAll g items) (closing.relocate g)) := by
  match items with
  | [] => exact refuseFor_moves
  | [nameDatum] => exact .bind expectAtom_moves fun _ => refuseFor_moves
  | nameDatum :: typeDatum :: rest =>
    refine .bind expectAtom_moves fun name => .bind (typeExpr_moves typeDatum) fun target => ?_
    refine .bind registerType_moves fun defined => .bind declareDefinition_moves fun id? => ?_
    exact .bind (expectEnd_moves _) fun _ => .pure

lemma setSignature_moves {id? : Option SymbolId} {name : Token} {bound : List (Token × TypeId)}
    {result : TypeId} {prototyped external : Bool} :
    Moves g id (setSignature id? name bound result prototyped external)
      (setSignature id? (name.relocate g) (Token.relocateBound g bound) result prototyped
        external) := by
  have hsignature : (Token.relocateBound g bound).map (fun pair => (⟨pair.1.text, pair.2⟩ : Param)) =
      bound.map fun pair => ⟨pair.1.text, pair.2⟩ := by
    simp [Token.relocateBound, Token.relocate]
  cases id? with
  | none => exact .pure
  | some symbol =>
    simp only [setSignature, hsignature]
    exact changeSymbols_moves

lemma externalDecl_moves {loc : Location} {items : List Datum} {closing : Token} :
    Moves g (Node.relocate g) (externalDecl loc items closing)
      (externalDecl (g loc) (Datum.relocateAll g items) (closing.relocate g)) := by
  cases items with
  | nil => exact refuseFor_moves
  | cons nameDatum afterName =>
    refine .bind expectAtom_moves fun name => .bind declare_moves fun id? => ?_
    cases afterName with
    | nil => exact .bind setSignature_moves fun _ => .bind (expectEnd_moves _) fun _ => .pure
    | cons datum rest =>
      cases datum with
      | atom token =>
        exact .bind setSignature_moves fun _ =>
          .bind (expectEnd_moves (.atom token :: rest)) fun _ => .pure
      | list opening inner close =>
        refine .bind (params_moves (.list opening inner close)) fun bound => ?_
        cases rest with
        | nil => exact refuseFor_moves
        | cons typeDatum rest =>
          refine .bind (typeExpr_moves typeDatum) fun result => ?_
          exact .bind setSignature_moves fun _ => .bind (expectEnd_moves _) fun _ => .pure

lemma declareParams_moves {place : Place} (bound : List (Token × TypeId)) :
    Moves g id (declareParams place bound) (declareParams place (Token.relocateBound g bound)) := by
  induction bound with
  | nil => exact .pure
  | cons pair rest ih =>
    exact .bind declareVariable_moves fun id? => .bind ih fun ids => .pure

lemma checkFunctionPlace_moves {place : Place} {name : Token} :
    Moves g id (checkFunctionPlace place name) (checkFunctionPlace place (name.relocate g)) := by
  cases place with
  | body function? => exact complain_moves
  | topLevel => exact .get fun ws => .ite Iff.rfl complain_moves .pure

/-! ## Lists -/

lemma isAlternative_relocate (datum : Datum) :
    isAlternative (datum.relocate g) = isAlternative datum := by
  match datum with
  | .atom _ | .list _ [] _ | .list _ (.atom _ :: _) _ | .list _ (.list _ _ _ :: _) _ => rfl

mutual

theorem form_moves (place : Place) (datum : Datum) :
    Moves g (Node.relocate g) (form place datum) (form place (datum.relocate g)) := by
  match datum with
  | .atom token => exact refuseFor_moves
  | .list opening items closing => exact list_moves place opening items closing

theorem item_moves (place : Place) (datum : Datum) :
    Moves g (Node.relocate g) (item place datum) (item place (datum.relocate g)) := by
  match datum with
  | .atom token => exact atomNode_moves
  | .list opening items closing => exact list_moves place opening items closing

theorem list_moves (place : Place) (opening : Token) (items : List Datum) (closing : Token) :
    Moves g (Node.relocate g) (list place opening items closing)
      (list place (opening.relocate g) (Datum.relocateAll g items) (closing.relocate g)) := by
  match items with
  | [] => exact .ite Iff.rfl .pure refuseToken_moves
  | .list opening' inner closing' :: rest =>
    refine .bind (withScope_moves (Node.relocateAll g) ?_) fun _ => .pure
    refine .bind (form_moves place (.list opening' inner closing')) fun node => ?_
    exact .bind (statements_moves place rest closing) fun nodes => .pure
  | .atom head :: rest =>
    simp only [list, Datum.relocateAll, Datum.relocate, Datum.atom?, Token.relocate_kind,
      Token.relocate_text]
    cases head.kind with
    | operator =>
      dsimp only
      cases BinOp.ofText? head.text with
      | none => exact refuseToken_moves
      | some op => exact .bind (operands_moves place rest closing) fun _ => binaryNode_moves
    | ident => exact applyNode_moves (operands_moves place rest closing)
    | typeName =>
      refine .bind builtinType_moves fun target => ?_
      exact .bind (operands_moves place rest closing) fun _ => castNode_moves
    | keyword =>
      dsimp only
      cases Construct.ofKeyword? head.text with
      | none => exact refuseToken_moves
      | some construct =>
        cases construct with
        | binding => exact variableDecl_moves
        | definition => exact definitionDecl_moves
        | external => exact externalDecl_moves
        | function => exact functionForm_moves place _ rest closing
        | conditional => exact conditionalForm_moves place _ rest closing
        | alternative =>
          refine .bind complain_moves fun _ => ?_
          exact .bind (withScope_moves _ (statements_moves place rest closing)) fun _ => .pure
        | whileLoop => exact whileForm_moves place _ rest closing
        | forLoop => exact withScope_moves _ (forForm_moves place _ rest closing)
        | result => exact returnForm_moves place _ rest closing
    | lparen | rparen | colon | integer | eof => exact refuseToken_moves

theorem functionForm_moves (place : Place) (loc : Location) (items : List Datum)
    (closing : Token) : Moves g (Node.relocate g) (functionForm place loc items closing)
      (functionForm place (g loc) (Datum.relocateAll g items) (closing.relocate g)) := by
  match items with
  | [] => exact refuseFor_moves
  | nameDatum :: afterName =>
    rw [Datum.relocateAll, functionForm, functionForm]
    refine .bind expectAtom_moves fun name => .bind checkFunctionPlace_moves fun _ => ?_
    refine .bind declare_moves fun id? => ?_
    refine .bind (withScope_moves
      (fun pair : List SymbolId × List Node => (pair.1, Node.relocateAll g pair.2)) ?_)
      fun _ => .pure
    match afterName with
    | [] => exact refuseFor_moves
    | [paramsDatum] =>
      refine .bind (params_moves paramsDatum) fun bound => ?_
      exact .bind (declareParams_moves bound) fun _ => refuseFor_moves
    | paramsDatum :: typeDatum :: bodyData =>
      refine .bind (params_moves paramsDatum) fun bound => ?_
      refine .bind (declareParams_moves bound) fun ids => ?_
      refine .bind (typeExpr_moves typeDatum) fun result => .bind setSignature_moves fun _ => ?_
      exact .bind (statements_moves (.body id?) bodyData closing) fun body => .pure

theorem conditionalForm_moves (place : Place) (loc : Location) (items : List Datum)
    (closing : Token) : Moves g (Node.relocate g) (conditionalForm place loc items closing)
      (conditionalForm place (g loc) (Datum.relocateAll g items) (closing.relocate g)) := by
  match items with
  | [] => exact refuseToken_moves
  | condDatum :: branches =>
    refine .bind (item_moves place condDatum) fun cond => ?_
    refine .bind (withScope_moves _ (branch_moves place branches closing)) fun thenBody => ?_
    refine .bind (alternative?_moves place branches closing) fun elseBody? => ?_
    cases elseBody? with
    | none => exact .pure
    | some elseBody => exact .pure

theorem whileForm_moves (place : Place) (loc : Location) (items : List Datum) (closing : Token) :
    Moves g (Node.relocate g) (whileForm place loc items closing)
      (whileForm place (g loc) (Datum.relocateAll g items) (closing.relocate g)) := by
  match items with
  | [] => exact refuseToken_moves
  | condDatum :: bodyData =>
    refine .bind (item_moves place condDatum) fun cond => ?_
    exact .bind (withScope_moves _ (statements_moves place bodyData closing)) fun _ => .pure

theorem forForm_moves (place : Place) (loc : Location) (items : List Datum) (closing : Token) :
    Moves g (Node.relocate g) (forForm place loc items closing)
      (forForm place (g loc) (Datum.relocateAll g items) (closing.relocate g)) := by
  match items with
  | [] => exact refuseToken_moves
  | [initDatum] => exact .bind (item_moves place initDatum) fun _ => refuseToken_moves
  | [initDatum, condDatum] =>
    refine .bind (item_moves place initDatum) fun _ => ?_
    exact .bind (item_moves place condDatum) fun _ => refuseToken_moves
  | initDatum :: condDatum :: stepDatum :: bodyData =>
    refine .bind (item_moves place initDatum) fun init => ?_
    refine .bind (item_moves place condDatum) fun cond => ?_
    refine .bind (item_moves place stepDatum) fun step => ?_
    exact .bind (statements_moves place bodyData closing) fun _ => .pure

theorem returnForm_moves (place : Place) (loc : Location) (items : List Datum) (closing : Token) :
    Moves g (Node.relocate g) (returnForm place loc items closing)
      (returnForm place (g loc) (Datum.relocateAll g items) (closing.relocate g)) := by
  match items with
  | [] => exact .ite Iff.rfl (returnNode_moves none) refuseToken_moves
  | valueDatum :: rest =>
    refine .bind (item_moves place valueDatum) fun value => ?_
    exact .bind (returnNode_moves (some value)) fun node =>
      .bind (expectEnd_moves _) fun _ => .pure

theorem statements_moves (place : Place) (items : List Datum) (closing : Token) :
    Moves g (Node.relocateAll g) (statements place items closing)
      (statements place (Datum.relocateAll g items) (closing.relocate g)) := by
  match items with
  | [] => exact .ite Iff.rfl .pure refuseFor_moves
  | datum :: rest =>
    refine .bind (form_moves place datum) fun node => ?_
    exact .bind (statements_moves place rest closing) fun nodes => .pure

theorem operands_moves (place : Place) (items : List Datum) (closing : Token) :
    Moves g (Node.relocateAll g) (operands place items closing)
      (operands place (Datum.relocateAll g items) (closing.relocate g)) := by
  match items with
  | [] => exact .ite Iff.rfl .pure refuseToken_moves
  | datum :: rest =>
    refine .bind (item_moves place datum) fun node => ?_
    exact .bind (operands_moves place rest closing) fun nodes => .pure

theorem branch_moves (place : Place) (items : List Datum) (closing : Token) :
    Moves g (Node.relocateAll g) (branch place items closing)
      (branch place (Datum.relocateAll g items) (closing.relocate g)) := by
  match items with
  | [] => exact .ite Iff.rfl .pure refuseFor_moves
  | datum :: rest =>
    refine .ite (by rw [isAlternative_relocate]) .pure ?_
    refine .bind (form_moves place datum) fun node => ?_
    exact .bind (branch_moves place rest closing) fun nodes => .pure

theorem alternative?_moves (place : Place) (items : List Datum) (closing : Token) :
    Moves g (Option.map (Node.relocateAll g)) (alternative? place items closing)
      (alternative? place (Datum.relocateAll g items) (closing.relocate g)) := by
  match items with
  | [] => exact .pure
  | .atom _ :: rest | .list _ [] _ :: rest | .list _ (.list _ _ _ :: _) _ :: rest =>
    exact alternative?_moves place rest closing
  | .list opening (.atom head :: bodyData) innerClosing :: rest =>
    refine .ite Iff.rfl ?_ (alternative?_moves place rest closing)
    refine .bind (withScope_moves _ (statements_moves place bodyData innerClosing)) fun body => ?_
    exact .bind (expectEnd_moves _) fun _ => .pure

end

/-! ## Programs -/

lemma topForms_moves (items : List Datum) :
    Moves g (Node.relocateAll g) (topForms items) (topForms (Datum.relocateAll g items)) := by
  induction items with
  | nil => exact .pure
  | cons datum rest ih =>
    exact .bind (form_moves .topLevel datum) fun node => .bind ih fun nodes => .pure

lemma entryPoint?_relocate (symbols : SymbolTable) (items : List Node) :
    entryPoint? symbols (Node.relocateAll g items) = Option.map g <$> entryPoint? symbols items := by
  induction items with
  | nil => rfl
  | cons item rest ih =>
    have hhere : isEntryPoint symbols (item.relocate g) = isEntryPoint symbols item := by
      cases item with
      | functionDef loc symbol? params body => cases symbol? <;> rfl
      | _ => rfl
    rw [Node.relocateAll, entryPoint?, entryPoint?, hhere, ih, Node.location_relocate]
    cases isEntryPoint symbols item with
    | error defect => rfl
    | ok here =>
      cases entryPoint? symbols rest with
      | error defect => rfl
      | ok later? => cases later? <;> cases here <;> rfl

lemma hasStatements_relocate (items : List Node) :
    (Program.mk (Node.relocateAll g items)).hasStatements = (Program.mk items).hasStatements := by
  induction items with
  | nil => rfl
  | cons item rest ih =>
    simp only [Program.hasStatements, Node.relocateAll, List.any_cons, Node.isStatement_relocate]
      at ih ⊢
    rw [ih]

/-- Reading a text that is laid out differently. -/
theorem program_moves {body : List Token}
    (h : ∀ token ∈ body, token.Lexical ∧ token.kind ≠ .eof) (loc : Location) :
    Moves g (Program.relocate g) (program (body ++ [Token.eof loc]))
      (program (body.map (Token.relocate g) ++ [Token.eof (g loc)])) := by
  have hmoved : ∀ token ∈ body.map (Token.relocate g), token.Lexical ∧ token.kind ≠ .eof := by
    intro token htoken
    obtain ⟨original, horiginal, rfl⟩ := List.mem_map.mp htoken
    exact h original horiginal
  have htop : (Nesting.ofTokens (Token.eof (g loc)) (body.map (Token.relocate g))).inner =
      (Nesting.ofTokens (Token.eof loc) body).inner.relocate g :=
    congrArg Nesting.inner (Nesting.ofTokens_relocate (Token.eof loc) body)
  simp only [program, Remainder.ofStream_eq fun token htoken => (h token htoken).2,
    Remainder.ofStream_eq fun token htoken => (hmoved token htoken).2, htop]
  generalize (Nesting.ofTokens (Token.eof loc) body).inner = top
  refine .bind (topForms_moves top.items) fun items => ?_
  rw [Node.relocateAll_length, hasStatements_relocate]
  -- the last steps, whether or not there was something to say about `main`
  have hfinish : Moves g (Program.relocate g) (do
        let ws ← get
        if ws.symbols.depth ≠ 1 then throw (.defect .unbalancedScopes)
        log (.parsed items.length ws.symbols.size ws.types.size)
        return (⟨items⟩ : Program)) (do
        let ws ← get
        if ws.symbols.depth ≠ 1 then throw (.defect .unbalancedScopes)
        log (.parsed items.length ws.symbols.size ws.types.size)
        return (⟨Node.relocateAll g items⟩ : Program)) := by
    refine .get fun ws => .ite Iff.rfl ?_ ?_
    · exact fun _ => .defect
    · exact .bind .log fun _ => .pure
  have hentry : ∀ symbols, Moves g (Option.map g) (promised (entryPoint? symbols items))
      (promised (entryPoint? symbols (Node.relocateAll g items))) := by
    intro symbols
    rw [entryPoint?_relocate]
    refine .promised ?_ ?_
    · rintro loc? hloc
      rw [hloc]
      rfl
    · rintro defect hdefect
      rw [hdefect]
      exact ⟨defect, rfl⟩
  have hrefuse : Moves g id (refuseFor .lparen top.closing : CompileM PUnit)
      (refuseFor .lparen (top.closing.relocate g)) := refuseFor_moves
  refine .ite Iff.rfl (.bind hrefuse fun _ => ?_) ?_
  all_goals
    refine .get fun ws => .bind (hentry ws.symbols) fun loc? => ?_
    cases loc? with
    | none => exact hfinish
    | some loc => exact .ite Iff.rfl (.bind complain_moves fun _ => hfinish) hfinish

end Reading

end ParenC
