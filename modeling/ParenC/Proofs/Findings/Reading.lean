/-
What reading reports.

Reading is given data whose tokens are those of the text, so whatever it complains about or refuses
is one of them.  The names that it declares are the texts of tokens, and so are of one line; the
nodes that it makes stand at tokens.  There is one statement for each function, and the functions
that read lists are shown together, by one induction that follows their recursion.
-/
import ParenC.Proofs.Datum
import ParenC.Proofs.Findings.Basic
import ParenC.Proofs.Tree
import ParenC.Reading.Program

namespace ParenC

/-! ## Names in tables -/

namespace SymbolTable

variable {symbols : SymbolTable}

lemma Plain.get (h : symbols.Plain) {id : SymbolId} :
    Ends (symbols.get id) (fun symbol => ∀ name ∈ symbol.names, OneLine name) fun _ => True := by
  unfold SymbolTable.get
  split
  · exact h _ (Array.mem_of_getElem? ‹_›)
  · trivial

lemma Plain.modify (h : symbols.Plain) {id : SymbolId} {change : Symbol → Symbol}
    (hchange : ∀ symbol : Symbol, (∀ name ∈ symbol.names, OneLine name) →
      ∀ name ∈ (change symbol).names, OneLine name) :
    Ends (symbols.modify id change) SymbolTable.Plain fun _ => True := by
  refine h.get.bind fun old hold => Ends.pure fun symbol hsymbol => ?_
  rcases Array.mem_or_eq_of_mem_setIfInBounds hsymbol with hsymbol | rfl
  · exact h symbol hsymbol
  · exact hchange old hold

lemma Plain.set (h : symbols.Plain) {id : SymbolId} {symbol : Symbol}
    (hsymbol : ∀ name ∈ symbol.names, OneLine name) :
    Ends (symbols.set id symbol) SymbolTable.Plain fun _ => True := by
  unfold SymbolTable.set
  refine (Ends.any fun _ => trivial).bind fun old _ => ?_
  split
  · trivial
  · exact h.modify fun _ _ => hsymbol

lemma Plain.setType (h : symbols.Plain) {id : SymbolId} {type? : Option TypeId} :
    Ends (symbols.setType id type?) SymbolTable.Plain fun _ => True := h.modify fun _ hold => hold

lemma Plain.declare (h : symbols.Plain) {name : String} (hname : OneLine name) {sort : SymbolSort}
    {id : SymbolId} {declared : SymbolTable}
    (hdeclare : symbols.declare name sort = some (id, declared)) :
    declared.Plain := by
  unfold SymbolTable.declare at hdeclare
  split at hdeclare
  · cases hdeclare
  · cases hdeclare
    intro symbol hsymbol
    rcases Array.mem_push.mp hsymbol with hsymbol | rfl
    · exact h symbol hsymbol
    · cases sort <;> simpa [Symbol.names, Symbol.placeholder] using hname

lemma Plain.closeScopeAt (h : symbols.Plain) (depth : Nat) :
    Ends (symbols.closeScopeAt depth) SymbolTable.Plain fun _ => True := by
  unfold SymbolTable.closeScopeAt closeScope
  split
  · split
    · trivial
    · exact h
  · trivial

end SymbolTable

namespace TypeTable

variable {types : TypeTable}

lemma Plain.register (h : types.Plain) {info : TypeInfo}
    (hinfo : ∀ name ∈ info.shape.names, OneLine name) : (types.register info).2.Plain := by
  intro found hfound
  rcases Array.mem_push.mp hfound with hfound | rfl
  · exact h found hfound
  · exact hinfo

lemma Plain.registerStruct (h : types.Plain) {fields : List (String × TypeId)}
    (hfields : ∀ field ∈ fields, OneLine field.1) :
    Ends (types.registerStruct fields) (fun result => result.2.Plain) fun _ => True := by
  unfold TypeTable.registerStruct
  cases hlayout : types.layOut 0 1 fields with
  | error defect => trivial
  | ok layout =>
    refine h.register fun name hname => ?_
    have hnames := layOut_fields hlayout
    obtain ⟨field, hfield, rfl⟩ : ∃ field ∈ layout.fields, field.name = name := by
      simpa [Shape.names] using hname
    exact hfields (field.name, field.type) (hnames ▸ List.mem_map_of_mem hfield)

lemma Plain.registerDefinition (h : types.Plain) {name : String} (hname : OneLine name)
    {target : TypeId} : Ends (types.registerDefinition name target) (fun result => result.2.Plain)
      fun _ => True := by
  refine h.get.bind fun info _ => ?_
  exact Ends.pure (h.register (by simpa [Shape.names] using hname))

end TypeTable

/-! ## Data and nodes at tokens -/

/-- The tokens of the datum are those of the text, and lists that the text does not close are
closed by its end. -/
inductive Datum.Within (cut : Cut) : Datum → Prop
  | atom {token : Token} (mem : token ∈ cut.tokens) : Within cut (.atom token)
  | list {opening closing : Token} {items : List Datum} (mem : opening ∈ cut.tokens)
      (inner : ∀ datum ∈ items, Within cut datum) (closed : cut.Meets closing) :
      Within cut (.list opening items closing)

lemma Datum.Within.first {cut : Cut} {datum : Datum} (h : datum.Within cut) :
    datum.first ∈ cut.tokens := by
  cases h <;> assumption

/-- The node and everything below it stand at tokens. -/
def Node.Within (cut : Cut) (node : Node) : Prop :=
  ∀ below ∈ node.checkOrder, below.location ∈ cut.places

namespace Node.Within

variable {cut : Cut} {node : Node}

lemma location (h : node.Within cut) : node.location ∈ cut.places :=
  h node (self_mem_checkOrder node)

lemma part (h : node.Within cut) {part : Node} (hpart : part ∈ node.parts) : part.Within cut :=
  fun below hbelow =>
    h below (mem_checkOrder.mpr (.inr (mem_checkOrderAll.mpr ⟨part, hpart, hbelow⟩)))

lemma of_parts (hloc : node.location ∈ cut.places) (h : ∀ part ∈ node.parts, part.Within cut) :
    node.Within cut := by
  intro below hbelow
  rcases mem_checkOrder.mp hbelow with rfl | hbelow
  · exact hloc
  · obtain ⟨part, hpart, hbelow⟩ := mem_checkOrderAll.mp hbelow
    exact h part hpart below hbelow

/-- A node without parts. -/
lemma leaf (hloc : node.location ∈ cut.places) (hparts : node.parts = []) : node.Within cut :=
  of_parts hloc (by simp [hparts])

/-- The operand at a position, or nothing at the place of the operator. -/
lemma getD {nodes : List Node} (h : ∀ node ∈ nodes, node.Within cut) (i : Nat) {loc : Location}
    (hloc : loc ∈ cut.places) : (nodes[i]?.getD (.empty loc)).Within cut := by
  cases hnode : nodes[i]? with
  | none => exact leaf hloc rfl
  | some node => exact h node (List.mem_of_getElem? hnode)

end Node.Within

namespace Reading

open CompileM

variable {cut : Cut} {start : Workspace} {α : Type} {post : α → Prop} {place : Place}
  {loc : Location} {closing : Token}

/-! ## Tokens and tables -/

lemma complain_reports {stops : Journal → CompileError → Prop} {complaint : Complaint}
    (hloc : loc ∈ cut.places) (h : ∀ name ∈ complaint.names, OneLine name) :
    Reports cut start stops (complain loc complaint) fun _ => True :=
  .report (Complaint.message_oneLine h) hloc

/-- A complaint about a name, at the token that is the name. -/
lemma complain_name_reports {stops : Journal → CompileError → Prop} {complaint : Complaint}
    {name : Token} (hname : name ∈ cut.tokens) (h : complaint.names = [name.text]) :
    Reports cut start stops (complain name.location complaint) fun _ => True :=
  complain_reports (Cut.mem_places hname) (by simpa [h] using cut.oneLine name hname)

lemma refuseFor_reports {kind : TokenKind} {got : Token} (h : cut.Meets got) :
    Reports cut start cut.Refuses (refuseFor kind got) post :=
  .refuse h (.expected kind)

lemma refuseToken_reports {got : Token} (h : cut.Meets got) :
    Reports cut start cut.Refuses (refuseToken got) post := .refuse h .unexpected

lemma expectAtom_reports {kind : TokenKind} {datum : Datum} (h : datum.Within cut) :
    Reports cut start cut.Refuses (expectAtom kind datum) (· ∈ cut.tokens) := by
  cases h with
  | atom mem => exact .ite (.pure mem) (refuseFor_reports (.inl mem))
  | list mem => exact refuseFor_reports (.inl mem)

lemma expectEnd_reports {rest : List Datum} (h : ∀ datum ∈ rest, datum.Within cut)
    (hclosing : cut.Meets closing) :
    Reports cut start cut.Refuses (expectEnd rest closing) fun _ => True := by
  cases rest with
  | nil => exact .ite (.pure trivial) (refuseFor_reports hclosing)
  | cons datum rest => exact refuseFor_reports (.inl (h datum (by simp)).first)

lemma changeSymbols_reports {stops : Journal → CompileError → Prop}
    {change : SymbolTable → Except Defect SymbolTable}
    (h : ∀ symbols, symbols.Plain → Ends (change symbols) SymbolTable.Plain fun _ => True) :
    Reports cut start stops (changeSymbols change) fun _ => True := by
  refine .get fun ws htidy => .bind (.promised (h _ htidy.plain.symbols)) fun symbols hsymbols => ?_
  exact .modify fun ws htidy => htidy.with_tables ⟨htidy.plain.types, hsymbols⟩

lemma registerType_reports {stops : Journal → CompileError → Prop}
    {add : TypeTable → Except Defect (TypeId × TypeTable)}
    (h : ∀ types, types.Plain → Ends (add types) (fun result => result.2.Plain) fun _ => True) :
    Reports cut start stops (registerType add) fun _ => True := by
  refine .get fun ws htidy => .bind (.promised (h _ htidy.plain.types)) fun result hresult => ?_
  refine .bind (.modify fun ws htidy => ?_) fun _ _ => .pure trivial
  exact htidy.with_tables ⟨hresult, htidy.plain.symbols⟩

lemma symbolAt_reports {stops : Journal → CompileError → Prop} {symbol : SymbolId} :
    Reports cut start stops (symbolAt symbol) fun _ => True :=
  .get fun _ _ => .promised_any

/-- Scopes have no part in findings. -/
lemma withScope_reports {stops : Journal → CompileError → Prop} {act : CompileM α}
    (h : Reports cut start stops act post) : Reports cut start stops (withScope act) post := by
  intro ws htidy
  have hact := h { ws with symbols := ws.symbols.openScope }
    (htidy.with_tables ⟨htidy.plain.types, htidy.plain.symbols⟩)
  -- however the action ends, the scope is closed afterwards
  have hclosed : ∀ {ws₁ : Workspace} {symbols : SymbolTable}, Workspace.Tidy cut start ws₁ →
      ws₁.symbols.closeScopeAt ws.symbols.openScope.depth = .ok symbols →
      Workspace.Tidy cut start { ws₁ with symbols } := by
    intro ws₁ symbols htidy₁ hclose
    have hplain := htidy₁.plain.symbols.closeScopeAt ws.symbols.openScope.depth
    rw [hclose] at hplain
    exact htidy₁.with_tables ⟨htidy₁.plain.types, hplain⟩
  simp only [withScope]
  generalize act { ws with symbols := ws.symbols.openScope } = outcome at hact
  rcases outcome with ⟨a, ws₁⟩ | ⟨failure | defect, ws₁⟩ <;>
    dsimp only <;>
    cases hclose : ws₁.symbols.closeScopeAt ws.symbols.openScope.depth
  · trivial
  · exact ⟨hclosed hact.1 hclose, hact.2⟩
  · trivial
  · exact ⟨hclosed hact.1 hclose, hact.2⟩
  · trivial
  · trivial

lemma declare_reports {stops : Journal → CompileError → Prop} {name : Token} {sort : SymbolSort}
    (hname : name ∈ cut.tokens) : Reports cut start stops (declare name sort) fun _ => True := by
  refine .get fun ws htidy => ?_
  cases hdeclare : ws.symbols.declare name.text sort with
  | none =>
    dsimp only
    rw [hdeclare]
    exact .bind (complain_name_reports hname rfl) fun _ _ => .pure trivial
  | some declared =>
    obtain ⟨symbol, symbols⟩ := declared
    have hsymbols : symbols.Plain := htidy.plain.symbols.declare (cut.oneLine name hname) hdeclare
    dsimp only
    rw [hdeclare]
    refine .bind (.modify fun ws htidy => ?_) fun _ _ => .bind (.log fun _ => rfl) fun _ _ =>
      .pure trivial
    exact htidy.with_tables ⟨htidy.plain.types, hsymbols⟩

lemma declareVariable_reports {stops : Journal → CompileError → Prop} {name : Token}
    {type : TypeId} (hname : name ∈ cut.tokens) :
    Reports cut start stops (declareVariable place name type) fun _ => True := by
  refine .bind (declare_reports hname) fun id? _ => ?_
  cases id? with
  | none => exact .pure trivial
  | some symbol =>
    refine .bind (changeSymbols_reports fun symbols h => h.set ?_) fun _ _ => .pure trivial
    simpa [Symbol.names] using cut.oneLine name hname

lemma declareDefinition_reports {stops : Journal → CompileError → Prop} {name : Token}
    {type : TypeId} (hname : name ∈ cut.tokens) :
    Reports cut start stops (declareDefinition name type) fun _ => True := by
  refine .bind (declare_reports hname) fun id? _ => ?_
  cases id? with
  | none => exact .pure trivial
  | some symbol =>
    exact .bind (changeSymbols_reports fun symbols h => h.setType) fun _ _ => .pure trivial

/-! ## Types -/

lemma builtinType_reports {token : Token} (h : cut.Meets token) :
    Reports cut start cut.Refuses (builtinType token) fun _ => True := by
  unfold builtinType
  cases Builtin.ofName? token.text with
  | none => exact refuseToken_reports h
  | some which => exact .pure trivial

lemma namedType_reports {stops : Journal → CompileError → Prop} {token : Token}
    (h : token ∈ cut.tokens) : Reports cut start stops (namedType token) fun _ => True := by
  refine .get fun ws _ => .bind .promised_any fun id? _ => ?_
  cases id? with
  | none => exact .bind (complain_name_reports h rfl) fun _ _ => .pure trivial
  | some symbol => exact .bind symbolAt_reports fun _ _ => .promised_any

lemma atomType_reports {token : Token} (h : token ∈ cut.tokens) :
    Reports cut start cut.Refuses (atomType token) fun _ => True := by
  unfold atomType
  split
  · exact builtinType_reports (.inl h)
  · exact namedType_reports h
  · exact refuseFor_reports (.inl h)

/-- Names with types, the names being tokens of the text. -/
def Bound (cut : Cut) (bound : List (Token × TypeId)) : Prop :=
  ∀ pair ∈ bound, pair.1 ∈ cut.tokens

mutual

theorem typeExpr_reports (datum : Datum) (h : datum.Within cut) :
    Reports cut start cut.Refuses (typeExpr datum) fun _ => True := by
  match datum, h with
  | .atom token, .atom mem => exact atomType_reports mem
  | .list opening [] closing, .list mem _ _ => exact refuseFor_reports (.inl mem)
  | .list opening (.list _ _ _ :: rest) closing, .list mem _ _ =>
    exact refuseFor_reports (.inl mem)
  | .list opening (.atom head :: rest) closing, .list mem inner closed =>
    refine .ite ?_ (refuseFor_reports (.inl mem))
    refine .bind (bindings_reports true [] rest closing (by simp [Bound])
      (List.forall_mem_cons.mp inner).2 closed) fun fields hfields => ?_
    refine registerType_reports fun types htypes => htypes.registerStruct fun field hfield => ?_
    obtain ⟨pair, hpair, rfl⟩ := List.mem_map.mp hfield
    exact cut.oneLine pair.1 (hfields pair hpair)

theorem bindings_reports (distinct : Bool) (before : List (Token × TypeId)) (items : List Datum)
    (closing : Token) (hbefore : Bound cut before) (hitems : ∀ datum ∈ items, datum.Within cut)
    (hclosing : cut.Meets closing) :
    Reports cut start cut.Refuses (bindings distinct before items closing) (Bound cut) := by
  match items with
  | [] =>
    unfold bindings
    refine .ite (.pure ?_) (refuseFor_reports hclosing)
    exact fun pair hpair => hbefore pair (List.mem_reverse.mp hpair)
  | [nameDatum] =>
    exact .bind (expectAtom_reports (hitems _ (by simp))) fun _ _ => refuseFor_reports hclosing
  | [nameDatum, colonDatum] =>
    exact .bind (expectAtom_reports (hitems _ (by simp))) fun _ _ =>
      .bind (expectAtom_reports (hitems _ (by simp))) fun _ _ => refuseFor_reports hclosing
  | nameDatum :: colonDatum :: typeDatum :: rest =>
    simp only [List.forall_mem_cons] at hitems
    obtain ⟨hnameDatum, hcolon, htype, hrest⟩ := hitems
    refine .bind (expectAtom_reports hnameDatum) fun name hname => ?_
    refine .bind (expectAtom_reports hcolon) fun _ _ => ?_
    refine .bind (typeExpr_reports typeDatum htype) fun type _ => .ite ?_ ?_
    · exact .bind (complain_name_reports hname rfl) fun _ _ =>
        bindings_reports distinct before rest closing hbefore hrest hclosing
    · refine bindings_reports distinct ((name, type) :: before) rest closing ?_ hrest hclosing
      exact List.forall_mem_cons.mpr ⟨hname, hbefore⟩

end

lemma params_reports {datum : Datum} (h : datum.Within cut) :
    Reports cut start cut.Refuses (params datum) (Bound cut) := by
  cases h with
  | atom mem => exact refuseFor_reports (.inl mem)
  | list mem inner closed => exact bindings_reports false [] _ _ (by simp [Bound]) inner closed

/-! ## Single constructs -/

lemma integerNode_reports {token : Token} (h : token ∈ cut.tokens)
    (hkind : token.kind = .integer) :
    Reports cut start cut.Refuses (integerNode token) (Node.Within cut) := by
  have hfault := IntegerValue.ofText_fault token.text
  unfold integerNode
  cases hvalue : IntegerValue.ofText token.text with
  | ok value => exact .pure (.leaf (Cut.mem_places h) rfl)
  | error fault => exact .refuse (.inl h) (.literal hkind (hfault.error hvalue))

lemma variableNode_reports {stops : Journal → CompileError → Prop} {token : Token}
    (h : token ∈ cut.tokens) :
    Reports cut start stops (variableNode place token) (Node.Within cut) := by
  have hnode : ∀ symbol? : Option SymbolId, (Node.varRef token.location symbol?).Within cut :=
    fun _ => .leaf (Cut.mem_places h) rfl
  refine .get fun ws _ => ?_
  dsimp only
  cases ws.symbols.resolve token.text with
  | none => exact .bind (complain_name_reports h rfl) fun _ _ => .pure (hnode none)
  | some symbol =>
    refine .bind symbolAt_reports fun entry _ => ?_
    cases entry.kind with
    | localVar offset function? =>
      exact .ite (.bind (complain_name_reports h rfl) fun _ _ => .pure (hnode _)) (.pure (hnode _))
    | function | type => exact .bind (complain_name_reports h rfl) fun _ _ => .pure (hnode none)

lemma atomNode_reports {token : Token} (h : token ∈ cut.tokens) :
    Reports cut start cut.Refuses (atomNode place token) (Node.Within cut) := by
  have hnode : ∀ value : Bool, (Node.boolean token.location value).Within cut :=
    fun _ => .leaf (Cut.mem_places h) rfl
  unfold atomNode
  split
  · exact integerNode_reports h ‹_›
  · exact variableNode_reports h
  · exact .ite (.pure (hnode true)) (.ite (.pure (hnode false)) (refuseToken_reports (.inl h)))
  · exact refuseToken_reports (.inl h)

lemma binaryNode_reports {stops : Journal → CompileError → Prop} {op : BinOp} {text : String}
    {operands : List Node} (hloc : loc ∈ cut.places) (htext : OneLine text)
    (h : ∀ node ∈ operands, node.Within cut) :
    Reports cut start stops (binaryNode loc op text operands) (Node.Within cut) := by
  have hnode : (Node.binary loc op (operands[0]?.getD (.empty loc))
      (operands[1]?.getD (.empty loc))).Within cut := by
    refine .of_parts hloc fun part hpart => ?_
    rcases List.mem_pair.mp hpart with rfl | rfl
    · exact .getD h 0 hloc
    · exact .getD h 1 hloc
  have hcomplaint : ∀ name ∈ (Complaint.operandCount text operands.length).names, OneLine name :=
    by simpa [Complaint.names] using htext
  exact .ite (.bind (complain_reports hloc hcomplaint) fun _ _ => .pure hnode) (.pure hnode)

lemma castNode_reports {stops : Journal → CompileError → Prop} {target : TypeId}
    {operands : List Node} (hloc : loc ∈ cut.places) (h : ∀ node ∈ operands, node.Within cut) :
    Reports cut start stops (castNode loc target operands) (Node.Within cut) := by
  have hnode : (Node.cast loc target (operands[0]?.getD (.empty loc))).Within cut := by
    refine .of_parts hloc fun part hpart => ?_
    rw [List.mem_singleton.mp hpart]
    exact .getD h 0 hloc
  exact .ite (.bind (complain_reports hloc (by simp [Complaint.names])) fun _ _ => .pure hnode)
    (.pure hnode)

lemma applyNode_reports {stops : Journal → CompileError → Prop} {head : Token}
    {operands : CompileM (List Node)} (hloc : loc ∈ cut.places) (hhead : head ∈ cut.tokens)
    (h : Reports cut start stops operands fun nodes => ∀ node ∈ nodes, node.Within cut) :
    Reports cut start stops (applyNode loc head operands) (Node.Within cut) := by
  have hcall : ∀ (callee? : Option SymbolId) (args : List Node),
      (∀ node ∈ args, node.Within cut) → (Node.call loc callee? args).Within cut :=
    fun _ _ hargs => .of_parts hloc hargs
  refine .get fun ws _ => ?_
  cases ws.symbols.resolve head.text with
  | none =>
    exact .bind (complain_name_reports hhead rfl) fun _ _ =>
      .bind h fun args hargs => .pure (hcall _ args hargs)
  | some symbol =>
    refine .bind symbolAt_reports fun entry _ => ?_
    cases entry.kind with
    | type =>
      exact .bind .promised_any fun target _ => .bind h fun args hargs =>
        castNode_reports hloc hargs
    | function params prototyped external =>
      exact .bind h fun args hargs => .pure (hcall _ args hargs)
    | localVar offset function? =>
      exact .bind (complain_name_reports hhead rfl) fun _ _ =>
        .bind h fun args hargs => .pure (hcall _ args hargs)

lemma returnNode_reports {stops : Journal → CompileError → Prop} {value? : Option Node}
    (hloc : loc ∈ cut.places) (h : ∀ value ∈ value?, value.Within cut) :
    Reports cut start stops (returnNode place loc value?) (Node.Within cut) := by
  have hempty : (Node.empty loc).Within cut := .leaf hloc rfl
  rcases place with _ | _ | function
  · exact .bind (complain_reports hloc (by simp [Complaint.names])) fun _ _ => .pure hempty
  · exact .pure hempty
  · cases value? with
    | none => exact .pure (.leaf hloc rfl)
    | some value =>
      refine .pure (.of_parts hloc fun part hpart => ?_)
      rw [List.mem_singleton.mp hpart]
      exact h value rfl

/-! ## Declarations -/

lemma variableDecl_reports {items : List Datum} (hloc : loc ∈ cut.places)
    (hitems : ∀ datum ∈ items, datum.Within cut) (hclosing : cut.Meets closing) :
    Reports cut start cut.Refuses (variableDecl place loc items closing) (Node.Within cut) := by
  match items with
  | [] => exact refuseFor_reports hclosing
  | [typeDatum] =>
    exact .bind (typeExpr_reports typeDatum (hitems _ (by simp))) fun _ _ =>
      refuseFor_reports hclosing
  | typeDatum :: nameDatum :: rest =>
    simp only [List.forall_mem_cons] at hitems
    obtain ⟨htype, hnameDatum, hrest⟩ := hitems
    refine .bind (typeExpr_reports typeDatum htype) fun type _ => ?_
    refine .bind (expectAtom_reports hnameDatum) fun name hname => ?_
    refine .bind (declareVariable_reports hname) fun id? _ => ?_
    exact .bind (expectEnd_reports hrest hclosing) fun _ _ => .pure (.leaf hloc rfl)

lemma definitionDecl_reports {items : List Datum} (hloc : loc ∈ cut.places)
    (hitems : ∀ datum ∈ items, datum.Within cut) (hclosing : cut.Meets closing) :
    Reports cut start cut.Refuses (definitionDecl loc items closing) (Node.Within cut) := by
  match items with
  | [] => exact refuseFor_reports hclosing
  | [nameDatum] =>
    exact .bind (expectAtom_reports (hitems _ (by simp))) fun _ _ => refuseFor_reports hclosing
  | nameDatum :: typeDatum :: rest =>
    simp only [List.forall_mem_cons] at hitems
    obtain ⟨hnameDatum, htype, hrest⟩ := hitems
    refine .bind (expectAtom_reports hnameDatum) fun name hname => ?_
    refine .bind (typeExpr_reports typeDatum htype) fun target _ => ?_
    refine .bind (registerType_reports fun types htypes =>
      htypes.registerDefinition (cut.oneLine name hname)) fun defined _ => ?_
    refine .bind (declareDefinition_reports hname) fun id? _ => ?_
    exact .bind (expectEnd_reports hrest hclosing) fun _ _ => .pure (.leaf hloc rfl)

lemma setSignature_reports {stops : Journal → CompileError → Prop} {id? : Option SymbolId}
    {name : Token} {bound : List (Token × TypeId)} {result : TypeId} {prototyped external : Bool}
    (hname : name ∈ cut.tokens) (hbound : Bound cut bound) :
    Reports cut start stops (setSignature id? name bound result prototyped external)
      fun _ => True := by
  cases id? with
  | none => exact .pure trivial
  | some symbol =>
    refine changeSymbols_reports fun symbols hsymbols => hsymbols.set ?_
    simp only [Symbol.names, List.map_map, List.forall_mem_cons, List.forall_mem_map]
    exact ⟨cut.oneLine name hname, fun pair hpair => cut.oneLine pair.1 (hbound pair hpair)⟩

lemma externalDecl_reports {items : List Datum} (hloc : loc ∈ cut.places)
    (hitems : ∀ datum ∈ items, datum.Within cut) (hclosing : cut.Meets closing) :
    Reports cut start cut.Refuses (externalDecl loc items closing) (Node.Within cut) := by
  have hnode : ∀ id? : Option SymbolId, (Node.externDecl loc id?).Within cut :=
    fun _ => .leaf hloc rfl
  cases items with
  | nil => exact refuseFor_reports hclosing
  | cons nameDatum afterName =>
    obtain ⟨hnameDatum, hafter⟩ := List.forall_mem_cons.mp hitems
    refine .bind (expectAtom_reports hnameDatum) fun name hname => ?_
    refine .bind (declare_reports hname) fun id? _ => ?_
    -- without parameters
    have hbare : ∀ rest, (∀ datum ∈ rest, datum.Within cut) → Reports cut start cut.Refuses (do
          setSignature id? name [] Builtin.void.id false true
          expectEnd rest closing
          return Node.externDecl loc id?) (Node.Within cut) := fun rest hrest =>
      .bind (setSignature_reports hname (by simp [Bound])) fun _ _ =>
        .bind (expectEnd_reports hrest hclosing) fun _ _ => .pure (hnode id?)
    match afterName with
    | [] => exact hbare [] hafter
    | .atom token :: rest => exact hbare (.atom token :: rest) hafter
    | [.list opening inner close] =>
      exact .bind (params_reports (hafter _ (by simp))) fun bound _ => refuseFor_reports hclosing
    | .list opening inner close :: typeDatum :: rest =>
      simp only [List.forall_mem_cons] at hafter
      obtain ⟨hparams, htype, hrest⟩ := hafter
      refine .bind (params_reports hparams) fun bound hbound => ?_
      refine .bind (typeExpr_reports typeDatum htype) fun result _ => ?_
      refine .bind (setSignature_reports hname hbound) fun _ _ => ?_
      exact .bind (expectEnd_reports hrest hclosing) fun _ _ => .pure (hnode id?)

lemma declareParams_reports {stops : Journal → CompileError → Prop}
    {bound : List (Token × TypeId)} (h : Bound cut bound) :
    Reports cut start stops (declareParams place bound) fun _ => True := by
  induction bound with
  | nil => exact .pure trivial
  | cons pair rest ih =>
    refine .bind (declareVariable_reports (h pair (by simp))) fun id? _ => ?_
    exact .bind (ih fun pair hpair => h pair (by simp [hpair])) fun ids _ => .pure trivial

lemma checkFunctionPlace_reports {stops : Journal → CompileError → Prop} {name : Token}
    (h : name ∈ cut.tokens) :
    Reports cut start stops (checkFunctionPlace place name) fun _ => True := by
  cases place with
  | body function? => exact complain_name_reports h rfl
  | topLevel => exact .get fun ws _ => .ite (complain_name_reports h rfl) (.pure trivial)

/-! ## Lists -/

/-- A node in front of other nodes. -/
lemma cons_reports {first : CompileM Node} {others : CompileM (List Node)}
    (h : Reports cut start cut.Refuses first (Node.Within cut))
    (hothers : Reports cut start cut.Refuses others fun nodes => ∀ node ∈ nodes, node.Within cut) :
    Reports cut start cut.Refuses (do let node ← first; return node :: (← others))
      fun nodes => ∀ node ∈ nodes, node.Within cut :=
  .bind h fun _ hnode => .bind hothers fun _ hnodes =>
    .pure (List.forall_mem_cons.mpr ⟨hnode, hnodes⟩)

mutual

theorem form_reports (place : Place) (datum : Datum) (h : datum.Within cut) :
    Reports cut start cut.Refuses (form place datum) (Node.Within cut) := by
  match datum, h with
  | .atom token, .atom mem => exact refuseFor_reports (.inl mem)
  | .list opening items closing, .list mem inner closed =>
    exact list_reports place opening items closing mem inner closed

theorem item_reports (place : Place) (datum : Datum) (h : datum.Within cut) :
    Reports cut start cut.Refuses (item place datum) (Node.Within cut) := by
  match datum, h with
  | .atom token, .atom mem => exact atomNode_reports mem
  | .list opening items closing, .list mem inner closed =>
    exact list_reports place opening items closing mem inner closed

theorem list_reports (place : Place) (opening : Token) (items : List Datum) (closing : Token)
    (hopening : opening ∈ cut.tokens) (hitems : ∀ datum ∈ items, datum.Within cut)
    (hclosing : cut.Meets closing) :
    Reports cut start cut.Refuses (list place opening items closing) (Node.Within cut) := by
  have hloc : opening.location ∈ cut.places := Cut.mem_places hopening
  match items with
  | [] => exact .ite (.pure (.leaf hloc rfl)) (refuseToken_reports hclosing)
  | .list opening' inner closing' :: rest =>
    obtain ⟨hfirst, hrest⟩ := List.forall_mem_cons.mp hitems
    refine .bind (withScope_reports ?_) fun body hbody => .pure (.of_parts hloc hbody)
    exact cons_reports (form_reports place (.list opening' inner closing') hfirst)
      (statements_reports place rest closing hrest hclosing)
  | .atom head :: rest =>
    obtain ⟨hfirst, hrest⟩ := List.forall_mem_cons.mp hitems
    have hhead : head ∈ cut.tokens := hfirst.first
    simp only [list, Datum.atom?]
    cases head.kind with
    | operator =>
      dsimp only
      cases BinOp.ofText? head.text with
      | none => exact refuseToken_reports (.inl hhead)
      | some op =>
        exact .bind (operands_reports place rest closing hrest hclosing) fun operands h =>
          binaryNode_reports hloc (cut.oneLine head hhead) h
    | ident =>
      exact applyNode_reports hloc hhead (operands_reports place rest closing hrest hclosing)
    | typeName =>
      refine .bind (builtinType_reports (.inl hhead)) fun target _ => ?_
      exact .bind (operands_reports place rest closing hrest hclosing) fun operands h =>
        castNode_reports hloc h
    | keyword =>
      dsimp only
      cases Construct.ofKeyword? head.text with
      | none => exact refuseToken_reports (.inl hhead)
      | some construct =>
        cases construct with
        | binding => exact variableDecl_reports hloc hrest hclosing
        | definition => exact definitionDecl_reports hloc hrest hclosing
        | external => exact externalDecl_reports hloc hrest hclosing
        | function => exact functionForm_reports place _ rest closing hloc hrest hclosing
        | conditional => exact conditionalForm_reports place _ rest closing hloc hrest hclosing
        | alternative =>
          -- a second branch by itself is a finding
          refine .bind (complain_reports hloc (by simp [Complaint.names])) fun _ _ => ?_
          exact .bind (withScope_reports (statements_reports place rest closing hrest hclosing))
            fun body hbody => .pure (.of_parts hloc hbody)
        | whileLoop => exact whileForm_reports place _ rest closing hloc hrest hclosing
        | forLoop =>
          exact withScope_reports (forForm_reports place _ rest closing hloc hrest hclosing)
        | result => exact returnForm_reports place _ rest closing hloc hrest hclosing
    | lparen | rparen | colon | integer | eof => exact refuseToken_reports (.inl hhead)

theorem functionForm_reports (place : Place) (loc : Location) (items : List Datum)
    (closing : Token) (hloc : loc ∈ cut.places) (hitems : ∀ datum ∈ items, datum.Within cut)
    (hclosing : cut.Meets closing) :
    Reports cut start cut.Refuses (functionForm place loc items closing) (Node.Within cut) := by
  match items with
  | [] => exact refuseFor_reports hclosing
  | nameDatum :: afterName =>
    rw [functionForm]
    obtain ⟨hnameDatum, hafter⟩ := List.forall_mem_cons.mp hitems
    refine .bind (expectAtom_reports hnameDatum) fun name hname => ?_
    refine .bind (checkFunctionPlace_reports hname) fun _ _ => ?_
    refine .bind (declare_reports hname) fun id? _ => ?_
    have hpair : ∀ pair : List SymbolId × List Node, (∀ node ∈ pair.2, node.Within cut) →
        (Node.functionDef loc id? pair.1 pair.2).Within cut := fun _ h => .of_parts hloc h
    refine .bind (withScope_reports ?_) fun pair h => .pure (hpair pair h)
    match afterName with
    | [] => exact refuseFor_reports hclosing
    | [paramsDatum] =>
      refine .bind (params_reports (hafter _ (by simp))) fun bound hbound => ?_
      exact .bind (declareParams_reports hbound) fun _ _ => refuseFor_reports hclosing
    | paramsDatum :: typeDatum :: bodyData =>
      simp only [List.forall_mem_cons] at hafter
      obtain ⟨hparams, htype, hbodyData⟩ := hafter
      refine .bind (params_reports hparams) fun bound hbound => ?_
      refine .bind (declareParams_reports hbound) fun ids _ => ?_
      refine .bind (typeExpr_reports typeDatum htype) fun result _ => ?_
      refine .bind (setSignature_reports hname hbound) fun _ _ => ?_
      exact .bind (statements_reports (.body id?) bodyData closing hbodyData hclosing)
        fun body hbody => .pure hbody

theorem conditionalForm_reports (place : Place) (loc : Location) (items : List Datum)
    (closing : Token) (hloc : loc ∈ cut.places) (hitems : ∀ datum ∈ items, datum.Within cut)
    (hclosing : cut.Meets closing) :
    Reports cut start cut.Refuses (conditionalForm place loc items closing) (Node.Within cut) := by
  match items with
  | [] => exact refuseToken_reports hclosing
  | condDatum :: branches =>
    obtain ⟨hcondDatum, hbranches⟩ := List.forall_mem_cons.mp hitems
    refine .bind (item_reports place condDatum hcondDatum) fun cond hcond => ?_
    refine .bind (withScope_reports (branch_reports place branches closing hbranches hclosing))
      fun thenBody hthen => ?_
    refine .bind (alternative?_reports place branches closing hbranches hclosing)
      fun elseBody? helse => ?_
    cases elseBody? with
    | none => exact .pure (.of_parts hloc (List.forall_mem_cons.mpr ⟨hcond, hthen⟩))
    | some elseBody =>
      refine .pure (.of_parts hloc (List.forall_mem_cons.mpr ⟨hcond, ?_⟩))
      exact List.forall_mem_append.mpr ⟨hthen, helse elseBody rfl⟩

theorem whileForm_reports (place : Place) (loc : Location) (items : List Datum) (closing : Token)
    (hloc : loc ∈ cut.places) (hitems : ∀ datum ∈ items, datum.Within cut)
    (hclosing : cut.Meets closing) :
    Reports cut start cut.Refuses (whileForm place loc items closing) (Node.Within cut) := by
  match items with
  | [] => exact refuseToken_reports hclosing
  | condDatum :: bodyData =>
    obtain ⟨hcondDatum, hbodyData⟩ := List.forall_mem_cons.mp hitems
    refine .bind (item_reports place condDatum hcondDatum) fun cond hcond => ?_
    refine .bind (withScope_reports (statements_reports place bodyData closing hbodyData hclosing))
      fun body hbody => .pure ?_
    exact .of_parts hloc (List.forall_mem_cons.mpr ⟨hcond, hbody⟩)

theorem forForm_reports (place : Place) (loc : Location) (items : List Datum) (closing : Token)
    (hloc : loc ∈ cut.places) (hitems : ∀ datum ∈ items, datum.Within cut)
    (hclosing : cut.Meets closing) :
    Reports cut start cut.Refuses (forForm place loc items closing) (Node.Within cut) := by
  match items with
  | [] => exact refuseToken_reports hclosing
  | [initDatum] =>
    exact .bind (item_reports place initDatum (hitems _ (by simp))) fun _ _ =>
      refuseToken_reports hclosing
  | [initDatum, condDatum] =>
    refine .bind (item_reports place initDatum (hitems _ (by simp))) fun _ _ => ?_
    exact .bind (item_reports place condDatum (hitems _ (by simp))) fun _ _ =>
      refuseToken_reports hclosing
  | initDatum :: condDatum :: stepDatum :: bodyData =>
    simp only [List.forall_mem_cons] at hitems
    obtain ⟨hinitDatum, hcondDatum, hstepDatum, hbodyData⟩ := hitems
    refine .bind (item_reports place initDatum hinitDatum) fun init hinit => ?_
    refine .bind (item_reports place condDatum hcondDatum) fun cond hcond => ?_
    refine .bind (item_reports place stepDatum hstepDatum) fun step hstep => ?_
    refine .bind (statements_reports place bodyData closing hbodyData hclosing)
      fun body hbody => .pure ?_
    refine .of_parts hloc (List.forall_mem_cons.mpr ⟨hinit, ?_⟩)
    exact List.forall_mem_cons.mpr ⟨hcond, List.forall_mem_cons.mpr ⟨hstep, hbody⟩⟩

theorem returnForm_reports (place : Place) (loc : Location) (items : List Datum) (closing : Token)
    (hloc : loc ∈ cut.places) (hitems : ∀ datum ∈ items, datum.Within cut)
    (hclosing : cut.Meets closing) :
    Reports cut start cut.Refuses (returnForm place loc items closing) (Node.Within cut) := by
  match items with
  | [] => exact .ite (returnNode_reports hloc (by simp)) (refuseToken_reports hclosing)
  | valueDatum :: rest =>
    obtain ⟨hvalueDatum, hrest⟩ := List.forall_mem_cons.mp hitems
    refine .bind (item_reports place valueDatum hvalueDatum) fun value hvalue => ?_
    refine .bind (returnNode_reports hloc (by simpa using hvalue)) fun node hnode => ?_
    exact .bind (expectEnd_reports hrest hclosing) fun _ _ => .pure hnode

theorem statements_reports (place : Place) (items : List Datum) (closing : Token)
    (hitems : ∀ datum ∈ items, datum.Within cut) (hclosing : cut.Meets closing) :
    Reports cut start cut.Refuses (statements place items closing)
      fun nodes => ∀ node ∈ nodes, node.Within cut := by
  match items with
  | [] => exact .ite (.pure (by simp)) (refuseFor_reports hclosing)
  | datum :: rest =>
    obtain ⟨hdatum, hrest⟩ := List.forall_mem_cons.mp hitems
    exact cons_reports (form_reports place datum hdatum)
      (statements_reports place rest closing hrest hclosing)

theorem operands_reports (place : Place) (items : List Datum) (closing : Token)
    (hitems : ∀ datum ∈ items, datum.Within cut) (hclosing : cut.Meets closing) :
    Reports cut start cut.Refuses (operands place items closing)
      fun nodes => ∀ node ∈ nodes, node.Within cut := by
  match items with
  | [] => exact .ite (.pure (by simp)) (refuseToken_reports hclosing)
  | datum :: rest =>
    obtain ⟨hdatum, hrest⟩ := List.forall_mem_cons.mp hitems
    exact cons_reports (item_reports place datum hdatum)
      (operands_reports place rest closing hrest hclosing)

theorem branch_reports (place : Place) (items : List Datum) (closing : Token)
    (hitems : ∀ datum ∈ items, datum.Within cut) (hclosing : cut.Meets closing) :
    Reports cut start cut.Refuses (branch place items closing)
      fun nodes => ∀ node ∈ nodes, node.Within cut := by
  match items with
  | [] => exact .ite (.pure (by simp)) (refuseFor_reports hclosing)
  | datum :: rest =>
    obtain ⟨hdatum, hrest⟩ := List.forall_mem_cons.mp hitems
    exact .ite (.pure (by simp)) (cons_reports (form_reports place datum hdatum)
      (branch_reports place rest closing hrest hclosing))

theorem alternative?_reports (place : Place) (items : List Datum) (closing : Token)
    (hitems : ∀ datum ∈ items, datum.Within cut) (hclosing : cut.Meets closing) :
    Reports cut start cut.Refuses (alternative? place items closing)
      fun body? => ∀ body ∈ body?, ∀ node ∈ body, node.Within cut := by
  match items with
  | [] => exact .pure (by simp)
  | .atom _ :: rest | .list _ [] _ :: rest | .list _ (.list _ _ _ :: _) _ :: rest =>
    exact alternative?_reports place rest closing (List.forall_mem_cons.mp hitems).2 hclosing
  | .list opening (.atom head :: bodyData) innerClosing :: rest =>
    obtain ⟨hlist, hrest⟩ := List.forall_mem_cons.mp hitems
    obtain ⟨hbodyData, hclosed⟩ : (∀ datum ∈ bodyData, datum.Within cut) ∧
        cut.Meets innerClosing := by
      cases hlist with
      | list mem inner closed => exact ⟨(List.forall_mem_cons.mp inner).2, closed⟩
    refine .ite ?_ (alternative?_reports place rest closing hrest hclosing)
    refine .bind (withScope_reports (statements_reports place bodyData innerClosing hbodyData
      hclosed)) fun body hbody => ?_
    exact .bind (expectEnd_reports hrest hclosing) fun _ _ => .pure (by simpa using hbody)

end

/-! ## Programs -/

lemma topForms_reports {items : List Datum} (h : ∀ datum ∈ items, datum.Within cut) :
    Reports cut start cut.Refuses (topForms items) fun nodes =>
      ∀ node ∈ nodes, node.Within cut := by
  induction items with
  | nil => exact .pure (by simp)
  | cons datum rest ih =>
    obtain ⟨hdatum, hrest⟩ := List.forall_mem_cons.mp h
    exact cons_reports (form_reports .topLevel datum hdatum) (ih hrest)

/-- The place of `main` is that of a construct of the top level. -/
lemma entryPoint?_ends (symbols : SymbolTable) (items : List Node) :
    Ends (entryPoint? symbols items) (fun loc? => ∀ loc ∈ loc?, loc ∈ items.map Node.location)
      fun _ => True := by
  induction items with
  | nil => exact Ends.pure (by simp)
  | cons item rest ih =>
    refine Ends.bind (.any fun _ => trivial) fun here _ => ih.bind fun later? hlater => ?_
    refine Ends.pure fun loc hloc => ?_
    cases later? with
    | some later =>
      obtain rfl : later = loc := by simpa using hloc
      exact List.mem_cons_of_mem _ (hlater later rfl)
    | none =>
      cases here
      · cases hloc
      · cases hloc
        exact List.mem_cons_self

/-- The data that the text is made of. -/
lemma within_ofTokens (cut : Cut) :
    cut.Meets (Nesting.ofTokens (Token.eof cut.finish) cut.tokens).inner.closing ∧
      ∀ datum ∈ (Nesting.ofTokens (Token.eof cut.finish) cut.tokens).inner.items,
        datum.Within cut := by
  have hall : ∀ remainder ∈ (Nesting.ofTokens (Token.eof cut.finish) cut.tokens).inner ::
      (Nesting.ofTokens (Token.eof cut.finish) cut.tokens).outer,
      cut.Meets remainder.closing ∧ ∀ datum ∈ remainder.items, datum.Within cut :=
    Nesting.ofTokens_all (.inr rfl) (fun token htoken => ⟨.inl htoken, .atom htoken⟩)
      fun opening hopening _ _ _ hclosing hitems => .list hopening hitems hclosing
  exact hall _ List.mem_cons_self

/-- Reading a text. -/
theorem program_reports (h : ∀ token ∈ cut.tokens, token.kind ≠ .eof) :
    Reports cut start cut.Refuses (program (cut.tokens ++ [Token.eof cut.finish]))
      fun program => ∀ node ∈ program.items, node.Within cut := by
  obtain ⟨hclosing, hdata⟩ := within_ofTokens cut
  simp only [program, Remainder.ofStream_eq h]
  generalize (Nesting.ofTokens (Token.eof cut.finish) cut.tokens).inner = top at hclosing hdata
  refine .bind (topForms_reports hdata) fun items hitems => ?_
  -- the last steps, whether or not there was something to say about `main`
  have hfinish : Reports cut start cut.Refuses (do
        let ws ← get
        if ws.symbols.depth ≠ 1 then throw (.defect .unbalancedScopes)
        log (.parsed items.length ws.symbols.size ws.types.size)
        return (⟨items⟩ : Program)) fun program => ∀ node ∈ program.items, node.Within cut :=
    .get fun ws _ => .ite .defect (.bind (.log fun _ => rfl) fun _ _ => .pure hitems)
  have hrefuse : Reports cut start cut.Refuses (refuseFor .lparen top.closing : CompileM PUnit)
      fun _ => True := refuseFor_reports hclosing
  refine .ite (.bind hrefuse fun _ _ => ?_) ?_
  all_goals
    refine .get fun ws _ => ?_
    refine .bind (.promised (entryPoint?_ends ws.symbols items)) fun loc? hloc? => ?_
    cases loc? with
    | none => exact hfinish
    | some loc =>
      obtain ⟨node, hnode, rfl⟩ := List.mem_map.mp (hloc? loc rfl)
      refine .ite (.bind (complain_reports (hitems node hnode).location ?_) fun _ _ => hfinish)
        hfinish
      simp [Complaint.names]

end Reading

end ParenC
