/-
Reading a program meets no defect.

Every function that reads a construct is specified by `Reading.Read`, in the judgement `Does`.
What the parts of a construct make together comes first, each construct by itself; the functions
that recurse on the data are then treated in one induction that follows their recursion.
-/
import Mathlib.Data.List.Basic
import ParenC.Proofs.Reading.Nodes
import ParenC.Reading.Program

namespace ParenC.Reading

open CompileM Workspace Node

variable {place : Place} {ws ws₁ ws₂ ws' : Workspace} {nodes xs ys : List Node}

/-! ## Nodes without parts -/

/-- A node without parts that declares nothing. -/
lemma Read.leaf {node : Node} (hsymbols : ws'.symbols = ws.symbols) (hparts : node.parts = [])
    (hdeclared : node.declared = []) (hfunction : node.isFunction = false)
    (hvalid : node.Valid ws'.toTables)
    (hnamed : ws'.Quiet → node.Named ws'.symbols place.owner?) : Read place ws [node] ws' := by
  refine .wrap (by rw [hparts]; exact .nil_of_eq hsymbols)
    ⟨hvalid, hnamed, fun _ part hpart => ?_, by rw [hdeclared, hparts, declaredAll_nil], hfunction⟩
  have := statementParts_subset node hpart
  simp [hparts] at this

lemma read_empty (hsymbols : ws'.symbols = ws.symbols) {loc : Location} :
    Read place ws [.empty loc] ws' :=
  .leaf hsymbols rfl rfl rfl trivial fun _ => trivial

lemma integerNode_does {token : Token} :
    Does (integerNode token) ws fun node ws' => Read place ws [node] ws' := by
  unfold integerNode
  split
  · exact .pure (.leaf rfl rfl rfl rfl trivial fun _ => trivial)
  · exact .refuse

lemma variableNode_does {token : Token} (sound : ws.toTables.Sound) :
    Does (variableNode place token) ws fun node ws' => Read place ws [node] ws' := by
  -- a name that means nothing, or no variable, is a finding
  have hunknown : ∀ ws' : Workspace, ws'.toTables = ws.toTables → ¬ ws'.Quiet →
      Read place ws [.varRef token.location none] ws' := fun ws' htables hloud =>
    .leaf (congrArg Tables.symbols htables) rfl rfl rfl (by simp [Valid])
      fun hquiet => absurd hquiet hloud
  refine .get ?_
  cases hresolve : ws.symbols.resolve token.text with
  | none =>
    refine .report_bind ?_
    rintro ws' - htables hloud
    exact .pure (hunknown ws' htables hloud)
  | some id =>
    obtain ⟨symbol, hsymbol⟩ := sound.resolve hresolve
    refine .bind (symbolAt_does hsymbol) ?_
    rintro symbol ws' - ⟨rfl, rfl⟩
    split
    · rename_i offset function? hkind
      have hhas : ws'.symbols.HasSort .localVar id := ⟨symbol, hsymbol, by rw [hkind]; rfl⟩
      split
      · -- a variable of another function is one, too
        refine .report_bind ?_
        rintro ws'' hgrows htables hloud
        refine .pure (.leaf (congrArg Tables.symbols htables) rfl rfl rfl ?_
          fun hquiet => absurd hquiet hloud)
        rintro _ ⟨⟩
        exact hhas.mono hgrows.symbols
      · rename_i howner
        refine .pure (.leaf rfl rfl rfl rfl ?_ fun _ => ⟨id, rfl, symbol, hsymbol, ?_⟩)
        · rintro _ ⟨⟩
          exact hhas
        · simpa [Symbol.isVariableOf, hkind] using howner
    · refine .report_bind ?_
      rintro ws'' - htables hloud
      exact .pure (hunknown ws'' htables hloud)

lemma atomNode_does {token : Token} (sound : ws.toTables.Sound) :
    Does (atomNode place token) ws fun node ws' => Read place ws [node] ws' := by
  unfold atomNode
  split
  · exact integerNode_does
  · exact variableNode_does sound
  · split
    · exact .pure (.leaf rfl rfl rfl rfl trivial fun _ => trivial)
    · split
      · exact .pure (.leaf rfl rfl rfl rfl trivial fun _ => trivial)
      · exact .refuse
  · exact .refuse

/-! ## What the parts make together -/

/-- An operand that may be missing was read as long as it is there. -/
lemma Read.valid_getD (h : Read place ws nodes ws') (i : Nat) (loc : Location) :
    ∀ n ∈ (nodes[i]?.getD (.empty loc)).checkOrder, n.Valid ws'.toTables := by
  intro n hn
  cases hget : nodes[i]? with
  | none =>
    simp only [hget, Option.getD_none, checkOrder, List.mem_singleton] at hn
    rw [hn]
    trivial
  | some node =>
    rw [hget, Option.getD_some] at hn
    exact h.valid n (mem_checkOrderAll.mpr ⟨node, List.mem_of_getElem? hget, hn⟩)

lemma binaryNode_does {loc : Location} {op : BinOp} {text : String}
    (h : Read place ws nodes ws₁) :
    Does (binaryNode loc op text nodes) ws₁ fun node ws₂ => Read place ws [node] ws₂ := by
  unfold binaryNode
  split
  · refine .report_bind ?_
    rintro ws₂ hgrows htables hloud
    have hvalid : ∀ i : Nat, ∀ n ∈ (nodes[i]?.getD (Node.empty loc)).checkOrder,
        n.Valid ws₂.toTables := fun i n hn => (h.valid_getD i loc n hn).mono hgrows.types hgrows.symbols
    refine .pure (.loud hloud ?_ ?_)
    · intro n hn
      simp only [checkOrderAll, checkOrder, List.append_nil, List.mem_append,
        List.mem_singleton] at hn
      rcases hn with (hn | hn) | rfl
      · exact hvalid 0 n hn
      · exact hvalid 1 n hn
      · trivial
    · rw [congrArg Tables.symbols htables]
      exact h.typed
  · rename_i hlength
    obtain ⟨lhs, rhs, rfl⟩ := List.length_eq_two.mp (not_not.mp hlength)
    exact .pure (Read.wrap h ⟨trivial, fun _ => trivial, by simp [statementParts],
      by simp [declared, parts], rfl⟩)

lemma castNode_does {loc : Location} {target : TypeId} (h : Read place ws nodes ws₁)
    (htarget : ws₁.types.Has target) :
    Does (castNode loc target nodes) ws₁ fun node ws₂ => Read place ws [node] ws₂ := by
  unfold castNode
  split
  · refine .report_bind ?_
    rintro ws₂ hgrows htables hloud
    refine .pure (.loud hloud ?_ ?_)
    · intro n hn
      simp only [checkOrderAll, checkOrder, List.append_nil, List.mem_append,
        List.mem_singleton] at hn
      rcases hn with hn | rfl
      · exact (h.valid_getD 0 loc n hn).mono hgrows.types hgrows.symbols
      · exact hgrows.types.has htarget
    · rw [congrArg Tables.symbols htables]
      exact h.typed
  · rename_i hlength
    obtain ⟨operand, rfl⟩ := List.length_eq_one_iff.mp (not_not.mp hlength)
    exact .pure (Read.wrap h ⟨htarget, fun _ => trivial, by simp [statementParts],
      by simp [declared, parts], rfl⟩)

/-- A call whose arguments were read. -/
lemma read_call {loc : Location} {callee? : Option SymbolId} (h : Read place ws nodes ws')
    (hvalid : ∀ id ∈ callee?, ws'.symbols.HasSort .function id)
    (hnamed : ws'.Quiet → callee? ≠ none) : Read place ws [.call loc callee? nodes] ws' :=
  Read.wrap h ⟨hvalid, hnamed, by simp [statementParts], rfl, rfl⟩

/-- Reading that starts after a complaint. -/
lemma Read.after (h : Read place ws₁ nodes ws') (hsymbols : ws₁.symbols = ws.symbols) :
    Read place ws nodes ws' := by
  obtain ⟨valid, typed, clean⟩ := h
  rw [hsymbols] at typed
  refine ⟨valid, typed, fun hquiet => ?_⟩
  obtain ⟨fits, nested, functions, locals, frames⟩ := clean hquiet
  rw [hsymbols] at nested functions locals
  refine ⟨fits, nested, functions, locals, fun hn => ?_⟩
  have := frames hn
  rwa [hsymbols] at this

lemma applyNode_does {loc : Location} {head : Token} {operands : CompileM (List Node)}
    (sound : ws.toTables.Sound)
    (hoperands : ∀ ws', ws.Grows ws' →
      Does operands ws' fun nodes ws'' => Read place ws' nodes ws'') :
    Does (applyNode loc head operands) ws fun node ws' => Read place ws [node] ws' := by
  -- a name that means nothing, or a variable, is a finding
  have hunknown : ∀ complaint : Complaint, Does (do
        complain head.location complaint
        return .call loc none (← operands)) ws fun node ws' => Read place ws [node] ws' := by
    intro complaint
    refine .report_bind ?_
    rintro ws₁ hgrows htables hloud
    refine .bind (hoperands ws₁ hgrows) ?_
    rintro nodes ws₂ hgrows₂ hread
    exact .pure (read_call (hread.after (congrArg Tables.symbols htables)) (by simp)
      fun hquiet => absurd (hgrows₂.quiet hquiet) hloud)
  refine .get ?_
  cases hresolve : ws.symbols.resolve head.text with
  | none => exact hunknown _
  | some id =>
    obtain ⟨symbol, hsymbol⟩ := sound.resolve hresolve
    refine .bind (symbolAt_does hsymbol) ?_
    rintro symbol ws' - ⟨rfl, rfl⟩
    split
    · rename_i hkind
      -- the name of a type: a cast
      obtain ⟨type, -, htype, hhas⟩ :=
        (sound.symbol hsymbol).exists_type (by simp [hkind, SymbolKind.sort])
      refine .promised_bind htype ?_
      refine .bind (hoperands ws' (.refl ws')) ?_
      rintro nodes ws₁ hgrows hread
      exact castNode_does hread (hgrows.types.has hhas)
    · rename_i hkind
      have hhas : ws'.symbols.HasSort .function id := ⟨symbol, hsymbol, by rw [hkind]; rfl⟩
      refine .bind (hoperands ws' (.refl ws')) ?_
      rintro nodes ws₁ hgrows hread
      refine .pure (read_call hread ?_ (by simp))
      rintro _ ⟨⟩
      exact hhas.mono hgrows.symbols
    · exact hunknown _

lemma returnNode_does {loc : Location} {value? : Option Node}
    (h : Read place ws value?.toList ws₁) (hplace : PlaceSound place ws₁) :
    Does (returnNode place loc value?) ws₁ fun node ws₂ => Read place ws [node] ws₂ := by
  have hempty : ∀ ws₂ : Workspace, ws₂.toTables = ws₁.toTables → ¬ ws₂.Quiet →
      Read place ws [.empty loc] ws₂ := by
    intro ws₂ htables hloud
    refine .loud hloud (by simp [checkOrderAll, checkOrder, Valid]) ?_
    rw [congrArg Tables.symbols htables]
    exact h.typed
  rcases place with _ | _ | function
  · refine .report_bind ?_
    rintro ws₂ - htables hloud
    exact .pure (hempty ws₂ htables hloud)
  · exact .pure (hempty ws₁ rfl hplace)
  · cases value? with
    | none => exact .pure (Read.wrap h ⟨hplace, fun _ => rfl, by simp [statementParts], rfl, rfl⟩)
    | some value =>
      refine .pure (Read.wrap h ⟨hplace, fun _ => rfl, fun hquiet => ?_,
        by simp [declared, parts], rfl⟩)
      exact (h.clean hquiet).nested (Or.inl (by simp))

/-! ## Declarations -/

/-- Looking at what follows a construct changes nothing. -/
lemma expectEnd_then {α : Type} {rest : List Datum} {closing : Token} {next : CompileM α}
    {post : α → Workspace → Prop} (h : Does next ws post) :
    Does (do expectEnd rest closing; next) ws post := by
  refine .bind expectEnd_does ?_
  rintro _ ws' - rfl
  exact h

/-- Nor does a token that has to be there. -/
lemma expectAtom_then {α : Type} {kind : TokenKind} {datum : Datum} {next : Token → CompileM α}
    {post : α → Workspace → Prop} (h : ∀ token, Does (next token) ws post) :
    Does (expectAtom kind datum >>= next) ws post := by
  refine .bind expectAtom_does ?_
  rintro token ws' - rfl
  exact h token

lemma Declared.read_variable {name : String} {type : TypeId} {id? : Option SymbolId}
    {loc : Location} (h : Declared ws (variableSymbol place name type) id? ws') :
    Read place ws [.varDecl loc id?] ws' := by
  refine h.read rfl rfl (by simp [variableSymbol]) (by simp [variableSymbol, SymbolKind.sort]) ?_
    (fun hsome => hsome) ?_
  · rintro id hid
    cases h with
    | refused => simp at hid
    | added hquiet htypes hsymbols =>
      cases hid
      exact ⟨_, by rw [hsymbols]; exact SymbolTable.add_getElem?_size _ _, rfl⟩
  · rintro id rfl owner
    simp [variableSymbol, Symbol.isVariableOf, declared, eq_comm]

lemma Declared.read_definition {name : String} {type : TypeId} {id? : Option SymbolId}
    {loc : Location} (h : Declared ws (definitionSymbol name type) id? ws') :
    Read place ws [.typedefDecl loc id?] ws' := by
  refine h.read rfl rfl (by simp [definitionSymbol]) (by simp [definitionSymbol, SymbolKind.sort])
    ?_ (fun hsome => hsome) ?_
  · rintro id hid
    cases h with
    | refused => simp at hid
    | added hquiet htypes hsymbols =>
      cases hid
      exact ⟨_, by rw [hsymbols]; exact SymbolTable.add_getElem?_size _ _, rfl⟩
  · rintro id rfl owner
    simp [definitionSymbol, Symbol.isVariableOf, declared]

lemma variableDecl_does {loc : Location} {items : List Datum} {closing : Token}
    (sound : ws.toTables.Sound) (hplace : PlaceSound place ws) :
    Does (variableDecl place loc items closing) ws fun node ws' => Read place ws [node] ws' := by
  match items with
  | [] => exact .refuse
  | [typeDatum] =>
    refine .bind (typeExpr_does typeDatum sound) ?_
    rintro type ws₁ - -
    exact .refuse
  | typeDatum :: nameDatum :: rest =>
    refine .bind (typeExpr_does typeDatum sound) ?_
    rintro type ws₁ hgrows ⟨htype, hsymbols⟩
    refine expectAtom_then fun name => ?_
    refine .bind (declareVariable_does (hgrows.sound sound) (hplace.mono hgrows) htype) ?_
    rintro id? ws₂ - hdeclared
    exact expectEnd_then (.pure (hdeclared.read_variable.after hsymbols))

lemma definitionDecl_does {loc : Location} {items : List Datum} {closing : Token}
    (sound : ws.toTables.Sound) :
    Does (definitionDecl loc items closing) ws fun node ws' => Read place ws [node] ws' := by
  match items with
  | [] => exact .refuse
  | [nameDatum] => exact expectAtom_then fun name => .refuse
  | nameDatum :: typeDatum :: rest =>
    refine expectAtom_then fun name => ?_
    refine .bind (typeExpr_does typeDatum sound) ?_
    rintro target ws₁ hgrows ⟨htarget, hsymbols⟩
    refine .bind (registerType_does (fun hsound =>
      TypeTable.registerDefinition_ok hsound name.text htarget) (hgrows.sound sound)) ?_
    rintro defined ws₂ hgrows₂ ⟨hdefined, hsymbols₂, -⟩
    refine .bind (declareDefinition_does (hgrows₂.sound (hgrows.sound sound)) hdefined) ?_
    rintro id? ws₃ - hdeclared
    exact expectEnd_then
      (.pure (hdeclared.read_definition.after (hsymbols₂.trans hsymbols)))

lemma setSignature_read (place : Place) {id? : Option SymbolId} {name : Token} {params : List (Token × TypeId)}
    {result : TypeId} {prototyped external : Bool}
    (hid : ∀ f ∈ id?, ws.symbols.HasFunction name.text f)
    (hparams : ∀ param ∈ params, ws.types.Has param.2) (hresult : ws.types.Has result) :
    Does (setSignature id? name params result prototyped external) ws fun _ ws' =>
      Read place ws [] ws' ∧ ∀ f ∈ id?, ws'.symbols.HasTyped f := by
  cases id? with
  | none => exact .pure ⟨.nil_of_eq rfl, by simp⟩
  | some f =>
    refine (setSignature_does (hid f rfl) hparams hresult).imp ?_
    rintro _ ws' - ⟨hsize, hlocals, htyped⟩
    refine ⟨.nil hsize hlocals, ?_⟩
    rintro _ ⟨⟩
    exact htyped

/-- The function that was declared is there. -/
lemma Declared.hasFunction {name : String} {id? : Option SymbolId}
    (h : Declared ws (.placeholder name .function) id? ws') :
    ∀ f ∈ id?, ws'.symbols.HasFunction name f := by
  cases h with
  | refused => simp
  | added hquiet htypes hsymbols =>
    rintro _ ⟨⟩
    exact ⟨_, by rw [hsymbols]; exact SymbolTable.add_getElem?_size _ _, rfl, rfl⟩

lemma externalDecl_does {loc : Location} {items : List Datum} {closing : Token}
    (sound : ws.toTables.Sound) :
    Does (externalDecl loc items closing) ws fun node ws' => Read place ws [node] ws' := by
  match items with
  | [] => exact .refuse
  | nameDatum :: afterName =>
    refine expectAtom_then fun name => ?_
    refine .bind (declareFunction_does sound) ?_
    rintro id? ws₁ hgrows₁ hdeclared
    have sound₁ := hgrows₁.sound sound
    have hrecord : ∀ {ws₂ : Workspace} {params : List (Token × TypeId)} {result : TypeId}
        {prototyped : Bool} {rest : List Datum}, ws₁.Grows ws₂ → ws₂.symbols = ws₁.symbols →
        (∀ param ∈ params, ws₂.types.Has param.2) → ws₂.types.Has result →
        Does (do
          setSignature id? name params result prototyped true
          expectEnd rest closing
          return Node.externDecl loc id?) ws₂ fun node ws' => Read place ws [node] ws' := by
      intro ws₂ params result prototyped rest hgrows₂ hsymbols hparams hresult
      refine .bind (setSignature_read place
        (fun f hf => (hdeclared.hasFunction f hf).mono hgrows₂.symbols) hparams hresult) ?_
      rintro _ ws₃ hgrows₃ ⟨hread, htyped⟩
      exact expectEnd_then (.pure
        (hdeclared.read_external (hread.after hsymbols) (hgrows₂.trans hgrows₃) htyped))
    match afterName with
    | [.list opening inner close] =>
      refine .bind (params_does sound₁) ?_
      rintro bound ws₂ - -
      exact .refuse
    | .list opening inner close :: typeDatum :: rest =>
      refine .bind (params_does sound₁) ?_
      rintro bound ws₂ hgrows₂ ⟨hbound, hsymbols₂⟩
      refine .bind (typeExpr_does typeDatum (hgrows₂.sound sound₁)) ?_
      rintro result ws₃ hgrows₃ ⟨hresult, hsymbols₃⟩
      exact hrecord (hgrows₂.trans hgrows₃) (hsymbols₃.trans hsymbols₂)
        (fun param hparam => hgrows₃.types.has (hbound param hparam)) hresult
    | [] => exact hrecord (.refl ws₁) rfl (by simp) (sound₁.types.has_builtin .void)
    | .atom token :: rest =>
      exact hrecord (.refl ws₁) rfl (by simp) (sound₁.types.has_builtin .void)

/-- Parameters are declared like variables. -/
lemma declareParams_does (loc : Location) {bound : List (Token × TypeId)}
    (sound : ws.toTables.Sound) (hplace : PlaceSound place ws)
    (hbound : ∀ param ∈ bound, ws.types.Has param.2) :
    Does (declareParams place bound) ws fun ids ws' =>
      Read place ws (ids.map fun id => .varDecl loc (some id)) ws' := by
  induction bound generalizing ws with
  | nil => exact .pure (.nil_of_eq rfl)
  | cons param rest ih =>
    obtain ⟨name, type⟩ := param
    refine .bind (declareVariable_does sound hplace (hbound (name, type) (by simp))) ?_
    rintro id? ws₁ hgrows₁ hdeclared
    refine .bind (ih (hgrows₁.sound sound) (hplace.mono hgrows₁)
      fun param hparam => hgrows₁.types.has (hbound param (by simp [hparam]))) ?_
    rintro ids ws₂ hgrows₂ hread
    refine .pure ?_
    cases id? with
    | none =>
      have hloud : ¬ ws₂.Quiet := by
        cases hdeclared with
        | refused hloud => exact fun hquiet => hloud (hgrows₂.quiet hquiet)
      refine .loud hloud hread.valid ?_
      cases hdeclared with
      | refused hloud htables => exact (hread.after (congrArg Tables.symbols htables)).typed
    | some id =>
      have hfirst : Read place ws [.varDecl loc (some id)] ws₁ := hdeclared.read_variable
      exact hfirst.append hread hgrows₁.toKept hgrows₂ hplace

lemma checkFunctionPlace_does {name : Token} :
    Does (checkFunctionPlace place name) ws fun _ ws' => ws'.symbols = ws.symbols ∧
      (ws'.Quiet → place = .topLevel ∧ ws.symbols.enclosing = []) := by
  have hcomplain : ∀ complaint : Complaint, Does (complain name.location complaint) ws
      fun _ ws' => ws'.symbols = ws.symbols ∧
        (ws'.Quiet → place = .topLevel ∧ ws.symbols.enclosing = []) := by
    intro complaint
    refine Does.report.imp ?_
    rintro _ ws' - ⟨htables, hloud⟩
    exact ⟨congrArg Tables.symbols htables, fun hquiet => absurd hquiet hloud⟩
  match place with
  | .body _ => exact hcomplain _
  | .topLevel =>
    refine .get ?_
    split
    · exact hcomplain _
    · rename_i hdepth
      refine .pure ⟨rfl, fun _ => ⟨rfl, ?_⟩⟩
      simpa [SymbolTable.depth, SymbolTable.scopes] using hdepth

/-- Reading inside a scope of its own. -/
lemma withScope_read (place : Place) {act : CompileM (List Node)}
    (h : Does act (opened ws) fun nodes ws' => Read place (opened ws) nodes ws') :
    Does (withScope act) ws fun nodes ws' =>
      Read place ws nodes ws' ∧ (ws'.Quiet → ∀ node ∈ nodes, node.isFunction = false) := by
  refine (withScope_does h).imp ?_
  rintro nodes _ - ⟨inner, hread, rfl⟩
  exact hread.scoped

/-! ## Lists -/

lemma Declared.placeSound {name : String} {id? : Option SymbolId}
    (h : Declared ws (.placeholder name .function) id? ws') : PlaceSound (.body id?) ws' := by
  cases h with
  | refused hloud => exact hloud
  | added hquiet htypes hsymbols =>
    exact ⟨_, by rw [hsymbols]; exact SymbolTable.add_getElem?_size _ _, rfl⟩

lemma opened_placeSound (hplace : PlaceSound place ws) : PlaceSound place (opened ws) := by
  match place, hplace with
  | .topLevel, h => exact h
  | .body none, h => exact h
  | .body (some f), h => exact h

/-- The statements of a body, a node in front. -/
lemma Read.cons {node : Node} (h₁ : Read place ws [node] ws₁) (h₂ : Read place ws₁ nodes ws₂)
    (hkept : ws.Kept ws₁) (hgrows : ws₁.Grows ws₂) (hplace : PlaceSound place ws) :
    Read place ws (node :: nodes) ws₂ :=
  h₁.append h₂ hkept hgrows hplace

mutual

theorem form_does {place : Place} {ws : Workspace} (datum : Datum) (sound : ws.toTables.Sound)
    (hplace : PlaceSound place ws) :
    Does (form place datum) ws fun node ws' => Read place ws [node] ws' := by
  match datum with
  | .atom token => exact .refuse
  | .list opening items closing => exact list_does opening items closing sound hplace

theorem item_does {place : Place} {ws : Workspace} (datum : Datum) (sound : ws.toTables.Sound)
    (hplace : PlaceSound place ws) :
    Does (item place datum) ws fun node ws' => Read place ws [node] ws' := by
  match datum with
  | .atom token => exact atomNode_does sound
  | .list opening items closing => exact list_does opening items closing sound hplace

theorem list_does {place : Place} {ws : Workspace} (opening : Token) (items : List Datum)
    (closing : Token) (sound : ws.toTables.Sound) (hplace : PlaceSound place ws) :
    Does (list place opening items closing) ws fun node ws' => Read place ws [node] ws' := by
  match items with
  | [] =>
    unfold list
    dsimp only
    split
    · exact .pure (read_empty rfl)
    · exact .refuse
  | .list opening' inner closing' :: rest =>
    unfold list
    refine .bind (withScope_read place ?_) ?_
    · refine .bind (form_does (.list opening' inner closing') (opened_sound sound)
        (opened_placeSound hplace)) ?_
      rintro node ws₁ hgrows₁ hread₁
      refine .bind (statements_does rest closing (hgrows₁.sound (opened_sound sound))
        ((opened_placeSound hplace).mono hgrows₁)) ?_
      rintro nodes ws₂ hgrows₂ hread₂
      exact .pure (hread₁.cons hread₂ hgrows₁.toKept hgrows₂ (opened_placeSound hplace))
    · rintro body ws₁ - ⟨hread, hflat⟩
      exact .pure (Read.wrap hread ⟨trivial, fun _ => trivial, hflat, rfl, rfl⟩)
  | .atom head :: rest =>
    unfold list
    dsimp only [Datum.atom?]
    split
    · -- An operator.
      split
      · exact .refuse
      · refine .bind (operands_does rest closing sound hplace) ?_
        rintro nodes ws₁ - hread
        exact binaryNode_does hread
    · exact applyNode_does sound fun ws' hgrows =>
        operands_does rest closing (hgrows.sound sound) (hplace.mono hgrows)
    · refine .bind (builtinType_does sound) ?_
      rintro target ws' - ⟨htarget, rfl⟩
      refine .bind (operands_does rest closing sound hplace) ?_
      rintro nodes ws₁ hgrows hread
      exact castNode_does hread (hgrows.types.has htarget)
    · -- A keyword.
      split
      · exact .refuse
      · exact variableDecl_does sound hplace
      · exact definitionDecl_does sound
      · exact externalDecl_does sound
      · exact functionForm_does _ rest closing sound
      · exact conditionalForm_does _ rest closing sound hplace
      · -- a second branch by itself is a finding
        refine .report_bind ?_
        rintro ws₁ hgrows₁ htables -
        refine .bind (withScope_read place (statements_does rest closing
          (opened_sound (hgrows₁.sound sound)) (opened_placeSound (hplace.mono hgrows₁)))) ?_
        rintro body ws₂ - ⟨hread, hflat⟩
        exact .pure (Read.after (Read.wrap hread
          ⟨trivial, fun _ => trivial, hflat, rfl, rfl⟩) (congrArg Tables.symbols htables))
      · exact whileForm_does _ rest closing sound hplace
      · refine (withScope_does (forForm_does _ rest closing (opened_sound sound)
          (opened_placeSound hplace) ?_)).imp ?_
        · simp [opened, SymbolTable.openScope, SymbolTable.scopes]
        · rintro node _ - ⟨inner, hread, rfl⟩
          exact hread.scoped.1
      · exact returnForm_does _ rest closing sound hplace
    · exact .refuse

theorem functionForm_does {place : Place} {ws : Workspace} (loc : Location) (items : List Datum)
    (closing : Token) (sound : ws.toTables.Sound) :
    Does (functionForm place loc items closing) ws fun node ws' => Read place ws [node] ws' := by
  match items with
  | [] => exact .refuse
  | nameDatum :: afterName =>
    unfold functionForm
    refine expectAtom_then fun name => .bind checkFunctionPlace_does ?_
    rintro _ ws₀ hgrows₀ ⟨hsymbols₀, houter⟩
    refine .bind (declareFunction_does (hgrows₀.sound sound)) ?_
    rintro id? ws₁ hgrows₁ hdeclared
    have sound₁ := opened_sound (hgrows₁.sound (hgrows₀.sound sound))
    have hbody := opened_placeSound hdeclared.placeSound
    -- what is read in the scope of the function
    have hinner : Does (do
        match afterName with
        | [] => refuseFor .lparen closing
        | paramsDatum :: afterParams => do
          let bound ← params paramsDatum
          let ids ← declareParams (.body id?) bound
          match afterParams with
          | [] => refuseFor .typeName closing
          | typeDatum :: bodyData => do
            let result ← typeExpr typeDatum
            setSignature id? name bound result true false
            let body ← statements (.body id?) bodyData closing
            return (ids, body)) (opened ws₁) fun (ids, body) ws' =>
          Read (.body id?) (opened ws₁)
            (ids.map (fun id => .varDecl loc (some id)) ++ body) ws' ∧
          ∀ f ∈ id?, ws'.symbols.HasTyped f := by
      match afterName with
      | [] => exact .refuse
      | paramsDatum :: afterParams =>
        refine .bind (params_does sound₁) ?_
        rintro bound ws₂ hgrows₂ ⟨hbound, hsymbols₂⟩
        refine .bind (declareParams_does loc (hgrows₂.sound sound₁) (hbody.mono hgrows₂) hbound) ?_
        rintro ids ws₃ hgrows₃ hread₃
        match afterParams with
        | [] => exact .refuse
        | typeDatum :: bodyData =>
          have sound₃ := hgrows₃.sound (hgrows₂.sound sound₁)
          have hkept₃ := (hgrows₂.trans hgrows₃).toKept
          refine .bind (typeExpr_does typeDatum sound₃) ?_
          rintro result ws₄ hgrows₄ ⟨hresult, hsymbols₄⟩
          have hgrows₁₄ := (hgrows₂.trans hgrows₃).trans hgrows₄
          refine .bind (setSignature_read (.body id?)
            (fun f hf => (hdeclared.hasFunction f hf).mono hgrows₁₄.symbols)
            (fun param hparam => (hgrows₃.trans hgrows₄).types.has (hbound param hparam))
            hresult) ?_
          rintro _ ws₅ hgrows₅ ⟨hread₅, htyped⟩
          refine .bind (statements_does bodyData closing (hgrows₅.sound (hgrows₄.sound sound₃))
            (hbody.mono (hgrows₁₄.trans hgrows₅))) ?_
          rintro body ws₆ hgrows₆ hread₆
          refine .pure ⟨?_, fun f hf => (htyped f hf).mono hgrows₆.symbols⟩
          -- the parameters count as nodes in front of the body
          have hparams := (hread₃.after hsymbols₂).append (hread₅.after hsymbols₄) hkept₃
            (hgrows₄.trans hgrows₅) hbody
          rw [List.append_nil] at hparams
          exact hparams.append hread₆ (hgrows₁₄.trans hgrows₅).toKept hgrows₆ hbody
    refine .bind (withScope_does hinner) ?_
    rintro ⟨ids, body⟩ _ hgrows₂ ⟨inner, ⟨hread, htyped⟩, rfl⟩
    refine .pure ((hdeclared.read_function hread.scoped.1 hgrows₂ (hgrows₀.sound sound) ?_
      htyped).after hsymbols₀)
    intro hquiet
    rw [hsymbols₀]
    exact houter (hgrows₁.quiet (hgrows₂.quiet hquiet))

theorem conditionalForm_does {place : Place} {ws : Workspace} (loc : Location)
    (items : List Datum) (closing : Token) (sound : ws.toTables.Sound)
    (hplace : PlaceSound place ws) :
    Does (conditionalForm place loc items closing) ws fun node ws' => Read place ws [node] ws' := by
  match items with
  | [] => exact .refuse
  | condDatum :: branches =>
    unfold conditionalForm
    refine .bind (item_does condDatum sound hplace) ?_
    rintro cond ws₁ hgrows₁ hread₁
    have sound₁ := hgrows₁.sound sound
    have hplace₁ := hplace.mono hgrows₁
    refine .bind (withScope_read place (branch_does branches closing (opened_sound sound₁)
      (opened_placeSound hplace₁))) ?_
    rintro thenBody ws₂ hgrows₂ ⟨hread₂, hflat₂⟩
    have hread := hread₁.cons hread₂ hgrows₁.toKept hgrows₂ hplace
    refine .bind (alternative?_does branches closing (hgrows₂.sound sound₁)
      (hplace₁.mono hgrows₂)) ?_
    rintro elseBody? ws₃ hgrows₃ ⟨hread₃, hflat₃⟩
    have hread' := hread.append hread₃ (hgrows₁.trans hgrows₂).toKept hgrows₃ hplace
    cases elseBody? with
    | none =>
      rw [Option.getD_none, List.append_nil] at hread'
      exact .pure (Read.wrap hread' ⟨trivial, fun _ => trivial,
        fun hquiet => hflat₂ (hgrows₃.quiet hquiet), rfl, rfl⟩)
    | some elseBody =>
      refine .pure (Read.wrap hread' ⟨trivial, fun _ => trivial, fun hquiet part hpart => ?_,
        by simp [declared, parts], rfl⟩)
      -- the parts of both branches stand where statements do
      rcases List.mem_append.mp hpart with hpart | hpart
      · exact hflat₂ (hgrows₃.quiet hquiet) part hpart
      · exact hflat₃ hquiet part hpart

theorem whileForm_does {place : Place} {ws : Workspace} (loc : Location) (items : List Datum)
    (closing : Token) (sound : ws.toTables.Sound) (hplace : PlaceSound place ws) :
    Does (whileForm place loc items closing) ws fun node ws' => Read place ws [node] ws' := by
  match items with
  | [] => exact .refuse
  | condDatum :: bodyData =>
    unfold whileForm
    refine .bind (item_does condDatum sound hplace) ?_
    rintro cond ws₁ hgrows₁ hread₁
    refine .bind (withScope_read place (statements_does bodyData closing
      (opened_sound (hgrows₁.sound sound)) (opened_placeSound (hplace.mono hgrows₁)))) ?_
    rintro body ws₂ hgrows₂ ⟨hread₂, hflat⟩
    exact .pure (Read.wrap (hread₁.cons hread₂ hgrows₁.toKept hgrows₂ hplace)
      ⟨trivial, fun _ => trivial, hflat, rfl, rfl⟩)

theorem forForm_does {place : Place} {ws : Workspace} (loc : Location) (items : List Datum)
    (closing : Token) (sound : ws.toTables.Sound) (hplace : PlaceSound place ws)
    (hinner : ws.symbols.enclosing ≠ []) :
    Does (forForm place loc items closing) ws fun node ws' => Read place ws [node] ws' := by
  match items with
  | [] => exact .refuse
  | [initDatum] =>
    unfold forForm
    refine .bind (item_does initDatum sound hplace) ?_
    rintro init ws₁ - -
    exact .refuse
  | [initDatum, condDatum] =>
    unfold forForm
    refine .bind (item_does initDatum sound hplace) ?_
    rintro init ws₁ hgrows₁ -
    refine .bind (item_does condDatum (hgrows₁.sound sound) (hplace.mono hgrows₁)) ?_
    rintro cond ws₂ - -
    exact .refuse
  | initDatum :: condDatum :: stepDatum :: bodyData =>
    unfold forForm
    refine .bind (item_does initDatum sound hplace) ?_
    rintro init ws₁ hgrows₁ hread₁
    have sound₁ := hgrows₁.sound sound
    have hplace₁ := hplace.mono hgrows₁
    refine .bind (item_does condDatum sound₁ hplace₁) ?_
    rintro cond ws₂ hgrows₂ hread₂
    have sound₂ := hgrows₂.sound sound₁
    have hplace₂ := hplace₁.mono hgrows₂
    refine .bind (item_does stepDatum sound₂ hplace₂) ?_
    rintro step ws₃ hgrows₃ hread₃
    refine .bind (statements_does bodyData closing (hgrows₃.sound sound₂)
      (hplace₂.mono hgrows₃)) ?_
    rintro body ws₄ hgrows₄ hread₄
    have hread₃₄ := hread₃.cons hread₄ hgrows₃.toKept hgrows₄ hplace₂
    have hread₂₄ := hread₂.cons hread₃₄ hgrows₂.toKept (hgrows₃.trans hgrows₄) hplace₁
    have hread := hread₁.cons hread₂₄ hgrows₁.toKept
      (hgrows₂.trans (hgrows₃.trans hgrows₄)) hplace
    refine .pure (Read.wrap hread ⟨trivial, fun _ => trivial, fun hquiet part hpart => ?_,
      by simp [declared, parts], rfl⟩)
    exact (hread.clean hquiet).nested (Or.inr hinner) part
      (statementParts_subset (.forLoop loc init cond step body) hpart)

theorem returnForm_does {place : Place} {ws : Workspace} (loc : Location) (items : List Datum)
    (closing : Token) (sound : ws.toTables.Sound) (hplace : PlaceSound place ws) :
    Does (returnForm place loc items closing) ws fun node ws' => Read place ws [node] ws' := by
  match items with
  | [] =>
    unfold returnForm
    split
    · exact returnNode_does (.nil_of_eq rfl) hplace
    · exact .refuse
  | valueDatum :: rest =>
    unfold returnForm
    refine .bind (item_does valueDatum sound hplace) ?_
    rintro value ws₁ hgrows₁ hread₁
    refine .bind (returnNode_does hread₁ (hplace.mono hgrows₁)) ?_
    rintro node ws₂ - hread₂
    exact expectEnd_then (.pure hread₂)

theorem statements_does {place : Place} {ws : Workspace} (items : List Datum) (closing : Token)
    (sound : ws.toTables.Sound) (hplace : PlaceSound place ws) :
    Does (statements place items closing) ws fun nodes ws' => Read place ws nodes ws' := by
  match items with
  | [] =>
    unfold statements
    split
    · exact .pure (.nil_of_eq rfl)
    · exact .refuse
  | datum :: rest =>
    unfold statements
    refine .bind (form_does datum sound hplace) ?_
    rintro node ws₁ hgrows₁ hread₁
    refine .bind (statements_does rest closing (hgrows₁.sound sound) (hplace.mono hgrows₁)) ?_
    rintro nodes ws₂ hgrows₂ hread₂
    exact .pure (hread₁.cons hread₂ hgrows₁.toKept hgrows₂ hplace)

theorem operands_does {place : Place} {ws : Workspace} (items : List Datum) (closing : Token)
    (sound : ws.toTables.Sound) (hplace : PlaceSound place ws) :
    Does (operands place items closing) ws fun nodes ws' => Read place ws nodes ws' := by
  match items with
  | [] =>
    unfold operands
    split
    · exact .pure (.nil_of_eq rfl)
    · exact .refuse
  | datum :: rest =>
    unfold operands
    refine .bind (item_does datum sound hplace) ?_
    rintro node ws₁ hgrows₁ hread₁
    refine .bind (operands_does rest closing (hgrows₁.sound sound) (hplace.mono hgrows₁)) ?_
    rintro nodes ws₂ hgrows₂ hread₂
    exact .pure (hread₁.cons hread₂ hgrows₁.toKept hgrows₂ hplace)

theorem branch_does {place : Place} {ws : Workspace} (items : List Datum) (closing : Token)
    (sound : ws.toTables.Sound) (hplace : PlaceSound place ws) :
    Does (branch place items closing) ws fun nodes ws' => Read place ws nodes ws' := by
  match items with
  | [] =>
    unfold branch
    split
    · exact .pure (.nil_of_eq rfl)
    · exact .refuse
  | datum :: rest =>
    unfold branch
    split
    · exact .pure (.nil_of_eq rfl)
    · refine .bind (form_does datum sound hplace) ?_
      rintro node ws₁ hgrows₁ hread₁
      refine .bind (branch_does rest closing (hgrows₁.sound sound) (hplace.mono hgrows₁)) ?_
      rintro nodes ws₂ hgrows₂ hread₂
      exact .pure (hread₁.cons hread₂ hgrows₁.toKept hgrows₂ hplace)

theorem alternative?_does {place : Place} {ws : Workspace} (items : List Datum) (closing : Token)
    (sound : ws.toTables.Sound) (hplace : PlaceSound place ws) :
    Does (alternative? place items closing) ws fun body? ws' =>
      Read place ws (body?.getD []) ws' ∧
        (ws'.Quiet → ∀ node ∈ body?.getD [], node.isFunction = false) := by
  match items with
  | [] =>
    unfold alternative?
    exact .pure ⟨.nil_of_eq rfl, by simp⟩
  | .atom token :: rest =>
    unfold alternative?
    exact alternative?_does rest closing sound hplace
  | .list opening [] innerClosing :: rest =>
    unfold alternative?
    exact alternative?_does rest closing sound hplace
  | .list opening (.list .. :: bodyData) innerClosing :: rest =>
    unfold alternative?
    exact alternative?_does rest closing sound hplace
  | .list opening (.atom head :: bodyData) innerClosing :: rest =>
    unfold alternative?
    split
    · refine .bind (withScope_read place (statements_does bodyData innerClosing
        (opened_sound sound) (opened_placeSound hplace))) ?_
      rintro body ws₁ - hread
      exact expectEnd_then (.pure hread)
    · exact alternative?_does rest closing sound hplace

end

/-! ## Programs -/

lemma topForms_does (items : List Datum) (sound : ws.toTables.Sound) :
    Does (topForms items) ws fun nodes ws' => Read .topLevel ws nodes ws' := by
  induction items generalizing ws with
  | nil => exact .pure (.nil_of_eq rfl)
  | cons datum rest ih =>
    refine .bind (form_does datum sound trivial) ?_
    rintro node ws₁ hgrows₁ hread₁
    refine .bind (ih (hgrows₁.sound sound)) ?_
    rintro nodes ws₂ hgrows₂ hread₂
    exact .pure (hread₁.cons hread₂ hgrows₁.toKept hgrows₂ trivial)

lemma entryPoint?_ok {tables : Tables} (h : ∀ node ∈ nodes, node.Valid tables) :
    ∃ loc?, entryPoint? tables.symbols nodes = .ok loc? := by
  induction nodes with
  | nil => exact ⟨none, rfl⟩
  | cons node rest ih =>
    obtain ⟨later?, hlater⟩ := ih fun n hn => h n (by simp [hn])
    obtain ⟨here, hhere⟩ : ∃ here, isEntryPoint tables.symbols node = .ok here := by
      unfold isEntryPoint
      split
      · rename_i loc id params body
        obtain ⟨symbol, hget, -⟩ := (h (.functionDef loc (some id) params body) (by simp)).1 id rfl
        simp [SymbolTable.get_eq_ok_iff.mpr hget, bind, Except.bind, pure, Except.pure]
      · exact ⟨false, rfl⟩
    simp [entryPoint?, hhere, hlater, bind, Except.bind, pure, Except.pure]

/-- What was read stays read while the symbols stay. -/
lemma Read.before (h : Read place ws nodes ws₁) (hkept : ws.Kept ws₁) (hgrows : ws₁.Grows ws₂)
    (hsymbols : ws₂.symbols = ws₁.symbols) (hplace : PlaceSound place ws) :
    Read place ws nodes ws₂ := by
  have := h.append (.nil_of_eq hsymbols) hkept hgrows hplace
  rwa [List.append_nil] at this

/-- Reading a program meets no defect, and leaves only the global scope open. -/
theorem program_does (tokens : List Token) (sound : ws.toTables.Sound)
    (hglobal : ws.symbols.enclosing = []) :
    Does (program tokens) ws fun program ws' => Read .topLevel ws program.items ws' := by
  unfold program
  dsimp only
  refine .bind (topForms_does _ sound) ?_
  rintro items ws₁ hgrows₁ hread
  split
  · exact .bind .refuse fun _ _ _ h => h
  · obtain ⟨loc?, hloc⟩ := entryPoint?_ok fun node hnode =>
      hread.valid node (mem_checkOrderAll.mpr ⟨node, hnode, self_mem_checkOrder node⟩)
    -- the last steps, whether or not there was something to say about `main`
    have hfinish : ∀ ws₂, ws₁.Grows ws₂ → ws₂.symbols = ws₁.symbols → Does (do
        let ws ← get
        if ws.symbols.depth ≠ 1 then throw (.defect .unbalancedScopes)
        log (.parsed items.length ws.symbols.size ws.types.size)
        return (⟨items⟩ : Program)) ws₂
          fun program ws' => Read .topLevel ws program.items ws' := by
      intro ws₂ hgrows₂ hsymbols
      refine .get ?_
      have hdepth : ¬ ws₂.symbols.depth ≠ 1 := by
        simp [SymbolTable.depth, SymbolTable.scopes, hsymbols, hgrows₁.enclosing, hglobal]
      rw [if_neg hdepth]
      refine .bind log_does ?_
      rintro _ ws₃ hgrows₃ ⟨htables, -⟩
      exact .pure (hread.before hgrows₁.toKept (hgrows₂.trans hgrows₃)
        ((congrArg Tables.symbols htables).trans hsymbols) trivial)
    refine .get (.promised_bind hloc ?_)
    split
    · split
      · refine .report_bind ?_
        rintro ws₂ hgrows₂ htables -
        exact hfinish ws₂ hgrows₂ (congrArg Tables.symbols htables)
      · exact hfinish ws₁ (.refl ws₁) rfl
    · exact hfinish ws₁ (.refl ws₁) rfl

end ParenC.Reading
