/-
Programs are written as they were read.

Each construct is looked at by itself; the functions that recurse on the data are then treated in
one induction that follows their recursion.
-/
import ParenC.Proofs.Reading.Recognition
import ParenC.Proofs.Reading.Spelling

namespace ParenC

namespace Reading

open CompileM Workspace Mark

variable {place : Place} {ws ws₁ ws₂ ws' : Workspace}

/-! ## Atoms -/

/-- A literal is written as it was read. -/
lemma integerNode_spells {token : Token} (hkind : token.kind = .integer) (h : token.Lexical) :
    Does (integerNode token) ws fun node ws' =>
      Spells ws [token.face] (fun tables => node.marks tables) ws' := by
  rw [Token.Lexical, hkind] at h
  obtain ⟨n, hn⟩ : ∃ n : Numeral, token.text = n.text := h
  unfold integerNode
  split
  · rename_i value hvalue
    rw [hn] at hvalue
    obtain ⟨hrange, rfl⟩ := n.ofText_eq_ok.mp hvalue
    have hface : token.face = (.integer, n.value.text) := by
      rw [Token.face_eq hkind, hn, n.text_value hrange]
    rw [hface]
    exact .pure (.word .integer n.value.text)
  · exact .refuse

/-- A name that means a symbol, mentioned. -/
lemma spells_mention {name : String} {id : SymbolId} (hresolve : ws.symbols.resolve name = some id) :
    Spells ws [(.ident, name)] (fun tables => [tables.symbols.mention id]) ws := by
  intro _ hlabelled
  obtain ⟨symbol, hsymbol, hname⟩ := hlabelled.resolve hresolve
  have hmention : ∀ {tables}, After tables ws →
      tables.symbols.mention id = .mention name (.symbol id) := by
    intro tables hafter
    rw [SymbolTable.mention, hafter.keeps.nameOf_eq hsymbol, hname]
  refine ⟨.refl _, hlabelled, ?_, ?_⟩
  · intro tables hafter
    rw [hmention hafter]
    rfl
  · intro tables hafter
    rw [hmention hafter]
    exact .cons (.mention hresolve rfl) .nil

lemma variableNode_spells {token : Token} (hkind : token.kind = .ident)
    (sound : ws.toTables.Sound) : Does (variableNode place token) ws fun node ws' =>
      Spells ws [token.face] (fun tables => node.marks tables) ws' := by
  rw [Token.face_eq hkind]
  refine .get ?_
  cases hresolve : ws.symbols.resolve token.text with
  | none => exact complain_spells
  | some id =>
    obtain ⟨symbol, hsymbol⟩ := sound.resolve hresolve
    refine .bind (symbolAt_does hsymbol) ?_
    rintro symbol ws' - ⟨rfl, rfl⟩
    split
    · split
      · exact complain_spells
      · exact .pure (spells_mention hresolve)
    · exact complain_spells

lemma atomNode_spells {token : Token} (h : token.Lexical) (sound : ws.toTables.Sound) :
    Does (atomNode place token) ws fun node ws' =>
      Spells ws [token.face] (fun tables => node.marks tables) ws' := by
  unfold atomNode
  split
  · exact integerNode_spells ‹_› h
  · exact variableNode_spells ‹_› sound
  · rename_i hkind
    rw [Token.face_eq hkind]
    split
    · rename_i htrue
      rw [htrue]
      exact .pure (.word .keyword "true")
    · split
      · rename_i hfalse
        rw [hfalse]
        exact .pure (.word .keyword "false")
      · exact .refuse
  · exact .refuse

/-! ## What the parts make together -/

lemma binaryNode_spells {loc : Location} {op : BinOp} {text : String} {nodes : List Node}
    {xs : List Face} (hop : BinOp.ofText? text = some op)
    (h : Spells ws xs (fun tables => Node.marksAll tables nodes) ws₁) (hgrows : ws.Grows ws₁) :
    Does (binaryNode loc op text nodes) ws₁ fun node ws₂ =>
      Spells ws (framed ((.operator, text) :: xs)) (fun tables => node.marks tables) ws₂ := by
  unfold binaryNode
  split
  · exact complain_spells
  · rename_i hlength
    obtain ⟨lhs, rhs, rfl⟩ := List.length_eq_two.mp (not_not.mp hlength)
    refine .pure (((h.cons .operator text hgrows).bracket hgrows).congr ?_)
    intro _ _ tables _
    simp [Node.marks, BinOp.text_of_ofText? hop]

lemma castNode_spells {loc : Location} {target : TypeId} {nodes : List Node} {xs ys : List Face}
    (htarget : Spells ws xs (fun tables => tables.types.marks target) ws)
    (h : Spells ws ys (fun tables => Node.marksAll tables nodes) ws₁) (hgrows : ws.Grows ws₁) :
    Does (castNode loc target nodes) ws₁ fun node ws₂ =>
      Spells ws (framed (xs ++ ys)) (fun tables => node.marks tables) ws₂ := by
  unfold castNode
  split
  · exact complain_spells
  · rename_i hlength
    obtain ⟨operand, rfl⟩ := List.length_eq_one_iff.mp (not_not.mp hlength)
    refine .pure (((htarget.append h hgrows).bracket hgrows).congr ?_)
    intro _ _ tables _
    simp [Node.marks]

lemma applyNode_spells {loc : Location} {head : Token} {operands : CompileM (List Node)}
    {xs : List Face} (hkind : head.kind = .ident) (sound : ws.toTables.Sound)
    (h : ∀ ws', ws.Grows ws' → Does operands ws' fun nodes ws'' =>
      Spells ws' xs (fun tables => Node.marksAll tables nodes) ws'') :
    Does (applyNode loc head operands) ws fun node ws' =>
      Spells ws (framed (head.face :: xs)) (fun tables => node.marks tables) ws' := by
  -- a name that means nothing, or a variable, is a finding
  have hunknown : ∀ complaint : Complaint, Does (do
        complain head.location complaint
        return Node.call loc none (← operands)) ws fun node ws' =>
          Spells ws (framed (head.face :: xs)) (fun tables => node.marks tables) ws' := by
    intro complaint
    refine .report_bind ?_
    rintro ws₁ hgrows - hloud
    refine .bind (h ws₁ hgrows) ?_
    rintro nodes ws₂ hgrows₂ -
    exact .pure (.loud fun hquiet => hloud (hgrows₂.quiet hquiet))
  refine .get ?_
  cases hresolve : ws.symbols.resolve head.text with
  | none => exact hunknown _
  | some id =>
    obtain ⟨symbol, hsymbol⟩ := sound.resolve hresolve
    refine .bind (symbolAt_does hsymbol) ?_
    rintro symbol ws' - ⟨rfl, rfl⟩
    split
    · rename_i hsymbolKind
      obtain ⟨type, htype, hpromised, -⟩ :=
        (sound.symbol hsymbol).exists_type (by simp [hsymbolKind, SymbolKind.sort])
      refine .promised_bind hpromised ?_
      refine .bind (h ws' (.refl ws')) ?_
      rintro nodes ws₁ hgrows hspells
      rw [Token.face_eq hkind]
      exact castNode_spells (spells_type hresolve hsymbol hsymbolKind htype) hspells hgrows
    · refine .bind (h ws' (.refl ws')) ?_
      rintro nodes ws₁ hgrows hspells
      rw [Token.face_eq hkind]
      exact .pure (((spells_mention hresolve).append hspells hgrows).bracket hgrows)
    · exact hunknown _

lemma returnNode_spells {loc : Location} {value? : Option Node} {xs : List Face}
    (h : Spells ws xs (fun tables => Node.marksAll tables value?.toList) ws₁)
    (hgrows : ws.Grows ws₁) (hplace : PlaceSound place ws₁) :
    Does (returnNode place loc value?) ws₁ fun node ws₂ =>
      Spells ws (framed ((.keyword, "return") :: xs)) (fun tables => node.marks tables) ws₂ := by
  match place, hplace with
  | .topLevel, _ => exact complain_spells
  | .body none, hloud => exact .pure (.loud hloud)
  | .body (some function), _ =>
    have hall := (h.cons .keyword "return" hgrows).bracket hgrows
    cases value? with
    | none => exact .pure hall
    | some value =>
      refine .pure (hall.congr fun _ _ tables _ => ?_)
      simp [Node.marks, keyword]

/-! ## Declarations -/

lemma variableDecl_spells {loc : Location} {items : List Datum} {closing : Token}
    (h : ∀ datum ∈ items, datum.Proper) (sound : ws.toTables.Sound)
    (hplace : PlaceSound place ws) : Does (variableDecl place loc items closing) ws fun node ws' =>
      Spells ws (framed ((.keyword, "let") :: Datum.facesAll items))
        (fun tables => node.marks tables) ws' := by
  match items with
  | [] => exact .refuse
  | [typeDatum] =>
    refine .bind (typeExpr_does typeDatum sound) ?_
    rintro type ws₁ - -
    exact .refuse
  | typeDatum :: nameDatum :: rest =>
    refine .bind ((typeExpr_does typeDatum sound).and
      (typeExpr_spells typeDatum (h typeDatum (by simp)) sound)) ?_
    rintro type ws₁ hgrows₁ ⟨⟨htype, -⟩, hspells⟩
    refine .bind expectAtom_token ?_
    rintro name ws' - ⟨rfl, rfl, hname⟩
    refine .bind (declareVariable_does (hgrows₁.sound sound) (hplace.mono hgrows₁) htype) ?_
    rintro id? ws₂ hgrows₂ hdeclared
    refine .bind expectEnd_end ?_
    rintro _ ws' - ⟨rfl, rfl⟩
    refine .pure fun hquiet hlabelled => ?_
    obtain ⟨id, rfl, hentry, hdeclare⟩ := hdeclared.spells hquiet (by simp [variableSymbol])
    have hgrows := hgrows₁.trans hgrows₂
    have hall := (((hspells.concat .ident name.text).append hdeclare hgrows₂).cons .keyword "let"
      hgrows).bracket hgrows
    simp only [Datum.facesAll_cons, Datum.faces_atom, Token.face_eq hname, Datum.facesAll_nil,
      List.append_nil] at hall ⊢
    -- later symbols do not change the name and the type of this one
    refine hall.congr (fun _ _ tables hafter => ?_) hquiet hlabelled
    have hsymbol := hafter.keeps.entry hentry (by simp [variableSymbol])
    have hnameOf := hafter.keeps.nameOf_eq hentry
    simp [Node.marks, SymbolTable.introduce, SymbolTable.declaration, hnameOf,
      SymbolTable.typeOf_eq hsymbol rfl, variableSymbol, keyword]

lemma target?_eq {table : TypeTable} {id target : TypeId} {info : TypeInfo} {name : String}
    (hinfo : table.entries[id.index]? = some info) (hshape : info.shape = .definition name target) :
    table.target? id = some target := by
  simp [TypeTable.target?, hinfo, hshape]

lemma definitionDecl_spells {loc : Location} {items : List Datum} {closing : Token}
    (h : ∀ datum ∈ items, datum.Proper) (sound : ws.toTables.Sound) :
    Does (definitionDecl loc items closing) ws fun node ws' =>
      Spells ws (framed ((.keyword, "typedef") :: Datum.facesAll items))
        (fun tables => node.marks tables) ws' := by
  match items with
  | [] => exact .refuse
  | [nameDatum] => exact expectAtom_then fun name => .refuse
  | nameDatum :: typeDatum :: rest =>
    refine .bind expectAtom_token ?_
    rintro name ws' - ⟨rfl, rfl, hname⟩
    refine .bind ((typeExpr_does typeDatum sound).and
      (typeExpr_spells typeDatum (h typeDatum (by simp)) sound)) ?_
    rintro target ws₁ hgrows₁ ⟨⟨htarget, -⟩, hspells⟩
    refine .bind ((registerType_does (fun hsound =>
      TypeTable.registerDefinition_ok hsound name.text htarget) (hgrows₁.sound sound)).with_run) ?_
    rintro defined ws₂ hgrows₂ ⟨⟨hdefined, hsymbols₂, -⟩, hrun⟩
    -- the entry that was added is found again when the definition is written
    obtain ⟨info, hinfo, hshape⟩ : ∃ info, ws₂.types.entries[defined.index]? = some info ∧
        info.shape = .definition name.text target := by
      obtain ⟨types, hadd, rfl⟩ := registerType_eq_ok hrun
      exact TypeTable.registerDefinition_entry hadd
    refine .bind (declareDefinition_does (hgrows₂.sound (hgrows₁.sound sound)) hdefined) ?_
    rintro id? ws₃ hgrows₃ hdeclared
    refine .bind expectEnd_end ?_
    rintro _ ws' - ⟨rfl, rfl⟩
    refine .pure fun hquiet hlabelled => ?_
    obtain ⟨id, rfl, hentry, hdeclare⟩ := hdeclared.spells hquiet
      fun _ => ⟨defined, info, target, rfl, hinfo, hshape⟩
    have hgrows := (hgrows₁.trans hgrows₂).trans hgrows₃
    have hall := (((((hspells.append (.types hgrows₂ hsymbols₂) hgrows₂).append hdeclare
      hgrows₃).cons .ident name.text hgrows).cons .keyword "typedef" hgrows).bracket hgrows)
    simp only [Datum.facesAll_cons, Datum.faces_atom, Token.face_eq hname, Datum.facesAll_nil,
      List.append_nil, List.singleton_append] at hall ⊢
    -- later symbols do not change the name and the type of this one
    refine hall.congr (fun _ _ tables hafter => ?_) hquiet hlabelled
    have hsymbol := hafter.keeps.entry hentry (by simp [definitionSymbol])
    have hnameOf := hafter.keeps.nameOf_eq hentry
    have htypeOf := SymbolTable.typeOf_eq hsymbol rfl
    have hext := hafter.keeps.types.trans hgrows₃.types
    simp [Node.marks, SymbolTable.introduce, SymbolTable.declaration, hnameOf, htypeOf,
      target?_eq (hext hinfo) hshape, definitionSymbol, keyword]

/-- The signature of a function is recorded where the function was waiting for it. -/
lemma setSignature_spells {id : SymbolId} {name : Token} {params : List (Token × TypeId)}
    {result : TypeId} {prototyped external : Bool}
    (hrun : setSignature (some id) name params result prototyped external ws = .ok () ws')
    (hold : ws.symbols.entries[id.index]? = some (.placeholder name.text .function)) :
    ws'.symbols.entries[id.index]? =
      some (functionSymbol name.text params result prototyped external) ∧
    Spells ws [] (fun _ => []) ws' := by
  let new := functionSymbol name.text params result prototyped external
  have hid := SymbolTable.lt_size_of_getElem? hold
  have hset : ws.symbols.set id new = .ok (ws.symbols.replace id new) :=
    SymbolTable.set_eq hold rfl
  -- nothing but the entry of the function changes
  have hws' : ws' = { ws with symbols := ws.symbols.replace id new } := by
    obtain ⟨_, _, hget, hrun⟩ := bind_eq_ok.mp hrun
    cases hget
    obtain ⟨symbols, _, hpromised, hrun⟩ := bind_eq_ok.mp hrun
    obtain ⟨hsymbols, rfl⟩ := promised_eq_ok.mp hpromised
    rw [show ws.symbols.set id new = .ok symbols from hsymbols] at hset
    cases hset
    cases hrun
    rfl
  have hentry : ∀ i : Nat, ws'.symbols.entries[i]? =
      if i = id.index then some new else ws.symbols.entries[i]? := by
    intro i
    rw [hws']
    exact SymbolTable.replace_getElem? hid new i
  refine ⟨by rw [hentry, if_pos rfl], fun _ hlabelled => ⟨⟨?_, ?_⟩, ⟨?_, ?_⟩, fun _ => rfl, ?_⟩⟩
  · rw [hws']
    exact .refl _
  · -- the entry that changes had no type
    intro i old hget
    rw [hentry]
    split
    · rename_i hi
      rw [hi, hold] at hget
      cases hget
      exact ⟨new, rfl, rfl, fun htyped => absurd rfl htyped⟩
    · exact ⟨old, hget, rfl, fun _ => rfl⟩
  · intro scope hscope pair hpair
    have hscope' : scope ∈ ws.symbols.scopes := by rwa [hws'] at hscope
    obtain ⟨symbol, hget, hname⟩ := hlabelled.names scope hscope' pair hpair
    rw [hentry]
    split
    · rename_i hi
      rw [hi, hold] at hget
      cases hget
      exact ⟨new, rfl, hname⟩
    · exact ⟨symbol, hget, hname⟩
  · intro i symbol hget hkind
    rw [hentry] at hget
    split at hget
    · cases hget
      cases hkind
    · obtain ⟨type, info, target, htype, hinfo, hshape⟩ := hlabelled.definitions hget hkind
      exact ⟨type, info, target, htype, by rwa [hws'], hshape⟩
  · intro tables _
    have hscoping : scoping ws' = scoping ws := by
      rw [hws']
      simp only [scoping, SymbolTable.replace_size]
      rfl
    rw [hscoping]
    exact .nil

/-- How a signature is written. -/
lemma signature_eq {tables : Tables} {id : SymbolId} {name : String}
    {params : List (Token × TypeId)} {result : TypeId} {external : Bool}
    (h : tables.symbols.entries[id.index]? = some (functionSymbol name params result true external))
    (declared : List SymbolId) : tables.signature id declared =
      Mark.bracket (Mark.bindings tables.types.marks (written params)) ++
        (declared.map tables.symbols.declaration ++ tables.types.marks result) := by
  have hsignature : tables.symbols.signatureOf id = some (written params) := by
    simp [SymbolTable.signatureOf, h, functionSymbol, written]
  rw [Tables.signature, hsignature, SymbolTable.typeOf_eq h rfl]

/-- The end of the declaration of a function that is defined elsewhere.  What stands `between` the
name and the end was read without touching the symbols. -/
lemma recordExternal_spells (between : List Datum) {id? : Option SymbolId} {name closing : Token}
    {loc : Location} {rest : List Datum} {params : List (Token × TypeId)} {result : TypeId}
    {prototyped : Bool} (hname : name.kind = .ident)
    (hdeclared : Declared ws (.placeholder name.text .function) id? ws₁) (hgrows₁ : ws.Grows ws₁)
    (hgrows₂ : ws₁.Grows ws₂) (hsymbols : ws₂.symbols = ws₁.symbols)
    (hparams : ∀ param ∈ params, ws₂.types.Has param.2) (hresult : ws₂.types.Has result)
    (hspells : Spells ws₁ (Datum.facesAll between) (fun tables => if prototyped then
      Mark.bracket (Mark.bindings tables.types.marks (written params)) ++
        tables.types.marks result else []) ws₂) :
    Does (do
      setSignature id? name params result prototyped true
      expectEnd rest closing
      return Node.externDecl loc id?) ws₂ fun node ws₃ => Spells ws
        (framed ((.keyword, "exfun") :: name.face :: Datum.facesAll (between ++ rest)))
          (fun tables => node.marks tables) ws₃ := by
  refine .bind (setSignature_read .topLevel (fun f hf => (hdeclared.hasFunction f hf).mono
    hgrows₂.symbols) hparams hresult).with_run ?_
  rintro _ ws₃ hgrows₃ ⟨-, hrun⟩
  refine .bind expectEnd_end ?_
  rintro _ ws₄ - ⟨rfl, rfl⟩
  refine .pure fun hquiet hlabelled => ?_
  have hquiet₁ := (hgrows₂.trans hgrows₃).quiet hquiet
  obtain ⟨id, rfl, hplaceholder, hdeclare⟩ := hdeclared.spells hquiet₁
    (by simp [Symbol.placeholder])
  -- what stands between left the symbols alone, so the function still waits for its signature
  obtain ⟨hentry, hset⟩ := setSignature_spells hrun (by rw [hsymbols]; exact hplaceholder)
  have hgrows₂₃ := hgrows₂.trans hgrows₃
  have hgrows := hgrows₁.trans hgrows₂₃
  have hall := ((((hdeclare.append (hspells.append hset hgrows₃) hgrows₂₃).cons .ident name.text
    hgrows).cons .keyword "exfun" hgrows).bracket hgrows)
  rw [List.append_nil, List.nil_append] at hall
  rw [List.append_nil, Token.face_eq hname]
  refine hall.congr (fun _ _ tables hafter => ?_) hquiet hlabelled
  have hsymbol := hafter.keeps.entry hentry (by simp [functionSymbol])
  have hnameOf : tables.symbols.nameOf id = name.text := hafter.keeps.nameOf_eq hentry
  cases prototyped with
  | true =>
    simp [Node.marks, SymbolTable.introduce, SymbolTable.declaration, hnameOf, keyword,
      signature_eq hsymbol, Symbol.placeholder]
  | false =>
    have hnone : tables.signature id [] = [] := by
      simp [Tables.signature, SymbolTable.signatureOf, hsymbol, functionSymbol]
    simp [Node.marks, SymbolTable.introduce, SymbolTable.declaration, hnameOf, keyword, hnone,
      Symbol.placeholder]

lemma externalDecl_spells {loc : Location} {items : List Datum} {closing : Token}
    (h : ∀ datum ∈ items, datum.Proper) (sound : ws.toTables.Sound) :
    Does (externalDecl loc items closing) ws fun node ws' =>
      Spells ws (framed ((.keyword, "exfun") :: Datum.facesAll items))
        (fun tables => node.marks tables) ws' := by
  cases items with
  | nil => exact .refuse
  | cons nameDatum afterName =>
    refine .bind expectAtom_token ?_
    rintro name ws' - ⟨rfl, rfl, hname⟩
    refine .bind (declareFunction_does sound) ?_
    rintro id? ws₁ hgrows₁ hdeclared
    have sound₁ := hgrows₁.sound sound
    have hvoid := sound₁.types.has_builtin .void
    rw [Datum.facesAll_cons, Datum.faces_atom, List.singleton_append]
    match afterName with
    | [.list opening inner close] =>
      refine .bind (params_does sound₁) ?_
      rintro bound ws₂ - -
      exact .refuse
    | .list opening inner close :: typeDatum :: rest =>
      refine .bind ((params_does sound₁).and (params_spells (h _ (by simp)) sound₁)) ?_
      rintro bound ws₂ hgrows₂ ⟨⟨hbound, hsymbols₂⟩, hspells₂⟩
      have sound₂ := hgrows₂.sound sound₁
      refine .bind ((typeExpr_does typeDatum sound₂).and
        (typeExpr_spells typeDatum (h typeDatum (by simp)) sound₂)) ?_
      rintro result ws₃ hgrows₃ ⟨⟨hresult, hsymbols₃⟩, hspells₃⟩
      have hspells := hspells₂.append hspells₃ hgrows₃
      exact recordExternal_spells [.list opening inner close, typeDatum] hname
        hdeclared hgrows₁ (hgrows₂.trans hgrows₃) (hsymbols₃.trans hsymbols₂)
        (fun param hparam => hgrows₃.types.has (hbound param hparam)) hresult
        (by simpa using hspells)
    | [] =>
      exact recordExternal_spells [] hname hdeclared hgrows₁ (.refl ws₁) rfl
        (by simp) hvoid (.nil rfl)
    | .atom token :: rest =>
      exact recordExternal_spells [] hname hdeclared hgrows₁ (.refl ws₁) rfl
        (by simp) hvoid (.nil rfl)

/-- Parameters are declared in the order of the text, and the symbols of before stay. -/
lemma declareParams_spells {bound : List (Token × TypeId)} (sound : ws.toTables.Sound)
    (hplace : PlaceSound place ws) (hbound : ∀ param ∈ bound, ws.types.Has param.2) :
    Does (declareParams place bound) ws fun ids ws' =>
      Spells ws [] (fun tables => ids.map tables.symbols.declaration) ws' ∧
      ∀ {i : Nat} {old : Symbol}, ws.symbols.entries[i]? = some old →
        ws'.symbols.entries[i]? = some old := by
  induction bound generalizing ws with
  | nil => exact .pure ⟨.nil rfl, fun h => h⟩
  | cons param rest ih =>
    obtain ⟨name, type⟩ := param
    refine .bind (declareVariable_does sound hplace (hbound (name, type) (by simp))) ?_
    rintro id? ws₁ hgrows₁ hdeclared
    refine .bind (ih (hgrows₁.sound sound) (hplace.mono hgrows₁)
      fun param hparam => hgrows₁.types.has (hbound param (by simp [hparam]))) ?_
    rintro ids ws₂ hgrows₂ ⟨hspells, hkeep⟩
    refine .pure ⟨fun hquiet hlabelled => ?_, fun hget => hkeep ?_⟩
    · obtain ⟨id, rfl, hentry, hdeclare⟩ := hdeclared.spells (hgrows₂.quiet hquiet)
        (by simp [variableSymbol])
      refine (hdeclare.append hspells hgrows₂).congr (fun _ _ tables hafter => ?_) hquiet hlabelled
      have hnameOf : tables.symbols.nameOf id = name.text :=
        hafter.keeps.nameOf_eq (hkeep hentry)
      simp [SymbolTable.declaration, hnameOf, variableSymbol]
    · cases hdeclared with
      | refused hloud htables => rwa [congrArg Tables.symbols htables]
      | added hquiet htypes hsymbols hnew =>
        rw [hsymbols, SymbolTable.add_getElem?,
          if_neg (by have := SymbolTable.lt_size_of_getElem? hget; omega)]
        exact hget

/-- The inside of the definition of a function: its signature is recorded where the function was
waiting for it, and the rest is read after that. -/
lemma signature_spells {id? : Option SymbolId} {name : Token} {paramsDatum typeDatum : Datum}
    {rest : CompileM (List Node)} {xs : List Face} (hparams : paramsDatum.Proper)
    (htype : typeDatum.Proper) (sound : ws.toTables.Sound) (hplace : PlaceSound (.body id?) ws)
    (hfunction : ∀ f ∈ id?, ws.symbols.HasFunction name.text f)
    (hrest : ∀ ws', ws.Grows ws' → Does rest ws' fun nodes ws'' =>
      Spells ws' xs (fun tables => Node.marksAll tables nodes) ws'') :
    Does (do
      let bound ← params paramsDatum
      let ids ← declareParams (.body id?) bound
      let result ← typeExpr typeDatum
      setSignature id? name bound result true false
      let body ← rest
      return (ids, body)) ws fun (ids, body) ws' =>
        ∀ f, id? = some f → ws.symbols.entries[f.index]? = some (.placeholder name.text .function) →
          Spells ws (paramsDatum.faces ++ (typeDatum.faces ++ xs))
            (fun tables => tables.signature f ids ++ Node.marksAll tables body) ws' := by
  refine .bind ((params_does sound).and (params_spells hparams sound)) ?_
  rintro bound ws₁ hgrows₁ ⟨⟨hbound, hsymbols₁⟩, hspells₁⟩
  have sound₁ := hgrows₁.sound sound
  refine .bind (declareParams_spells sound₁ (hplace.mono hgrows₁) hbound) ?_
  rintro ids ws₂ hgrows₂ ⟨hspells₂, hkeep₂⟩
  have sound₂ := hgrows₂.sound sound₁
  refine .bind ((typeExpr_does typeDatum sound₂).and (typeExpr_spells typeDatum htype sound₂)) ?_
  rintro result ws₃ hgrows₃ ⟨⟨hresult, hsymbols₃⟩, hspells₃⟩
  have hgrows₀₃ := (hgrows₁.trans hgrows₂).trans hgrows₃
  refine .bind (setSignature_read (.body id?) (fun f hf => (hfunction f hf).mono hgrows₀₃.symbols)
    (fun param hparam => (hgrows₂.trans hgrows₃).types.has (hbound param hparam))
    hresult).with_run ?_
  rintro _ ws₄ hgrows₄ ⟨-, hrun⟩
  refine .bind (hrest ws₄ (hgrows₀₃.trans hgrows₄)) ?_
  rintro body ws₅ hgrows₅ hspells₅
  refine .pure ?_
  rintro f rfl hplaceholder hquiet hlabelled
  -- neither the parameters nor the types touch the function, which still has no signature
  have hwaiting : ws₃.symbols.entries[f.index]? = some (.placeholder name.text .function) := by
    rw [hsymbols₃]
    refine hkeep₂ ?_
    rw [hsymbols₁]
    exact hplaceholder
  obtain ⟨hentry₄, hspells₄⟩ := setSignature_spells hrun hwaiting
  have hgrows₂₄ := (hgrows₂.trans hgrows₃).trans hgrows₄
  have hsignature := hspells₁.append ((hspells₂.append hspells₃ hgrows₃).append hspells₄ hgrows₄)
    hgrows₂₄
  have hlabelled₄ := (hsignature (hgrows₅.quiet hquiet) hlabelled).labelled
  have hentry₅ := (hspells₅ hquiet hlabelled₄).keeps.entry hentry₄ (by simp [functionSymbol])
  have hall := hsignature.append hspells₅ hgrows₅
  simp only [List.append_nil, List.nil_append, List.append_assoc] at hall
  refine hall.congr (fun _ _ tables hafter => ?_) hquiet hlabelled
  rw [signature_eq (hafter.keeps.entry hentry₅ (by simp [functionSymbol]))]
  simp only [List.append_assoc]

/-! ## Lists -/

/-- Statements inside a scope of their own. -/
lemma withScope_spells {act : CompileM (List Node)} (xs : List Face)
    (h : Does act (opened ws) fun nodes ws' =>
      Spells (opened ws) xs (fun tables => Node.marksAll tables nodes) ws') :
    Does (withScope act) ws fun nodes ws' =>
      Spells ws xs (fun tables => Mark.region (Node.marksAll tables nodes)) ws' := by
  refine (withScope_does h.with_grows).imp ?_
  rintro nodes _ - ⟨inner, ⟨hspells, hgrows⟩, rfl⟩
  exact hspells.region hgrows.toKept

/-- A keyword at the head of a list. -/
lemma face_keyword {head : Token} (hkind : head.kind = .keyword) {construct : Construct}
    (hselected : Construct.ofKeyword? head.text = some construct) :
    head.face = (.keyword, construct.keyword) := by
  rw [Token.face_eq hkind, Construct.ofKeyword?_eq_some.mp hselected]

/-- A list that is closed, around what was read. -/
lemma closed_spells {opening closing : Token} {items : List Datum} {act : CompileM Node}
    {p : Prop} (h : (Datum.list opening items closing).Proper)
    (hspells : Does act ws fun node ws' =>
      Spells ws (framed (Datum.facesAll items)) (fun tables => node.marks tables) ws')
    (haccepts : Accepts act ws (p ∧ closing.kind = .rparen)) : Does act ws fun node ws' =>
      Spells ws (Datum.list opening items closing).faces (fun tables => node.marks tables) ws' := by
  refine (hspells.with_accepts haccepts).imp ?_
  rintro node ws' - ⟨hspells, -, hclosing⟩
  rwa [h.faces_list hclosing]

/-- A node and those that follow it. -/
lemma cons_spells {first : CompileM Node} {rest : CompileM (List Node)} {xs ys : List Face}
    (hfirst : Does first ws fun node ws' => Spells ws xs (fun tables => node.marks tables) ws')
    (hrest : ∀ ws', ws.Grows ws' → Does rest ws' fun nodes ws'' =>
      Spells ws' ys (fun tables => Node.marksAll tables nodes) ws'') :
    Does (do
      let node ← first
      let nodes ← rest
      return node :: nodes) ws fun nodes ws' =>
        Spells ws (xs ++ ys) (fun tables => Node.marksAll tables nodes) ws' := by
  refine .bind hfirst ?_
  rintro node ws₁ hgrows₁ hspells₁
  refine .bind (hrest ws₁ hgrows₁) ?_
  rintro nodes ws₂ hgrows₂ hspells₂
  exact .pure (hspells₁.append hspells₂ hgrows₂)

mutual

/-- Where a list has to stand, it is written as it was read. -/
theorem form_spells {place : Place} {ws : Workspace} (datum : Datum) (h : datum.Proper)
    (sound : ws.toTables.Sound) (hplace : PlaceSound place ws) :
    Does (form place datum) ws fun node ws' =>
      Spells ws datum.faces (fun tables => node.marks tables) ws' := by
  match datum, h with
  | .atom token, _ => exact .refuse
  | .list opening items closing, h =>
    exact closed_spells h (list_spells opening items closing h.inner sound hplace)
      (list_accepts opening items closing h.inner sound hplace)

theorem item_spells {place : Place} {ws : Workspace} (datum : Datum) (h : datum.Proper)
    (sound : ws.toTables.Sound) (hplace : PlaceSound place ws) :
    Does (item place datum) ws fun node ws' =>
      Spells ws datum.faces (fun tables => node.marks tables) ws' := by
  match datum, h with
  | .atom token, .atom lexical => exact atomNode_spells lexical sound
  | .list opening items closing, h =>
    exact closed_spells h (list_spells opening items closing h.inner sound hplace)
      (list_accepts opening items closing h.inner sound hplace)

theorem list_spells {place : Place} {ws : Workspace} (opening : Token) (items : List Datum)
    (closing : Token) (h : ∀ datum ∈ items, datum.Proper) (sound : ws.toTables.Sound)
    (hplace : PlaceSound place ws) : Does (list place opening items closing) ws fun node ws' =>
      Spells ws (framed (Datum.facesAll items)) (fun tables => node.marks tables) ws' := by
  match items with
  | [] =>
    unfold list
    dsimp only
    split
    · exact .pure ((Spells.nil rfl).bracket (.refl ws))
    · exact .refuse
  | .list opening' inner closing' :: rest =>
    unfold list
    have sound' := opened_sound sound
    have hplace' := opened_placeSound hplace
    rw [Datum.facesAll_cons]
    have hforms := cons_spells
      (form_spells (.list opening' inner closing') (h _ (by simp)) sound' hplace')
      fun ws₁ hgrows₁ => statements_spells rest closing (proper_rest h) (hgrows₁.sound sound')
        (hplace'.mono hgrows₁)
    refine .bind (withScope_spells _ hforms) ?_
    rintro body ws₁ hgrows hspells
    exact .pure (hspells.bracket hgrows)
  | .atom head :: rest =>
    have hrest := proper_rest h
    have hlexical : head.Lexical := (h (.atom head) (by simp)).lexical
    rw [Datum.facesAll_cons, Datum.faces_atom, List.singleton_append]
    unfold list
    dsimp only [Datum.atom?]
    split
    · rename_i hkind
      split
      · exact .refuse
      · rename_i op hop
        refine .bind (operands_spells rest closing hrest sound hplace) ?_
        rintro nodes ws₁ hgrows hspells
        rw [Token.face_eq hkind]
        exact binaryNode_spells hop hspells hgrows
    · rename_i hkind
      exact applyNode_spells hkind sound fun ws' hgrows => operands_spells rest closing hrest
        (hgrows.sound sound) (hplace.mono hgrows)
    · rename_i hkind
      -- a cast is written with the name of its type in front
      refine .bind ((builtinType_does sound).and (builtinType_spells hkind)) ?_
      rintro target ws' - ⟨⟨-, rfl⟩, htarget⟩
      refine .bind (operands_spells rest closing hrest sound hplace) ?_
      rintro nodes ws₁ hgrows hspells
      exact castNode_spells htarget hspells hgrows
    · rename_i hkind
      split
      · exact .refuse
      all_goals
        rename_i hselected
        rw [face_keyword hkind hselected]
      · exact variableDecl_spells hrest sound hplace
      · exact definitionDecl_spells hrest sound
      · exact externalDecl_spells hrest sound
      · exact functionForm_spells _ rest closing hrest sound
      · exact conditionalForm_spells _ rest closing hrest sound hplace
      · -- a second branch by itself is a finding
        refine .report_bind ?_
        rintro ws₁ hgrows₁ - hloud
        refine .bind (withScope_read place (statements_does rest closing
          (opened_sound (hgrows₁.sound sound)) (opened_placeSound (hplace.mono hgrows₁)))) ?_
        rintro body ws₂ hgrows₂ -
        exact .pure (.loud fun hquiet => hloud (hgrows₂.quiet hquiet))
      · exact whileForm_spells _ rest closing hrest sound hplace
      · -- the scope of a loop holds its variable, so it is part of what is written
        refine (withScope_does (forForm_spells _ rest closing hrest (opened_sound sound)
          (opened_placeSound hplace)).with_grows).imp ?_
        rintro node _ hgrows ⟨inner, ⟨⟨init, cond, step, body, rfl, hspells⟩, hinner⟩, rfl⟩
        exact ((hspells.region hinner.toKept).cons .keyword "for" hgrows).bracket hgrows
      · exact returnForm_spells _ rest closing hrest sound hplace
    · exact .refuse

theorem functionForm_spells {place : Place} {ws : Workspace} (loc : Location) (items : List Datum)
    (closing : Token) (h : ∀ datum ∈ items, datum.Proper) (sound : ws.toTables.Sound) :
    Does (functionForm place loc items closing) ws fun node ws' =>
      Spells ws (framed ((.keyword, "defun") :: Datum.facesAll items))
        (fun tables => node.marks tables) ws' := by
  match items with
  | [] => exact .refuse
  | nameDatum :: afterName =>
    have hrest := proper_rest h
    unfold functionForm
    refine .bind expectAtom_token ?_
    rintro name ws' - ⟨rfl, rfl, hname⟩
    refine .bind checkFunctionPlace_does ?_
    rintro _ ws₀ hgrows₀ ⟨hsymbols₀, -⟩
    refine .bind (declareFunction_does (hgrows₀.sound sound)) ?_
    rintro id? ws₁ hgrows₁ hdeclared
    have sound₁ := opened_sound (hgrows₁.sound (hgrows₀.sound sound))
    have hbody := opened_placeSound hdeclared.placeSound
    refine .bind (withScope_does (Does.with_grows (?inside : Does _ (opened ws₁)
      fun (ids, body) ws' => ∀ f, id? = some f →
        ws₁.symbols.entries[f.index]? = some (.placeholder name.text .function) →
        Spells (opened ws₁) (Datum.facesAll afterName)
          (fun tables => tables.signature f ids ++ Node.marksAll tables body) ws'))) ?around
    case inside =>
      match afterName with
      | [] => exact .refuse
      | [paramsDatum] =>
        refine .bind (params_does sound₁) ?_
        rintro bound ws₂ hgrows₂ ⟨hbound, -⟩
        refine .bind (declareParams_does loc (hgrows₂.sound sound₁) (hbody.mono hgrows₂) hbound) ?_
        rintro ids ws₃ - -
        exact .refuse
      | paramsDatum :: typeDatum :: bodyData =>
        rw [Datum.facesAll_cons, Datum.facesAll_cons]
        refine signature_spells (hrest paramsDatum (by simp)) (hrest typeDatum (by simp)) sound₁
          hbody hdeclared.hasFunction ?_
        intro ws' hgrows
        exact statements_spells bodyData closing (proper_rest (proper_rest hrest))
          (hgrows.sound sound₁) (hbody.mono hgrows)
    case around =>
      rintro ⟨ids, body⟩ _ hgrows₂ ⟨inner, ⟨hspells, hgrowsInner⟩, rfl⟩
      refine .pure fun hquiet hlabelled => ?_
      have hquiet₁ : ws₁.Quiet := hgrows₂.quiet hquiet
      obtain ⟨f, rfl, hplaceholder, hdeclare⟩ := hdeclared.spells hquiet₁
        (by simp [Symbol.placeholder])
      have hregion := (hspells f rfl hplaceholder).region hgrowsInner.toKept
      have hgrows := (hgrows₀.trans hgrows₁).trans hgrows₂
      -- the name is declared around the scope of the parameters
      have hname' := (Spells.types hgrows₀ hsymbols₀).append hdeclare hgrows₁
      have hall := (((hname'.append hregion hgrows₂).cons .ident name.text hgrows).cons .keyword
        "defun" hgrows).bracket hgrows
      simp only [List.nil_append] at hall
      rw [Datum.facesAll_cons, Datum.faces_atom, Token.face_eq hname]
      refine hall.congr (fun _ _ tables hafter => ?_) hquiet hlabelled
      have hkeeps : (rescoped inner ws₁).toTables.Keeps ws₁.toTables := by
        have w₁ := hname' hquiet₁ hlabelled
        exact (hregion hquiet w₁.labelled).keeps
      have hnameOf : tables.symbols.nameOf f = name.text :=
        (hafter.keeps.trans hkeeps).nameOf_eq hplaceholder
      simp [Node.marks, SymbolTable.introduce, SymbolTable.declaration, hnameOf, keyword,
        Symbol.placeholder]

theorem conditionalForm_spells {place : Place} {ws : Workspace} (loc : Location)
    (items : List Datum) (closing : Token) (h : ∀ datum ∈ items, datum.Proper)
    (sound : ws.toTables.Sound) (hplace : PlaceSound place ws) :
    Does (conditionalForm place loc items closing) ws fun node ws' =>
      Spells ws (framed ((.keyword, "if") :: Datum.facesAll items))
        (fun tables => node.marks tables) ws' := by
  match items with
  | [] => exact .refuse
  | condDatum :: branches =>
    unfold conditionalForm
    refine .bind (item_spells condDatum (h condDatum (by simp)) sound hplace) ?_
    rintro cond ws₁ hgrows₁ hspells₁
    have sound₁ := hgrows₁.sound sound
    have hplace₁ := hplace.mono hgrows₁
    refine .bind (withScope_spells _ (branch_spells branches closing (proper_rest h)
      (opened_sound sound₁) (opened_placeSound hplace₁))) ?_
    rintro thenBody ws₂ hgrows₂ hspells₂
    refine .bind (alternative?_spells branches closing (proper_rest h) (hgrows₂.sound sound₁)
      (hplace₁.mono hgrows₂)) ?_
    rintro elseBody? ws₃ hgrows₃ hspells₃
    have hgrows₁₃ := hgrows₂.trans hgrows₃
    have hgrows := hgrows₁.trans hgrows₁₃
    have hall := ((hspells₁.append (hspells₂.append hspells₃ hgrows₃) hgrows₁₃).cons .keyword "if"
      hgrows).bracket hgrows
    -- the first branch was read up to where the second one was found
    rw [← Datum.facesAll_append, List.takeWhile_append_dropWhile] at hall
    rw [Datum.facesAll_cons]
    cases elseBody? with
    | none =>
      refine .pure (hall.congr fun _ _ tables _ => ?_)
      simp [Node.marks, keyword]
    | some elseBody => exact .pure hall

theorem whileForm_spells {place : Place} {ws : Workspace} (loc : Location) (items : List Datum)
    (closing : Token) (h : ∀ datum ∈ items, datum.Proper) (sound : ws.toTables.Sound)
    (hplace : PlaceSound place ws) :
    Does (whileForm place loc items closing) ws fun node ws' =>
      Spells ws (framed ((.keyword, "while") :: Datum.facesAll items))
        (fun tables => node.marks tables) ws' := by
  match items with
  | [] => exact .refuse
  | condDatum :: bodyData =>
    unfold whileForm
    refine .bind (item_spells condDatum (h condDatum (by simp)) sound hplace) ?_
    rintro cond ws₁ hgrows₁ hspells₁
    refine .bind (withScope_spells _ (statements_spells bodyData closing (proper_rest h)
      (opened_sound (hgrows₁.sound sound)) (opened_placeSound (hplace.mono hgrows₁)))) ?_
    rintro body ws₂ hgrows₂ hspells₂
    have hgrows := hgrows₁.trans hgrows₂
    rw [Datum.facesAll_cons]
    exact .pure (((hspells₁.append hspells₂ hgrows₂).cons .keyword "while" hgrows).bracket hgrows)

theorem forForm_spells {place : Place} {ws : Workspace} (loc : Location) (items : List Datum)
    (closing : Token) (h : ∀ datum ∈ items, datum.Proper) (sound : ws.toTables.Sound)
    (hplace : PlaceSound place ws) :
    Does (forForm place loc items closing) ws fun node ws' => ∃ init cond step body,
      node = .forLoop loc init cond step body ∧
      Spells ws (Datum.facesAll items) (fun tables => init.marks tables ++ (cond.marks tables ++
        (step.marks tables ++ Node.marksAll tables body))) ws' := by
  match items with
  | [] => exact .refuse
  | [initDatum] =>
    unfold forForm
    refine .bind (item_does initDatum sound hplace) ?_
    rintro init ws₁ - -
    exact .refuse
  | [initDatum, condDatum] =>
    unfold forForm
    refine .bind (item_does initDatum sound hplace) ?_
    rintro init ws₁ hgrows₁ -
    refine .bind (item_does condDatum (hgrows₁.sound sound) (hplace.mono hgrows₁)) ?_
    rintro cond ws₂ - -
    exact .refuse
  | initDatum :: condDatum :: stepDatum :: bodyData =>
    unfold forForm
    refine .bind (item_spells initDatum (h initDatum (by simp)) sound hplace) ?_
    rintro init ws₁ hgrows₁ hspells₁
    have sound₁ := hgrows₁.sound sound
    have hplace₁ := hplace.mono hgrows₁
    refine .bind (item_spells condDatum (h condDatum (by simp)) sound₁ hplace₁) ?_
    rintro cond ws₂ hgrows₂ hspells₂
    have sound₂ := hgrows₂.sound sound₁
    have hplace₂ := hplace₁.mono hgrows₂
    refine .bind (item_spells stepDatum (h stepDatum (by simp)) sound₂ hplace₂) ?_
    rintro step ws₃ hgrows₃ hspells₃
    refine .bind (statements_spells bodyData closing (proper_rest (proper_rest (proper_rest h)))
      (hgrows₃.sound sound₂) (hplace₂.mono hgrows₃)) ?_
    rintro body ws₄ hgrows₄ hspells₄
    refine .pure ⟨init, cond, step, body, rfl, ?_⟩
    have hgrows₂₄ := hgrows₃.trans hgrows₄
    rw [Datum.facesAll_cons, Datum.facesAll_cons, Datum.facesAll_cons]
    exact hspells₁.append (hspells₂.append (hspells₃.append hspells₄ hgrows₄) hgrows₂₄)
      (hgrows₂.trans hgrows₂₄)

theorem returnForm_spells {place : Place} {ws : Workspace} (loc : Location) (items : List Datum)
    (closing : Token) (h : ∀ datum ∈ items, datum.Proper) (sound : ws.toTables.Sound)
    (hplace : PlaceSound place ws) :
    Does (returnForm place loc items closing) ws fun node ws' =>
      Spells ws (framed ((.keyword, "return") :: Datum.facesAll items))
        (fun tables => node.marks tables) ws' := by
  match items with
  | [] =>
    unfold returnForm
    split
    · exact returnNode_spells (.nil rfl) (.refl ws) hplace
    · exact .refuse
  | valueDatum :: rest =>
    unfold returnForm
    refine .bind (item_spells valueDatum (h valueDatum (by simp)) sound hplace) ?_
    rintro value ws₁ hgrows₁ hspells
    have hvalue : Spells ws valueDatum.faces
        (fun tables => Node.marksAll tables (some value).toList) ws₁ := by
      simpa [Node.marksAll] using hspells
    refine .bind (returnNode_spells hvalue hgrows₁ (hplace.mono hgrows₁)) ?_
    rintro node ws₂ - hspells₂
    refine .bind expectEnd_end ?_
    rintro _ ws₃ - ⟨rfl, rfl⟩
    rw [Datum.facesAll_cons, Datum.facesAll_nil, List.append_nil]
    exact .pure hspells₂

theorem statements_spells {place : Place} {ws : Workspace} (items : List Datum) (closing : Token)
    (h : ∀ datum ∈ items, datum.Proper) (sound : ws.toTables.Sound)
    (hplace : PlaceSound place ws) : Does (statements place items closing) ws fun nodes ws' =>
      Spells ws (Datum.facesAll items) (fun tables => Node.marksAll tables nodes) ws' := by
  match items with
  | [] =>
    unfold statements
    split
    · exact .pure (.nil rfl)
    · exact .refuse
  | datum :: rest =>
    unfold statements
    rw [Datum.facesAll_cons]
    refine cons_spells (form_spells datum (h datum (by simp)) sound hplace) ?_
    intro ws₁ hgrows₁
    exact statements_spells rest closing (proper_rest h) (hgrows₁.sound sound)
      (hplace.mono hgrows₁)

theorem operands_spells {place : Place} {ws : Workspace} (items : List Datum) (closing : Token)
    (h : ∀ datum ∈ items, datum.Proper) (sound : ws.toTables.Sound)
    (hplace : PlaceSound place ws) : Does (operands place items closing) ws fun nodes ws' =>
      Spells ws (Datum.facesAll items) (fun tables => Node.marksAll tables nodes) ws' := by
  match items with
  | [] =>
    unfold operands
    split
    · exact .pure (.nil rfl)
    · exact .refuse
  | datum :: rest =>
    unfold operands
    rw [Datum.facesAll_cons]
    refine cons_spells (item_spells datum (h datum (by simp)) sound hplace) ?_
    intro ws₁ hgrows₁
    exact operands_spells rest closing (proper_rest h) (hgrows₁.sound sound)
      (hplace.mono hgrows₁)

theorem branch_spells {place : Place} {ws : Workspace} (items : List Datum) (closing : Token)
    (h : ∀ datum ∈ items, datum.Proper) (sound : ws.toTables.Sound)
    (hplace : PlaceSound place ws) : Does (branch place items closing) ws fun nodes ws' =>
      Spells ws (Datum.facesAll (items.takeWhile (!isAlternative ·)))
        (fun tables => Node.marksAll tables nodes) ws' := by
  match items with
  | [] =>
    unfold branch
    split
    · exact .pure (.nil rfl)
    · exact .refuse
  | datum :: rest =>
    unfold branch
    split
    · rename_i halternative
      rw [List.takeWhile_cons_of_neg (by simp [halternative])]
      exact .pure (.nil rfl)
    · rename_i halternative
      rw [List.takeWhile_cons_of_pos (by simpa using halternative), Datum.facesAll_cons]
      refine cons_spells (form_spells datum (h datum (by simp)) sound hplace) ?_
      intro ws₁ hgrows₁
      exact branch_spells rest closing (proper_rest h) (hgrows₁.sound sound)
        (hplace.mono hgrows₁)

theorem alternative?_spells {place : Place} {ws : Workspace} (items : List Datum) (closing : Token)
    (h : ∀ datum ∈ items, datum.Proper) (sound : ws.toTables.Sound)
    (hplace : PlaceSound place ws) : Does (alternative? place items closing) ws fun body? ws' =>
      Spells ws (Datum.facesAll (items.dropWhile (!isAlternative ·))) (fun tables =>
        body?.elim [] fun body =>
          Mark.bracket (keyword "else" :: Mark.region (Node.marksAll tables body))) ws' := by
  match items with
  | [] =>
    unfold alternative?
    exact .pure (.nil rfl)
  | .atom token :: rest =>
    unfold alternative?
    exact alternative?_spells rest closing (proper_rest h) sound hplace
  | .list opening [] innerClosing :: rest =>
    unfold alternative?
    exact alternative?_spells rest closing (proper_rest h) sound hplace
  | .list opening (.list .. :: bodyData) innerClosing :: rest =>
    unfold alternative?
    exact alternative?_spells rest closing (proper_rest h) sound hplace
  | .list opening (.atom head :: bodyData) innerClosing :: rest =>
    unfold alternative?
    split
    · rename_i helse
      have hproper := h _ (List.mem_cons_self ..)
      have inner := proper_rest hproper.inner
      -- the second branch, which closes the construct
      have halternative :
          isAlternative (.list opening (.atom head :: bodyData) innerClosing) = true := helse
      have hstatements := statements_spells bodyData innerClosing inner (opened_sound sound)
        (opened_placeSound hplace)
      have haccepts := withScope_accepts (statements_accepts bodyData innerClosing inner
        (opened_sound sound) (opened_placeSound hplace)) hstatements
      refine .bind ((withScope_spells _ hstatements).with_accepts haccepts) ?_
      rintro body ws₁ hgrows₁ ⟨hspells, -, hclosing⟩
      refine .bind expectEnd_end ?_
      rintro _ ws₂ - ⟨rfl, rfl⟩
      rw [List.dropWhile_cons_of_neg (by simp [halternative]), Datum.facesAll_cons,
        Datum.facesAll_nil, List.append_nil, hproper.faces_list hclosing, Datum.facesAll_cons,
        Datum.faces_atom]
      obtain ⟨hkind, htext⟩ := Token.is_iff.mp helse
      rw [Token.face_eq hkind, htext]
      exact .pure ((hspells.cons .keyword "else" hgrows₁).bracket hgrows₁)
    · rename_i helse
      -- another list belongs to the first branch, and is read there
      have hother : isAlternative (.list opening (.atom head :: bodyData) innerClosing) = false := by
        simpa [isAlternative] using helse
      rw [List.dropWhile_cons_of_pos (by simp [hother])]
      exact alternative?_spells rest closing (proper_rest h) sound hplace

end

/-! ## Programs -/

lemma topForms_spells {items : List Datum} (h : ∀ datum ∈ items, datum.Proper)
    (sound : ws.toTables.Sound) : Does (topForms items) ws fun nodes ws' =>
      Spells ws (Datum.facesAll items) (fun tables => Node.marksAll tables nodes) ws' := by
  induction items generalizing ws with
  | nil => exact .pure (.nil rfl)
  | cons datum rest ih =>
    rw [Datum.facesAll_cons]
    refine cons_spells (form_spells datum (h datum (by simp)) sound trivial) ?_
    intro ws₁ hgrows₁
    exact ih (proper_rest h) (hgrows₁.sound sound)

/-- A program is written as it was read. -/
theorem program_spells {body : List Token} (h : ∀ token ∈ body, token.Lexical ∧ token.kind ≠ .eof)
    (loc : Location) (sound : ws.toTables.Sound) (hglobal : ws.symbols.enclosing = []) :
    Does (program (body ++ [Token.eof loc])) ws fun program ws' =>
      Spells ws (body.map Token.face) (fun tables => program.marks tables) ws' := by
  have hproper := Nesting.ofTokens_proper (show (Token.eof loc).Lexical from rfl)
    (fun token htoken => (h token htoken).1) _ (List.mem_cons_self ..)
  have htokens := Nesting.tokensAll_of_closing (show (Token.eof loc).kind = .eof from rfl)
    fun token htoken => (h token htoken).2
  unfold program
  rw [Remainder.ofStream_eq fun token htoken => (h token htoken).2]
  generalize (Nesting.ofTokens (Token.eof loc) body).inner = top at hproper htokens
  refine .bind ((topForms_does _ sound).and (topForms_spells hproper.2 sound)) ?_
  rintro items ws₁ hgrows₁ ⟨hread, hspells⟩
  split
  · exact .bind .refuse fun _ _ _ h => h
  · rename_i hclosing
    -- what follows the last list leaves the tables alone
    obtain ⟨loc?, hloc⟩ := entryPoint?_ok fun node hnode =>
      hread.valid node (Node.mem_checkOrderAll.mpr ⟨node, hnode, Node.self_mem_checkOrder node⟩)
    have hall : Datum.facesAll top.items = body.map Token.face := by
      rw [Datum.facesAll, htokens (not_not.mp hclosing)]
    have hfinish : ∀ ws₂, ws₁.Grows ws₂ → ws₂.toTables = ws₁.toTables → Does (do
        let ws ← get
        if ws.symbols.depth ≠ 1 then throw (.defect .unbalancedScopes)
        log (.parsed items.length ws.symbols.size ws.types.size)
        return (⟨items⟩ : Program)) ws₂ fun program ws' =>
          Spells ws (body.map Token.face) (fun tables => program.marks tables) ws' := by
      intro ws₂ hgrows₂ htables
      refine .get ?_
      have hdepth : ¬ ws₂.symbols.depth ≠ 1 := by
        simp [SymbolTable.depth, SymbolTable.scopes, congrArg Tables.symbols htables,
          hgrows₁.enclosing, hglobal]
      rw [if_neg hdepth]
      refine .bind log_does ?_
      rintro _ ws₃ hgrows₃ ⟨htables₃, -⟩
      have := hspells.append (.nil (htables₃.trans htables)) (hgrows₂.trans hgrows₃)
      simp only [List.append_nil, hall] at this
      exact .pure this
    refine .get (.promised_bind hloc ?_)
    split
    · split
      · refine .report_bind ?_
        rintro ws₂ hgrows₂ htables -
        exact hfinish ws₂ hgrows₂ htables
      · exact hfinish ws₁ (.refl ws₁) rfl
    · exact hfinish ws₁ (.refl ws₁) rfl

end Reading

open CompileM Reading Mark

/-- The text is cut into these tokens and read as this program, which leaves this workspace
behind, and nothing is found wrong. -/
def ReadQuietly (file source : String) (tokens : List Token) (program : Program)
    (ws : Workspace) : Prop :=
  ∃ ws₀, tokenize source (.initial file) = .ok tokens ws₀ ∧
    Reading.program tokens ws₀ = .ok program ws ∧ ws.Quiet

/-- The tokens before the end marker, without their places. -/
def textFaces (tokens : List Token) : List Face :=
  (tokens.takeWhile (·.kind != .eof)).map Token.face

lemma ReadQuietly.of_verdict {file source : String} (h : verdict file source = some true) :
    ∃ tokens program ws, ReadQuietly file source tokens program ws := by
  obtain ⟨tokens, ws₀, program, ws, htokens, hprogram, hquiet⟩ := runs_of_verdict h
  exact ⟨tokens, program, ws, ws₀, htokens, hprogram, hquiet.mpr rfl⟩

/-- What was read leads from the empty tables to those of the program. -/
lemma ReadQuietly.writes {file source : String} {tokens : List Token} {program : Program}
    {ws : Workspace} (h : ReadQuietly file source tokens program ws) : ∃ ws₀ : Workspace,
      ws₀.toTables = {} ∧ ws₀.Grows ws ∧ Read .topLevel ws₀ program.items ws ∧
      Writes ws₀ (textFaces tokens) (fun tables => program.marks tables) ws := by
  obtain ⟨ws₀, htokens, hprogram, hquiet⟩ := h
  obtain ⟨body, loc, rfl, htables, -, hbody⟩ := tokenize_eq_ok htokens
  have hinitial : ws₀.toTables = {} := htables
  have sound : ws₀.toTables.Sound := hinitial ▸ Tables.sound_initial
  have hglobal : ws₀.symbols.enclosing = [] := congrArg (·.symbols.enclosing) hinitial
  have hlabelled : ws₀.toTables.Labelled := hinitial ▸ Tables.labelled_initial
  obtain ⟨hgrows, hspells⟩ := (program_spells hbody loc sound hglobal).run hprogram
  refine ⟨ws₀, hinitial, hgrows, ((program_does _ sound hglobal).run hprogram).2, ?_⟩
  rw [textFaces, takeWhile_body fun token htoken => (hbody token htoken).2]
  exact hspells hquiet hlabelled

/-- The tables of a program come after everything that was read. -/
lemma ReadQuietly.after {file source : String} {tokens : List Token} {program : Program}
    {ws : Workspace} (h : ReadQuietly file source tokens program ws) : After ws.toTables ws := by
  obtain ⟨ws₀, hinitial, hgrows, -⟩ := h.writes
  exact ⟨(hgrows.sound (hinitial ▸ Tables.sound_initial)).types, .refl _⟩

/-- Reading loses nothing: the tree and the tables of a program that was read without findings
give its tokens back.  Places in the text do not matter for that, so that programs with the same
tree and the same tables have the same tokens. -/
theorem unparse_of_readQuietly {file source : String} {tokens : List Token} {program : Program}
    {ws : Workspace} (h : ReadQuietly file source tokens program ws) :
    program.unparse ws.toTables = textFaces tokens ∧
    (∀ other : Program, other.unlocated = program.unlocated →
      other.unparse ws.toTables = program.unparse ws.toTables) ∧
    ∀ {file' source' : String} {tokens' : List Token} {program' : Program} {ws' : Workspace},
      ReadQuietly file' source' tokens' program' ws' →
      program'.unlocated = program.unlocated → ws'.toTables = ws.toTables →
        textFaces tokens' = textFaces tokens := by
  have hunparse : ∀ {file source : String} {tokens : List Token} {program : Program}
      {ws : Workspace}, ReadQuietly file source tokens program ws →
        program.unparse ws.toTables = textFaces tokens := by
    intro file source tokens program ws h
    obtain ⟨ws₀, -, -, -, hwrites⟩ := h.writes
    exact hwrites.faces_eq h.after
  have hplaces : ∀ other : Program, other.unlocated = program.unlocated →
      other.unparse ws.toTables = program.unparse ws.toTables := by
    intro other hsame
    rw [← other.unparse_unlocated, hsame, program.unparse_unlocated]
  refine ⟨hunparse h, hplaces, ?_⟩
  intro file' source' tokens' program' ws' h' hsame htables
  rw [← hunparse h', htables, hplaces program' hsame, hunparse h]

/-- A program with structs, definitions, signatures, literals and both branches of a condition. -/
theorem unparse_of_readQuietly_constructs : ∃ tokens program ws,
    ReadQuietly "constructs" ("(typedef t (struct a: u64 b: (struct))) (exfun g) " ++
      "(defun f (p: t n: s64) bool (if (== n -1) (let t q) (else (return (g 7u)))) " ++
      "(for (let s64 i) true () ((bool i))) (return false))") tokens program ws ∧
    program.unparse ws.toTables = textFaces tokens := by
  have hverdict : verdict "constructs" ("(typedef t (struct a: u64 b: (struct))) (exfun g) " ++
      "(defun f (p: t n: s64) bool (if (== n -1) (let t q) (else (return (g 7u)))) " ++
      "(for (let s64 i) true () ((bool i))) (return false))") = some true := by
    decide +kernel
  obtain ⟨tokens, program, ws, h⟩ := ReadQuietly.of_verdict hverdict
  exact ⟨tokens, program, ws, h, (unparse_of_readQuietly h).1⟩

end ParenC
