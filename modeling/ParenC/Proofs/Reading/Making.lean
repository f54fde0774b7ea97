/-
The nodes that reading makes, whatever is found wrong on the way.

`Made` relates the workspaces before and after some nodes were read.  The symbols that the nodes
introduce came up in between, one after the other in the order of the text; for every node that
lacks its symbol there is a finding; a body holds no mention of a variable by itself, because only
lists can be statements; and the parameters of a function have the types that its signature gives.

The relation is shown for all functions that read a construct, in the judgement `Records`, by one
induction that follows their recursion.  So it comes with a history of the run, and with the names
that the run declares.
-/
import Mathlib.Data.List.Flatten
import ParenC.Proofs.Reading.Records

namespace ParenC

namespace Node

/-! ## What a node introduces -/

/-- The symbols that the node itself introduces, in the order of the text. -/
def introduced : Node → List SymbolId
  | varDecl _ symbol? | externDecl _ symbol? | typedefDecl _ symbol? => symbol?.toList
  | functionDef _ symbol? params _ => symbol?.toList ++ params
  | _ => []

/-- The symbols that nodes and everything below them introduce, in the order of the text. -/
def introducedAll (nodes : List Node) : List SymbolId := (checkOrderAll nodes).flatMap introduced

/-- Whether the node declares or mentions a name and has no symbol for it. -/
def isNameless : Node → Bool
  | varDecl _ none | varRef _ none | externDecl _ none | functionDef _ none _ _ | call _ none _
  | typedefDecl _ none => true
  | _ => false

/-- The number of nodes, at any depth, that have no symbol where they need one. -/
def namelessCount (nodes : List Node) : Nat := (checkOrderAll nodes).countP isNameless

/-- Whether the node mentions a variable. -/
def isMention : Node → Bool
  | varRef .. => true
  | _ => false

/-- The statements directly inside a node. -/
def body : Node → List Node
  | block _ body | functionDef _ _ _ body | ifThen _ _ body | whileLoop _ _ body
  | forLoop _ _ _ _ body => body
  | ifElse _ _ thenBody elseBody => thenBody ++ elseBody
  | _ => []

@[simp] lemma introducedAll_nil : introducedAll [] = [] := rfl

@[simp] lemma introducedAll_append (xs ys : List Node) :
    introducedAll (xs ++ ys) = introducedAll xs ++ introducedAll ys := by
  simp [introducedAll]

/-- What a node introduces itself comes before what its parts introduce. -/
lemma introducedAll_singleton (node : Node) :
    introducedAll [node] = node.introduced ++ introducedAll node.parts := by
  cases node <;> simp [introducedAll, checkOrderAll, checkOrder, introduced, parts]

@[simp] lemma namelessCount_nil : namelessCount [] = 0 := rfl

@[simp] lemma namelessCount_append (xs ys : List Node) :
    namelessCount (xs ++ ys) = namelessCount xs + namelessCount ys := by
  simp [namelessCount]

lemma namelessCount_singleton (node : Node) :
    namelessCount [node] = (if node.isNameless then 1 else 0) + namelessCount node.parts := by
  cases node <;> simp [namelessCount, checkOrderAll, checkOrder, parts, List.countP_cons] <;> omega

lemma checkOrderAll_sublist {xs ys : List Node} (h : xs.Sublist ys) :
    (checkOrderAll xs).Sublist (checkOrderAll ys) := by
  rw [checkOrderAll_eq_flatMap, checkOrderAll_eq_flatMap]
  exact h.flatMap _

/-- Parameters, as if they were declared by nodes. -/
lemma introducedAll_params (loc : Location) (ids : List SymbolId) :
    introducedAll (ids.map fun id => .varDecl loc (some id)) = ids := by
  induction ids with
  | nil => rfl
  | cons id ids ih =>
    simp only [introducedAll, checkOrderAll_eq_flatMap] at ih
    simp [introducedAll, checkOrderAll_eq_flatMap, checkOrder, introduced, ih]

lemma namelessCount_params (loc : Location) (ids : List SymbolId) :
    namelessCount (ids.map fun id => .varDecl loc (some id)) = 0 := by
  induction ids with
  | nil => rfl
  | cons id ids ih =>
    simp only [namelessCount, checkOrderAll_eq_flatMap] at ih
    simp [namelessCount, checkOrderAll_eq_flatMap, checkOrder, isNameless, ih]

end Node

/-- The function `f` has a signature, and each of the variables has the type of one of its
parameters. -/
def SymbolTable.Takes (symbols : SymbolTable) (f : SymbolId) (params : List SymbolId) : Prop :=
  ∃ function signature prototyped external, symbols.entries[f.index]? = some function ∧
    function.kind = .function signature prototyped external ∧ function.type? ≠ none ∧
    ∀ id ∈ params, ∃ param ∈ signature, ∃ symbol, symbols.entries[id.index]? = some symbol ∧
      symbol.type? = some param.type

lemma SymbolTable.Takes.mono {tables tables' : Tables} {f : SymbolId} {params : List SymbolId}
    (h : tables.symbols.Takes f params) (hkeeps : tables'.Keeps tables) :
    tables'.symbols.Takes f params := by
  obtain ⟨function, signature, prototyped, external, hget, hkind, htyped, hparams⟩ := h
  refine ⟨function, signature, prototyped, external, hkeeps.entry hget htyped, hkind, htyped, ?_⟩
  intro id hid
  obtain ⟨param, hparam, symbol, hsymbol, htype⟩ := hparams id hid
  exact ⟨param, hparam, symbol, hkeeps.entry hsymbol (by simp [htype]), htype⟩

namespace Reading

open CompileM Workspace Node

variable {place : Place} {ws ws₁ ws₂ ws' : Workspace} {nodes xs ys : List Node} {node : Node}

/-! ## The relation -/

/-- What holds of nodes that were read, whatever was found wrong. -/
structure Made (ws : Workspace) (nodes : List Node) (ws' : Workspace) : Prop where
  /-- Symbols are introduced one after the other. -/
  ordered : (introducedAll nodes).Pairwise fun a b => a.index < b.index
  /-- They came up meanwhile. -/
  range : ∀ id ∈ introducedAll nodes, ws.symbols.size ≤ id.index ∧ id.index < ws'.symbols.size
  /-- There is a finding for every node that lacks its symbol. -/
  nameless : ws.journal.diagnostics.size + namelessCount nodes ≤ ws'.journal.diagnostics.size
  /-- No statement of a body is the mention of a variable. -/
  bodies : ∀ node ∈ checkOrderAll nodes, ∀ part ∈ node.body, part.isMention = false
  /-- Parameters have the types of the signature. -/
  signatures : ∀ {loc f params body}, functionDef loc (some f) params body ∈ checkOrderAll nodes →
    ws'.symbols.Takes f params

namespace Made

lemma nil (h : Leads ws ws') : Made ws [] ws' where
  ordered := by simp
  range := by simp
  nameless := h.diagnostics_le
  bodies := by simp [checkOrderAll]
  signatures := by simp [checkOrderAll]

/-- Reading on. -/
lemma append (h₁ : Made ws xs ws₁) (h₂ : Made ws₁ ys ws₂) (hleads₁ : Leads ws ws₁)
    (hleads₂ : Leads ws₁ ws₂) : Made ws (xs ++ ys) ws₂ where
  ordered := by
    rw [introducedAll_append, List.pairwise_append]
    -- what is read later gets later numbers
    refine ⟨h₁.ordered, h₂.ordered, fun a ha b hb => ?_⟩
    have hlt := (h₁.range a ha).2
    have hle := (h₂.range b hb).1
    omega
  range := by
    intro id hid
    have hsize₁ := hleads₁.symbols.size_le
    have hsize₂ := hleads₂.symbols.size_le
    rw [introducedAll_append, List.mem_append] at hid
    rcases hid with hid | hid
    · have := h₁.range id hid
      omega
    · have := h₂.range id hid
      omega
  nameless := by
    have hfirst := h₁.nameless
    have hsecond := h₂.nameless
    rw [namelessCount_append]
    omega
  bodies := by
    intro node hnode
    rw [checkOrderAll_append, List.mem_append] at hnode
    rcases hnode with hnode | hnode
    · exact h₁.bodies node hnode
    · exact h₂.bodies node hnode
  signatures := by
    intro loc f params body hnode
    rw [checkOrderAll_append, List.mem_append] at hnode
    rcases hnode with hnode | hnode
    · exact (h₁.signatures hnode).mono hleads₂.keeps
    · exact h₂.signatures hnode

/-- A node in front of others. -/
lemma cons (h₁ : Made ws [node] ws₁) (h₂ : Made ws₁ nodes ws₂) (hleads₁ : Leads ws ws₁)
    (hleads₂ : Leads ws₁ ws₂) : Made ws (node :: nodes) ws₂ :=
  h₁.append h₂ hleads₁ hleads₂

/-- Something else happened before. -/
lemma after (h : Made ws₁ nodes ws') (hleads : Leads ws ws₁) (hleads' : Leads ws₁ ws') :
    Made ws nodes ws' :=
  (Made.nil hleads).append h hleads hleads'

/-- Something else happens later. -/
lemma before (h : Made ws nodes ws₁) (hleads : Leads ws ws₁) (hleads' : Leads ws₁ ws') :
    Made ws nodes ws' := by
  have := h.append (Made.nil hleads') hleads hleads'
  rwa [List.append_nil] at this

/-- Some of the nodes are dropped. -/
lemma sublist (h : Made ws nodes ws') (hsub : xs.Sublist nodes) : Made ws xs ws' where
  ordered := h.ordered.sublist ((checkOrderAll_sublist hsub).flatMap _)
  range id hid := h.range id (((checkOrderAll_sublist hsub).flatMap _).subset hid)
  nameless := by
    have hle : namelessCount xs ≤ namelessCount nodes := (checkOrderAll_sublist hsub).countP_le
    have := h.nameless
    omega
  bodies node hnode := h.bodies node ((checkOrderAll_sublist hsub).subset hnode)
  signatures hnode := h.signatures ((checkOrderAll_sublist hsub).subset hnode)

/-- Putting a construct around its parts that introduces nothing itself.  If it lacks its symbol,
there was a finding before. -/
lemma wrap (h : Made ws₁ node.parts ws') (hleads : Leads ws ws₁)
    (hnameless : ws.journal.diagnostics.size + (if node.isNameless then 1 else 0) ≤
      ws₁.journal.diagnostics.size)
    (hintroduced : node.introduced = [])
    (hbody : ∀ part ∈ node.body, part.isMention = false) : Made ws [node] ws' where
  ordered := by
    rw [introducedAll_singleton, hintroduced]
    exact h.ordered
  range := by
    rw [introducedAll_singleton, hintroduced]
    intro id hid
    have := h.range id hid
    have := hleads.symbols.size_le
    omega
  nameless := by
    have := h.nameless
    rw [namelessCount_singleton]
    omega
  bodies := by
    intro n hn
    rcases mem_checkOrderAll_singleton.mp hn with rfl | hn
    · exact hbody
    · exact h.bodies n hn
  signatures := by
    intro loc f params body hn
    rcases mem_checkOrderAll_singleton.mp hn with rfl | hn
    · simp [introduced] at hintroduced
    · exact h.signatures hn

/-- Putting a construct with a symbol, or without need of one, around its parts. -/
lemma enclose (h : Made ws node.parts ws') (hnamed : node.isNameless = false)
    (hintroduced : node.introduced = [])
    (hbody : ∀ part ∈ node.body, part.isMention = false) : Made ws [node] ws' :=
  h.wrap (.refl ws) (by simp [hnamed]) hintroduced hbody

/-- A node without parts that has all it needs. -/
lemma leaf (hleads : Leads ws ws') (hparts : node.parts = []) (hnamed : node.isNameless = false)
    (hintroduced : node.introduced = []) (hbody : node.body = []) : Made ws [node] ws' :=
  enclose (by rw [hparts]; exact .nil hleads) hnamed hintroduced (by simp [hbody])

/-- Nothing in the place of an operand. -/
lemma pad (h : Made ws nodes ws') (hleads : Leads ws ws') (loc : Location) :
    Made ws (nodes ++ [.empty loc]) ws' :=
  h.append (leaf (.refl ws') rfl rfl rfl rfl) hleads (.refl ws')

/-- A declaration, whose symbol comes before those of the parts. -/
lemma enter {inner : List Node} {symbol : Symbol} {id? : Option SymbolId}
    (h : Made ws₁ inner ws₂) (henters : Enters ws symbol id? ws₁) (hleads₁ : Leads ws ws₁)
    (hleads₂ : Leads ws₁ ws₂)
    (hintroduced : introducedAll [node] = id?.toList ++ introducedAll inner)
    (hcount : namelessCount [node] = (if id?.isNone then 1 else 0) + namelessCount inner)
    (hbelow : ∀ n ∈ checkOrderAll node.parts, n ∈ checkOrderAll inner)
    (hbody : ∀ part ∈ node.body, part.isMention = false)
    (hsignature : ∀ {loc f params body}, node = functionDef loc (some f) params body →
      ws₂.symbols.Takes f params) : Made ws [node] ws₂ := by
  have hsize₁ := hleads₁.symbols.size_le
  have hsize₂ := hleads₂.symbols.size_le
  have hdiagnostics := hleads₁.diagnostics_le
  have hnameless := h.nameless
  refine ⟨?_, ?_, ?_, ?_, ?_⟩
  · -- the number of the symbol is the size of the table at that time, so that later ones follow it
    rw [hintroduced, List.pairwise_append]
    refine ⟨by cases id? <;> simp, h.ordered, fun a ha b hb => ?_⟩
    cases henters with
    | refused => simp at ha
    | added hsymbols =>
      have hle := (h.range b hb).1
      rw [hsymbols, SymbolTable.add_size] at hle
      simp only [Option.toList_some, List.mem_singleton] at ha
      subst ha
      exact hle
  · intro id hid
    rw [hintroduced, List.mem_append] at hid
    rcases hid with hid | hid
    · cases henters with
      | refused => simp at hid
      | added hsymbols =>
        rw [hsymbols, SymbolTable.add_size] at hsize₂
        simp only [Option.toList_some, List.mem_singleton] at hid
        subst hid
        exact ⟨Nat.le_refl _, hsize₂⟩
    · have := h.range id hid
      omega
  · -- a name that could not be declared has left a complaint, which makes up for it
    rw [hcount]
    cases henters with
    | refused htables hlt =>
      simp only [Option.isNone_none, if_true]
      omega
    | added =>
      simp only [Option.isNone_some, Bool.false_eq_true, if_false]
      omega
  · intro n hn
    rcases mem_checkOrderAll_singleton.mp hn with rfl | hn
    · exact hbody
    · exact h.bodies n (hbelow n hn)
  · intro loc f params body hn
    rcases mem_checkOrderAll_singleton.mp hn with heq | hn
    · exact hsignature heq.symm
    · exact h.signatures (hbelow _ hn)

end Made

/-- A scope of its own does not show. -/
lemma Made.scoped (h : Made (opened ws) nodes ws') : Made ws nodes (rescoped ws' ws) :=
  ⟨h.ordered, h.range, h.nameless, h.bodies, h.signatures⟩

/-- What holds of a node that stands where a statement can. -/
def Formed (ws : Workspace) (node : Node) (ws' : Workspace) : Prop :=
  Made ws [node] ws' ∧ node.isMention = false

/-! ## Atoms -/

lemma integerNode_records {token : Token} :
    Records (integerNode token) ws [] fun node ws' => Made ws [node] ws' := by
  unfold integerNode
  split
  · exact .pure (.leaf (.refl ws) rfl rfl rfl rfl)
  · exact .refuse

lemma variableNode_records {token : Token} :
    Records (variableNode place token) ws [] fun node ws' => Made ws [node] ws' := by
  have hunknown : ∀ {ws' : Workspace}, Leads ws ws' →
      ws.journal.diagnostics.size < ws'.journal.diagnostics.size →
      Made ws [.varRef token.location none] ws' := fun hleads hlt =>
    Made.wrap (Made.nil (.refl _)) hleads hlt rfl (by simp [body])
  refine .get ?_
  cases hresolve : ws.symbols.resolve token.text with
  | none =>
    refine .report_bind ?_
    rintro ws' hleads - hlt
    exact .pure (hunknown hleads hlt)
  | some id =>
    refine symbolAt_records.skip ?_
    rintro symbol ws' - ⟨rfl, -⟩
    split
    · split
      · refine .report_bind ?_
        rintro ws'' hleads - -
        exact .pure (.leaf hleads rfl rfl rfl rfl)
      · exact .pure (.leaf (.refl ws') rfl rfl rfl rfl)
    · refine .report_bind ?_
      rintro ws'' hleads - hlt
      exact .pure (hunknown hleads hlt)

lemma atomNode_records {token : Token} :
    Records (atomNode place token) ws [] fun node ws' => Made ws [node] ws' := by
  unfold atomNode
  split
  · exact integerNode_records
  · exact variableNode_records
  · split
    · exact .pure (.leaf (.refl ws) rfl rfl rfl rfl)
    · split
      · exact .pure (.leaf (.refl ws) rfl rfl rfl rfl)
      · exact .refuse
  · exact .refuse

/-! ## What the parts make together -/

lemma Made.first (h : Made ws nodes ws') (hleads : Leads ws ws') (loc : Location) :
    Made ws [nodes[0]?.getD (.empty loc)] ws' := by
  match nodes, h with
  | [], h => exact h.pad hleads loc
  | first :: rest, h => exact h.sublist (by simp)

lemma Made.firstTwo (h : Made ws nodes ws') (hleads : Leads ws ws') (loc : Location) :
    Made ws [nodes[0]?.getD (.empty loc), nodes[1]?.getD (.empty loc)] ws' := by
  match nodes, h with
  | [], h => exact (h.pad hleads loc).pad hleads loc
  | [first], h => exact h.pad hleads loc
  | first :: second :: rest, h => exact h.sublist (by simp)

lemma binaryNode_records {loc : Location} {op : BinOp} {text : String} (h : Made ws nodes ws₁)
    (hleads : Leads ws ws₁) :
    Records (binaryNode loc op text nodes) ws₁ [] fun node ws₂ => Formed ws node ws₂ := by
  unfold binaryNode
  split
  · refine .report_bind ?_
    rintro ws₂ hleads₂ - -
    have hmade := (h.before hleads hleads₂).firstTwo (hleads.trans hleads₂) loc
    exact .pure ⟨.enclose hmade rfl rfl (by simp [body]), rfl⟩
  · exact .pure ⟨.enclose (h.firstTwo hleads loc) rfl rfl (by simp [body]), rfl⟩

lemma castNode_records {loc : Location} {target : TypeId} (h : Made ws nodes ws₁)
    (hleads : Leads ws ws₁) :
    Records (castNode loc target nodes) ws₁ [] fun node ws₂ => Formed ws node ws₂ := by
  unfold castNode
  split
  · refine .report_bind ?_
    rintro ws₂ hleads₂ - -
    have hmade := (h.before hleads hleads₂).first (hleads.trans hleads₂) loc
    exact .pure ⟨.enclose hmade rfl rfl (by simp [body]), rfl⟩
  · exact .pure ⟨.enclose (h.first hleads loc) rfl rfl (by simp [body]), rfl⟩

lemma applyNode_records {loc : Location} {head : Token} {operands : CompileM (List Node)}
    {names : List String}
    (hoperands : ∀ ws' : Workspace,
      Records operands ws' names fun nodes ws'' => Made ws' nodes ws'') :
    Records (applyNode loc head operands) ws names fun node ws' => Formed ws node ws' := by
  -- a name that means nothing, or a variable, has left a complaint
  have hunknown : ∀ complaint : Complaint, Records (do
        complain head.location complaint
        return .call loc none (← operands)) ws names fun node ws' => Formed ws node ws' := by
    intro complaint
    refine .report_bind ?_
    rintro ws₁ hleads - hlt
    refine (hoperands ws₁).last ?_
    rintro nodes ws₂ - hmade
    exact .pure ⟨Made.wrap hmade hleads hlt rfl (by simp [body]), rfl⟩
  refine .get ?_
  cases hresolve : ws.symbols.resolve head.text with
  | none => exact hunknown _
  | some id =>
    refine symbolAt_records.skip ?_
    rintro symbol ws' - ⟨rfl, -⟩
    split
    · refine .promised_bind fun target _ => (hoperands ws').last ?_
      rintro nodes ws₁ hleads hmade
      exact castNode_records hmade hleads
    · refine (hoperands ws').last ?_
      rintro nodes ws₁ - hmade
      exact .pure ⟨.enclose hmade rfl rfl (by simp [body]), rfl⟩
    · exact hunknown _

lemma returnNode_records {loc : Location} {value? : Option Node} (h : Made ws value?.toList ws₁)
    (hleads : Leads ws ws₁) :
    Records (returnNode place loc value?) ws₁ [] fun node ws₂ => Formed ws node ws₂ := by
  rcases place with _ | _ | function
  · refine .report_bind ?_
    rintro ws₂ hleads₂ - -
    exact .pure ⟨.leaf (hleads.trans hleads₂) rfl rfl rfl rfl, rfl⟩
  · exact .pure ⟨.leaf hleads rfl rfl rfl rfl, rfl⟩
  · cases value? with
    | none => exact .pure ⟨.leaf hleads rfl rfl rfl rfl, rfl⟩
    | some value => exact .pure ⟨.enclose h rfl rfl (by simp [body]), rfl⟩

/-! ## Declarations -/

/-- The declaration of something that has no parts. -/
lemma Enters.formed {symbol : Symbol} {id? : Option SymbolId} (h : Enters ws symbol id? ws₁)
    (hleads₁ : Leads ws ws₁) (hleads₂ : Leads ws₁ ws₂) (hparts : node.parts = [])
    (hbody : node.body = []) (hintroduced : node.introduced = id?.toList)
    (hnameless : node.isNameless = id?.isNone) (hmention : node.isMention = false)
    (hfunction : node.isFunction = false) : Formed ws node ws₂ := by
  refine ⟨(Made.nil hleads₂).enter h hleads₁ hleads₂ ?_ ?_ (by simp [hparts, checkOrderAll])
    (by simp [hbody]) ?_, hmention⟩
  · rw [introducedAll_singleton, hparts, hintroduced]
  · rw [namelessCount_singleton, hparts, hnameless]
  · rintro loc f params body rfl
    simp [isFunction] at hfunction

lemma variableDecl_records {loc : Location} {items : List Datum} {closing : Token} :
    Records (variableDecl place loc items closing) ws (Datum.nameAt 1 items) fun node ws' =>
      Formed ws node ws' := by
  match items with
  | [] => exact .refuse
  | [typeDatum] => exact .skip (typeExpr_records typeDatum) fun _ _ _ _ => .refuse
  | typeDatum :: nameDatum :: rest =>
    refine .skip (typeExpr_records typeDatum) ?_
    rintro type ws₁ hleads₁ -
    refine expectAtom_then_records fun name hname => ?_
    rw [hname]
    refine (declareVariable_records place name type).last ?_
    rintro id? ws₂ hleads₂ henters
    have hformed : Formed ws₁ (.varDecl loc id?) ws₂ :=
      henters.formed hleads₂ (.refl ws₂) rfl rfl rfl (by cases id? <;> rfl) rfl rfl
    exact expectEnd_then_records (.pure ⟨hformed.1.after hleads₁ hleads₂, hformed.2⟩)

lemma definitionDecl_records {loc : Location} {items : List Datum} {closing : Token} :
    Records (definitionDecl loc items closing) ws (Datum.nameAt 0 items) fun node ws' =>
      Formed ws node ws' := by
  match items with
  | [] => exact .refuse
  | [nameDatum] => exact expectAtom_then_records fun name _ => .refuse
  | nameDatum :: typeDatum :: rest =>
    refine expectAtom_then_records fun name hname => ?_
    rw [hname]
    refine .skip (typeExpr_records typeDatum) ?_
    rintro target ws₁ hleads₁ -
    refine .skip (registerType_records registerDefinition_eq_register) ?_
    rintro defined ws₂ hleads₂ ⟨-, hregister⟩
    obtain ⟨info, hget, hshape⟩ := TypeTable.registerDefinition_entry hregister
    refine (declareDefinition_records name hget hshape).last ?_
    rintro id? ws₃ hleads₃ henters
    have hformed : Formed ws₂ (.typedefDecl loc id?) ws₃ :=
      henters.formed hleads₃ (.refl ws₃) rfl rfl rfl (by cases id? <;> rfl) rfl rfl
    exact expectEnd_then_records
      (.pure ⟨hformed.1.after (hleads₁.trans hleads₂) hleads₃, hformed.2⟩)

/-- The function that was declared, of which only the name is known. -/
lemma Enters.placeholder {name : String} {id? : Option SymbolId}
    (h : Enters ws (.placeholder name .function) id? ws₁)
    (hentries : ws'.symbols.entries = ws₁.symbols.entries) :
    ∀ id ∈ id?, ws'.symbols.entries[id.index]? = some (.placeholder name .function) := by
  cases h with
  | refused => simp
  | added hadded =>
    rintro _ ⟨⟩
    rw [hentries, hadded]
    exact SymbolTable.add_getElem?_size _ _

lemma externalDecl_records {loc : Location} {items : List Datum} {closing : Token} :
    Records (externalDecl loc items closing) ws (Datum.nameAt 0 items) fun node ws' =>
      Formed ws node ws' := by
  cases items with
  | nil => exact .refuse
  | cons nameDatum afterName =>
    refine expectAtom_then_records fun name hname => ?_
    rw [hname]
    refine (declareFunction_records name).last ?_
    rintro id? ws₁ hleads₁ henters
    have hrecord : ∀ {ws₂ : Workspace} {params : List (Token × TypeId)} {result : TypeId}
        {prototyped : Bool} {rest : List Datum}, Leads ws₁ ws₂ → ws₂.symbols = ws₁.symbols →
        Records (do
          setSignature id? name params result prototyped true
          expectEnd rest closing
          return Node.externDecl loc id?) ws₂ [] fun node ws' => Formed ws node ws' := by
      intro ws₂ params result prototyped rest hleads₂ hsymbols
      refine .skip (setSignature_records (henters.placeholder (congrArg _ hsymbols))
        fun _ => rfl) ?_
      rintro _ ws₃ hleads₃ -
      exact expectEnd_then_records (.pure (henters.formed hleads₁ (hleads₂.trans hleads₃) rfl rfl
        rfl (by cases id? <;> rfl) rfl rfl))
    rcases afterName with _ | ⟨token | ⟨opening, inner, close⟩, afterParams⟩
    · exact hrecord (.refl ws₁) rfl
    · exact hrecord (.refl ws₁) rfl
    · refine .skip params_records ?_
      rintro bound ws₂ hleads₂ hsymbols₂
      cases afterParams with
      | nil => exact .refuse
      | cons typeDatum rest =>
        refine .skip (typeExpr_records typeDatum) ?_
        rintro result ws₃ hleads₃ hsymbols₃
        exact hrecord (hleads₂.trans hleads₃) (hsymbols₃.trans hsymbols₂)

/-- Parameters are introduced like variables, each with the type that was read for it. -/
lemma declareParams_records (loc : Location) {bound : List (Token × TypeId)} :
    Records (declareParams place bound) ws (bound.map (·.1.text)) fun ids ws' =>
      Made ws (ids.map fun id => .varDecl loc (some id)) ws' ∧
      (∀ {i : Nat} {symbol : Symbol}, ws.symbols.entries[i]? = some symbol →
        ws'.symbols.entries[i]? = some symbol) ∧
      ∀ id ∈ ids, ∃ pair ∈ bound, ∃ symbol, ws'.symbols.entries[id.index]? = some symbol ∧
        symbol.type? = some pair.2 := by
  induction bound generalizing ws with
  | nil => exact .pure ⟨.nil (.refl ws), fun h => h, by simp⟩
  | cons pair rest ih =>
    obtain ⟨name, type⟩ := pair
    refine (declareVariable_records place name type).bind ?_
    rintro id? ws₁ hleads₁ henters
    refine ih.last ?_
    rintro ids ws₂ hleads₂ ⟨hmade, hold, htypes⟩
    refine .pure ?_
    cases henters with
    | refused htables hlt =>
      -- a parameter whose name was there before is left out
      refine ⟨hmade.after hleads₁ hleads₂, fun hget => hold ?_, ?_⟩
      · rw [congrArg Tables.symbols htables]
        exact hget
      · intro id hid
        obtain ⟨pair, hpair, hsymbol⟩ := htypes id hid
        exact ⟨pair, List.mem_cons_of_mem _ hpair, hsymbol⟩
    | added hsymbols =>
      have hfirst : Formed ws (.varDecl loc (some ⟨ws.symbols.size⟩)) ws₁ :=
        (Enters.added hsymbols).formed hleads₁ (.refl ws₁) rfl rfl rfl rfl rfl rfl
      refine ⟨hfirst.1.cons hmade hleads₁ hleads₂, fun hget => hold ?_, ?_⟩
      · have := SymbolTable.lt_size_of_getElem? hget
        rw [hsymbols, SymbolTable.add_getElem?, if_neg (by omega)]
        exact hget
      · intro id hid
        rcases List.mem_cons.mp hid with rfl | hid
        · refine ⟨(name, type), List.mem_cons_self, variableSymbol place name.text type, hold ?_,
            rfl⟩
          rw [hsymbols]
          exact SymbolTable.add_getElem?_size _ _
        · obtain ⟨pair, hpair, hsymbol⟩ := htypes id hid
          exact ⟨pair, List.mem_cons_of_mem _ hpair, hsymbol⟩

lemma checkFunctionPlace_records {name : Token} :
    Records (checkFunctionPlace place name) ws [] fun _ ws' => ws'.toTables = ws.toTables := by
  have hcomplain : ∀ complaint : Complaint, Records (complain name.location complaint) ws []
      fun _ ws' => ws'.toTables = ws.toTables := fun complaint =>
    .of_ok rfl (.one .report rfl) .report rfl
  cases place with
  | body function? => exact hcomplain _
  | topLevel =>
    refine .get ?_
    split
    · exact hcomplain _
    · exact .pure rfl

/-- A function takes its parameters once its signature was recorded. -/
lemma takes_of_signed {id? : Option SymbolId} {name : String} {params : List (Token × TypeId)}
    {result : TypeId} {prototyped external : Bool} {ids : List SymbolId} {f : SymbolId}
    (hsigned : ws'.symbols = id?.elim ws.symbols fun id =>
      ws.symbols.replace id (functionSymbol name params result prototyped external))
    (hold : ∀ f ∈ id?, ws.symbols.entries[f.index]? = some (.placeholder name .function))
    (hf : f ∈ id?)
    (hids : ∀ id ∈ ids, ∃ pair ∈ params, ∃ symbol, ws'.symbols.entries[id.index]? = some symbol ∧
      symbol.type? = some pair.2) : ws'.symbols.Takes f ids := by
  have hget : ws'.symbols.entries[f.index]? =
      some (functionSymbol name params result prototyped external) := by
    have hlt := SymbolTable.lt_size_of_getElem? (hold f hf)
    cases hf
    rw [hsigned, Option.elim_some, SymbolTable.replace_getElem? hlt, if_pos rfl]
  refine ⟨_, _, prototyped, external, hget, rfl, by simp [functionSymbol], ?_⟩
  intro id hid
  obtain ⟨pair, hpair, hsymbol⟩ := hids id hid
  exact ⟨⟨pair.1.text, pair.2⟩, List.mem_map.mpr ⟨pair, hpair, rfl⟩, hsymbol⟩

/-- The definition of a function, whose parameters come before its body. -/
lemma Enters.function {symbol : Symbol} {id? : Option SymbolId} {loc : Location}
    {ids : List SymbolId} {body : List Node} (h : Enters ws symbol id? ws₁)
    (hinner : Made ws₁ (ids.map (fun id => .varDecl loc (some id)) ++ body) ws₂)
    (hleads₁ : Leads ws ws₁) (hleads₂ : Leads ws₁ ws₂)
    (hbody : ∀ node ∈ body, node.isMention = false) (htakes : ∀ f ∈ id?, ws₂.symbols.Takes f ids) :
    Formed ws (.functionDef loc id? ids body) ws₂ := by
  refine ⟨hinner.enter h hleads₁ hleads₂ ?_ ?_ ?_ hbody ?_, rfl⟩
  · rw [introducedAll_singleton, introducedAll_append, introducedAll_params]
    simp [introduced, parts]
  · rw [namelessCount_singleton, namelessCount_append, namelessCount_params]
    cases id? <;> simp [isNameless, parts]
  · intro n hn
    rw [checkOrderAll_append]
    exact List.mem_append_right _ hn
  · rintro loc' f params body' heq
    cases heq
    exact htakes f rfl

/-! ## Lists -/

/-- Reading statements inside a scope of its own. -/
lemma withScope_made {act : CompileM (List Node)}
    (h : Confined act (opened ws) fun nodes ws' =>
      Made (opened ws) nodes ws' ∧ ∀ node ∈ nodes, node.isMention = false) :
    Records (withScope act) ws [] fun nodes ws' =>
      Made ws nodes ws' ∧ ∀ node ∈ nodes, node.isMention = false := by
  refine h.withScope.imp ?_
  rintro nodes _ - ⟨inner, ⟨hmade, hmention⟩, -, rfl⟩
  exact ⟨hmade.scoped, hmention⟩

/-- The statements of a body, a node in front. -/
lemma Formed.cons (h₁ : Formed ws node ws₁) (hleads₁ : Leads ws ws₁)
    (h₂ : Made ws₁ nodes ws₂ ∧ ∀ node ∈ nodes, node.isMention = false) (hleads₂ : Leads ws₁ ws₂) :
    Made ws (node :: nodes) ws₂ ∧ ∀ n ∈ node :: nodes, n.isMention = false :=
  ⟨h₁.1.cons h₂.1 hleads₁ hleads₂, List.forall_mem_cons.mpr ⟨h₁.2, h₂.2⟩⟩

mutual

theorem form_records {place : Place} {ws : Workspace} (datum : Datum) :
    Records (form place datum) ws datum.exposed fun node ws' => Formed ws node ws' := by
  match datum with
  | .atom token => exact .refuse
  | .list opening items closing => exact list_records opening items closing

theorem item_records {place : Place} {ws : Workspace} (datum : Datum) :
    Records (item place datum) ws datum.exposed fun node ws' => Made ws [node] ws' := by
  match datum with
  | .atom token => exact atomNode_records
  | .list opening items closing =>
    exact (list_records opening items closing).imp fun _ _ _ hformed => hformed.1

theorem list_records {place : Place} {ws : Workspace} (opening : Token) (items : List Datum)
    (closing : Token) :
    Records (list place opening items closing) ws (Datum.exposedBy items) fun node ws' =>
      Formed ws node ws' := by
  match items with
  | [] =>
    unfold list
    dsimp only
    split
    · exact .pure ⟨.leaf (.refl ws) rfl rfl rfl rfl, rfl⟩
    · exact .refuse
  | .list opening' inner closing' :: rest =>
    unfold list
    refine .skip (withScope_made ?_) ?_
    · refine .bind (.of_records (form_records (.list opening' inner closing'))) ?_
      rintro node ws₁ hleads₁ hformed
      refine .bind (.of_records (statements_records rest closing)) ?_
      rintro nodes ws₂ hleads₂ hmade
      exact .pure (hformed.cons hleads₁ hmade hleads₂)
    · rintro body ws₁ - ⟨hmade, hmention⟩
      exact .pure ⟨.enclose hmade rfl rfl hmention, rfl⟩
  | .atom head :: rest =>
    unfold list
    dsimp only [Datum.atom?]
    split
    · -- An operator.
      rename_i hkind
      rw [show Datum.exposedBy (.atom head :: rest) = Datum.exposedAll rest by
        simp [Datum.exposedBy, hkind]]
      split
      · exact .refuse
      · refine .last (operands_records rest closing) ?_
        rintro nodes ws₁ hleads hmade
        exact binaryNode_records hmade hleads
    · rename_i hkind
      rw [show Datum.exposedBy (.atom head :: rest) = Datum.exposedAll rest by
        simp [Datum.exposedBy, hkind]]
      exact applyNode_records fun ws' => operands_records rest closing
    · rename_i hkind
      rw [show Datum.exposedBy (.atom head :: rest) = Datum.exposedAll rest by
        simp [Datum.exposedBy, hkind]]
      refine .skip builtinType_records ?_
      rintro target ws' - rfl
      refine .last (operands_records rest closing) ?_
      rintro nodes ws₁ hleads hmade
      exact castNode_records hmade hleads
    · -- A keyword.
      rename_i hkind
      split
      · exact .refuse
      all_goals
        rename_i hconstruct
        simp only [Datum.exposedBy, hkind, hconstruct]
      · exact variableDecl_records
      · exact definitionDecl_records
      · exact externalDecl_records
      · exact functionForm_records _ rest closing
      · exact conditionalForm_records _ rest closing
      · -- a second branch by itself is a finding
        refine .report_bind ?_
        rintro ws₁ hleads₁ - -
        refine .skip (withScope_made (.of_records (statements_records rest closing))) ?_
        rintro body ws₂ hleads₂ ⟨hmade, hmention⟩
        exact .pure ⟨.enclose (hmade.after hleads₁ hleads₂) rfl rfl hmention, rfl⟩
      · exact whileForm_records _ rest closing
      · refine (Confined.of_records (forForm_records _ rest closing)).withScope.imp ?_
        rintro node _ - ⟨inner, ⟨hmade, hmention⟩, -, rfl⟩
        exact ⟨hmade.scoped, hmention⟩
      · exact returnForm_records _ rest closing
    · exact .refuse

theorem functionForm_records {place : Place} {ws : Workspace} (loc : Location)
    (items : List Datum) (closing : Token) :
    Records (functionForm place loc items closing) ws (Datum.nameAt 0 items) fun node ws' =>
      Formed ws node ws' := by
  match items with
  | [] => exact .refuse
  | nameDatum :: afterName =>
    unfold functionForm
    refine expectAtom_then_records fun name hname => ?_
    rw [hname]
    refine .skip checkFunctionPlace_records ?_
    rintro _ ws₀ hleads₀ -
    refine (declareFunction_records name).last ?_
    rintro id? ws₁ hleads₁ henters
    -- The parameters count as if nodes in front of the body declared them.  What they and the body
    -- declare is confined to the scope of the function, so that no names have to be given.
    have hinner : Confined (do
        match afterName with
        | [] => refuseFor .lparen closing
        | paramsDatum :: afterParams => do
          let bound ← params paramsDatum
          let ids ← declareParams (.body id?) bound
          match afterParams with
          | [] => refuseFor .typeName closing
          | typeDatum :: bodyData => do
            let result ← typeExpr typeDatum
            setSignature id? name bound result true false
            let body ← statements (.body id?) bodyData closing
            return (ids, body)) (opened ws₁) fun (ids, body) ws' =>
          Made (opened ws₁) (ids.map (fun id => .varDecl loc (some id)) ++ body) ws' ∧
          (∀ node ∈ body, node.isMention = false) ∧ ∀ f ∈ id?, ws'.symbols.Takes f ids := by
      match afterName with
      | [] => exact .refuse
      | paramsDatum :: afterParams =>
        refine .bind (.of_records params_records) ?_
        rintro bound ws₂ hleads₂ hsymbols₂
        refine .bind (.of_records (declareParams_records loc)) ?_
        rintro ids ws₃ hleads₃ ⟨hids, hold, htypes⟩
        match afterParams with
        | [] => exact .refuse
        | typeDatum :: bodyData =>
          refine .bind (.of_records (typeExpr_records typeDatum)) ?_
          rintro result ws₄ hleads₄ hsymbols₄
          -- nothing but the name of the function is known up to here
          have hplaceholder : ∀ f ∈ id?, ws₄.symbols.entries[f.index]? =
              some (.placeholder name.text .function) := by
            intro f hf
            have hentries : ws₂.symbols.entries = ws₁.symbols.entries := by rw [hsymbols₂]; rfl
            rw [hsymbols₄]
            exact hold (henters.placeholder hentries f hf)
          refine .bind (.of_records (setSignature_records hplaceholder (by simp))) ?_
          rintro _ ws₅ hleads₅ hsigned
          refine .bind (.of_records (statements_records bodyData closing)) ?_
          rintro body ws₆ hleads₆ ⟨hbody, hmention⟩
          have hleads₁₃ := hleads₂.trans hleads₃
          have hleads₃₅ := hleads₄.trans hleads₅
          have hparams := (hids.after hleads₂ hleads₃).before hleads₁₃ hleads₃₅
          refine .pure ⟨hparams.append hbody (hleads₁₃.trans hleads₃₅) hleads₆, hmention, ?_⟩
          intro f hf
          refine SymbolTable.Takes.mono ?_ hleads₆.keeps
          exact takes_of_signed hsigned hplaceholder hf fun id hid => by
            obtain ⟨pair, hpair, symbol, hget, htype⟩ := htypes id hid
            exact ⟨pair, hpair, symbol, hleads₃₅.keeps.entry hget (by simp [htype]), htype⟩
    refine hinner.withScope.skip ?_
    rintro ⟨ids, body⟩ _ hleads₂ ⟨inner, ⟨hmade, hmention, htakes⟩, hleads, rfl⟩
    have hformed := henters.function hmade.scoped hleads₁ hleads₂ hmention htakes
    exact .pure ⟨hformed.1.after hleads₀ (hleads₁.trans hleads₂), rfl⟩

theorem conditionalForm_records {place : Place} {ws : Workspace} (loc : Location)
    (items : List Datum) (closing : Token) :
    Records (conditionalForm place loc items closing) ws (Datum.exposedFirst items)
      fun node ws' => Formed ws node ws' := by
  match items with
  | [] => exact .refuse
  | condDatum :: branches =>
    unfold conditionalForm
    refine .last (item_records condDatum) ?_
    rintro cond ws₁ hleads₁ hcond
    refine .skip (withScope_made (branch_records branches closing)) ?_
    rintro thenBody ws₂ hleads₂ ⟨hthen, hmention₂⟩
    have hmade := hcond.cons hthen hleads₁ hleads₂
    refine .skip (alternative?_records branches closing) ?_
    rintro elseBody? ws₃ hleads₃ ⟨helse, hmention₃⟩
    have hmade' := hmade.append helse (hleads₁.trans hleads₂) hleads₃
    cases elseBody? with
    | none =>
      rw [Option.getD_none, List.append_nil] at hmade'
      exact .pure ⟨.enclose hmade' rfl rfl hmention₂, rfl⟩
    | some elseBody =>
      refine .pure ⟨.enclose hmade' rfl rfl ?_, rfl⟩
      intro part hpart
      rcases List.mem_append.mp hpart with hpart | hpart
      · exact hmention₂ part hpart
      · exact hmention₃ part hpart

theorem whileForm_records {place : Place} {ws : Workspace} (loc : Location) (items : List Datum)
    (closing : Token) :
    Records (whileForm place loc items closing) ws (Datum.exposedFirst items) fun node ws' =>
      Formed ws node ws' := by
  match items with
  | [] => exact .refuse
  | condDatum :: bodyData =>
    unfold whileForm
    refine .last (item_records condDatum) ?_
    rintro cond ws₁ hleads₁ hcond
    refine .skip (withScope_made (.of_records (statements_records bodyData closing))) ?_
    rintro body ws₂ hleads₂ ⟨hbody, hmention⟩
    exact .pure ⟨.enclose (hcond.cons hbody hleads₁ hleads₂) rfl rfl hmention, rfl⟩

theorem forForm_records {place : Place} {ws : Workspace} (loc : Location) (items : List Datum)
    (closing : Token) :
    Records (forForm place loc items closing) ws (Datum.exposedAll items) fun node ws' =>
      Formed ws node ws' := by
  match items with
  | [] => exact .refuse
  | [initDatum] =>
    unfold forForm
    exact .bind (item_records initDatum) fun _ _ _ _ => .refuse
  | [initDatum, condDatum] =>
    unfold forForm
    refine .bind (item_records initDatum) fun _ _ _ _ => ?_
    exact .bind (item_records condDatum) fun _ _ _ _ => .refuse
  | initDatum :: condDatum :: stepDatum :: bodyData =>
    unfold forForm
    refine .bind (item_records initDatum) ?_
    rintro init ws₁ hleads₁ hinit
    refine .bind (item_records condDatum) ?_
    rintro cond ws₂ hleads₂ hcond
    refine .bind (item_records stepDatum) ?_
    rintro step ws₃ hleads₃ hstep
    refine .last (statements_records bodyData closing) ?_
    rintro body ws₄ hleads₄ ⟨hbody, hmention⟩
    have hmade₃ := hstep.cons hbody hleads₃ hleads₄
    have hmade₂ := hcond.cons hmade₃ hleads₂ (hleads₃.trans hleads₄)
    have hmade := hinit.cons hmade₂ hleads₁ (hleads₂.trans (hleads₃.trans hleads₄))
    exact .pure ⟨.enclose hmade rfl rfl hmention, rfl⟩

theorem returnForm_records {place : Place} {ws : Workspace} (loc : Location) (items : List Datum)
    (closing : Token) :
    Records (returnForm place loc items closing) ws (Datum.exposedFirst items) fun node ws' =>
      Formed ws node ws' := by
  match items with
  | [] =>
    unfold returnForm
    split
    · exact returnNode_records (.nil (.refl ws)) (.refl ws)
    · exact .refuse
  | valueDatum :: rest =>
    unfold returnForm
    refine .last (item_records valueDatum) ?_
    rintro value ws₁ hleads₁ hvalue
    refine .skip (returnNode_records hvalue hleads₁) ?_
    rintro node ws₂ - hformed
    exact expectEnd_then_records (.pure hformed)

theorem statements_records {place : Place} {ws : Workspace} (items : List Datum)
    (closing : Token) :
    Records (statements place items closing) ws (Datum.exposedAll items) fun nodes ws' =>
      Made ws nodes ws' ∧ ∀ node ∈ nodes, node.isMention = false := by
  match items with
  | [] =>
    unfold statements
    split
    · exact .pure ⟨.nil (.refl ws), by simp⟩
    · exact .refuse
  | datum :: rest =>
    unfold statements
    refine .bind (form_records datum) ?_
    rintro node ws₁ hleads₁ hformed
    refine .last (statements_records rest closing) ?_
    rintro nodes ws₂ hleads₂ hmade
    exact .pure (hformed.cons hleads₁ hmade hleads₂)

theorem operands_records {place : Place} {ws : Workspace} (items : List Datum) (closing : Token) :
    Records (operands place items closing) ws (Datum.exposedAll items) fun nodes ws' =>
      Made ws nodes ws' := by
  match items with
  | [] =>
    unfold operands
    split
    · exact .pure (.nil (.refl ws))
    · exact .refuse
  | datum :: rest =>
    unfold operands
    refine .bind (item_records datum) ?_
    rintro node ws₁ hleads₁ hnode
    refine .last (operands_records rest closing) ?_
    rintro nodes ws₂ hleads₂ hmade
    exact .pure (hnode.cons hmade hleads₁ hleads₂)

theorem branch_records {place : Place} {ws : Workspace} (items : List Datum) (closing : Token) :
    Confined (branch place items closing) ws fun nodes ws' =>
      Made ws nodes ws' ∧ ∀ node ∈ nodes, node.isMention = false := by
  match items with
  | [] =>
    unfold branch
    split
    · exact .pure ⟨.nil (.refl ws), by simp⟩
    · exact .refuse
  | datum :: rest =>
    unfold branch
    split
    · exact .pure ⟨.nil (.refl ws), by simp⟩
    · refine .bind (.of_records (form_records datum)) ?_
      rintro node ws₁ hleads₁ hformed
      refine .bind (branch_records rest closing) ?_
      rintro nodes ws₂ hleads₂ hmade
      exact .pure (hformed.cons hleads₁ hmade hleads₂)

theorem alternative?_records {place : Place} {ws : Workspace} (items : List Datum)
    (closing : Token) :
    Records (alternative? place items closing) ws [] fun body? ws' =>
      Made ws (body?.getD []) ws' ∧ ∀ node ∈ body?.getD [], node.isMention = false := by
  match items with
  | [] =>
    unfold alternative?
    exact .pure ⟨.nil (.refl ws), by simp⟩
  | .atom token :: rest =>
    unfold alternative?
    exact alternative?_records rest closing
  | .list opening [] innerClosing :: rest =>
    unfold alternative?
    exact alternative?_records rest closing
  | .list opening (.list .. :: bodyData) innerClosing :: rest =>
    unfold alternative?
    exact alternative?_records rest closing
  | .list opening (.atom head :: bodyData) innerClosing :: rest =>
    unfold alternative?
    split
    · refine .skip (withScope_made
        (.of_records (statements_records bodyData innerClosing))) ?_
      rintro body ws₁ - hmade
      exact expectEnd_then_records (.pure hmade)
    · exact alternative?_records rest closing

end

/-! ## Programs -/

lemma topForms_records (items : List Datum) :
    Records (topForms items) ws (Datum.exposedAll items) fun nodes ws' =>
      Made ws nodes ws' ∧ ∀ node ∈ nodes, node.isMention = false := by
  induction items generalizing ws with
  | nil => exact .pure ⟨.nil (.refl ws), by simp⟩
  | cons datum rest ih =>
    refine .bind (form_records datum) ?_
    rintro node ws₁ hleads₁ hformed
    refine ih.last ?_
    rintro nodes ws₂ hleads₂ hmade
    exact .pure (hformed.cons hleads₁ hmade hleads₂)

/-- No construct of the top level defines `main` where none is found. -/
lemma isEntryPoint_of_entryPoint? {symbols : SymbolTable}
    (h : entryPoint? symbols nodes = .ok none) :
    ∀ node ∈ nodes, isEntryPoint symbols node = .ok false := by
  induction nodes with
  | nil => simp
  | cons node rest ih =>
    simp only [entryPoint?, bind, Except.bind, pure, Except.pure] at h
    split at h
    · cases h
    · rename_i here hhere
      split at h
      · cases h
      · rename_i later? hlater
        obtain ⟨rfl, hnot⟩ : later? = none ∧ here = false := by
          cases later? <;> cases here <;> simp_all
        exact List.forall_mem_cons.mpr ⟨hnot ▸ hhere, ih hlater⟩

/-- Reading a program, on every way out.  If nothing is found wrong, a program with statements at
the top level defines no function called `main`. -/
theorem program_records (tokens : List Token) :
    Records (program tokens) ws (Datum.exposedAll (Remainder.ofStream (.ofTokens tokens)).items)
      fun program ws' => Made ws program.items ws' ∧
        (∀ item ∈ program.items, item.isMention = false) ∧
        (ws'.Quiet → program.hasStatements = true →
          ∀ item ∈ program.items, isEntryPoint ws'.symbols item = .ok false) := by
  unfold program
  dsimp only
  refine .last (topForms_records _) ?_
  rintro items ws₁ hleads₁ ⟨hmade, hmention⟩
  split
  · exact .skip .refuse fun _ _ _ h => h
  · have hfinish : ∀ ws₂ : Workspace, Leads ws₁ ws₂ → ws₂.symbols = ws₁.symbols →
        (ws₂.Quiet → (⟨items⟩ : Program).hasStatements = true →
          ∀ item ∈ items, isEntryPoint ws₁.symbols item = .ok false) → Records (do
        let ws ← get
        if ws.symbols.depth ≠ 1 then throw (.defect .unbalancedScopes)
        log (.parsed items.length ws.symbols.size ws.types.size)
        return (⟨items⟩ : Program)) ws₂ [] fun program ws' => Made ws program.items ws' ∧
          (∀ item ∈ program.items, item.isMention = false) ∧
          (ws'.Quiet → program.hasStatements = true →
            ∀ item ∈ program.items, isEntryPoint ws'.symbols item = .ok false) := by
      intro ws₂ hleads₂ hsymbols hmain
      refine .get ?_
      split
      · trivial
      · let event := Event.parsed items.length ws₂.symbols.size ws₂.types.size
        have hlog : Leads ws₂ { ws₂ with journal := ws₂.journal.log event } :=
          .one (.note rfl) rfl
        refine .of_ok rfl hlog (.log rfl) ⟨?_, hmention, ?_⟩
        · exact hmade.before hleads₁ (hleads₂.trans hlog)
        · rw [hsymbols]
          exact hmain
    refine .get (.promised_bind fun loc? hloc => ?_)
    cases loc? with
    | none => exact hfinish ws₁ (.refl ws₁) rfl fun _ _ => isEntryPoint_of_entryPoint? hloc
    | some loc =>
      dsimp only
      split
      · refine .report_bind ?_
        rintro ws₂ hleads₂ htables hlt
        refine hfinish ws₂ hleads₂ (congrArg Tables.symbols htables) fun hquiet => ?_
        -- the program has both, but then there is a finding
        rw [hquiet] at hlt
        simp at hlt
      · rename_i hstatements
        exact hfinish ws₁ (.refl ws₁) rfl fun _ h => absurd h hstatements

end Reading

end ParenC
