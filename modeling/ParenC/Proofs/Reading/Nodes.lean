/-
What holds of the nodes that reading makes.

`Reading.Read` relates the workspaces before and after some nodes were read.  Part of it holds
whatever was found wrong: numbers in the nodes are numbers of entries, and new symbols have their
types.  The other part holds if nothing was found wrong: names were declared and mean variables of
the function around, functions stand at the top level only, every new function is declared by one
of the nodes, and the new variables of a function are those that its nodes declare, in the order
of the text.

The relation is closed under reading on and under putting a construct around the nodes, so that
each construct only has to be looked at by itself.
-/
import ParenC.Proofs.Reading.TypeExpr
import ParenC.Proofs.Tree

namespace ParenC

namespace Node

/-- The numbers in the node itself are numbers of entries of the right sort. -/
def Valid (tables : Tables) : Node → Prop
  | varDecl _ symbol? | varRef _ symbol? => ∀ id ∈ symbol?, tables.symbols.HasSort .localVar id
  | externDecl _ symbol? | call _ symbol? _ => ∀ id ∈ symbol?, tables.symbols.HasSort .function id
  | functionDef _ symbol? params _ => (∀ id ∈ symbol?, tables.symbols.HasSort .function id) ∧
      ∀ id ∈ params, tables.symbols.HasSort .localVar id
  | cast _ target _ => tables.types.Has target
  | returnVoid _ function | returnValue _ _ function => tables.symbols.HasSort .function function
  | typedefDecl _ symbol? => ∀ id ∈ symbol?, tables.symbols.HasSort .type id
  | _ => True

lemma Valid.mono {tables tables' : Tables} {node : Node} (h : node.Valid tables)
    (htypes : tables'.types.Extends tables.types)
    (hsymbols : tables'.symbols.Extends tables.symbols) : node.Valid tables' := by
  cases node with
  | varDecl loc symbol? => exact fun id hid => (h id hid).mono hsymbols
  | varRef loc symbol? => exact fun id hid => (h id hid).mono hsymbols
  | externDecl loc symbol? => exact fun id hid => (h id hid).mono hsymbols
  | call loc callee? args => exact fun id hid => (h id hid).mono hsymbols
  | typedefDecl loc symbol? => exact fun id hid => (h id hid).mono hsymbols
  | functionDef loc symbol? params body =>
    exact ⟨fun id hid => (h.1 id hid).mono hsymbols, fun id hid => (h.2 id hid).mono hsymbols⟩
  | cast loc target operand => exact htypes.has h
  | returnVoid loc function => exact SymbolTable.HasSort.mono h hsymbols
  | returnValue loc value function => exact SymbolTable.HasSort.mono h hsymbols
  | _ => trivial

/-- The function whose frame holds the variables of the parts of a node that stands in the
function `owner`. -/
def frame (owner : Option SymbolId) : Node → Option SymbolId
  | functionDef _ symbol? _ _ => symbol?
  | _ => owner

/-- The names in a node that stands in the function `owner` mean what they have to. -/
def Named (symbols : SymbolTable) (owner : Option SymbolId) : Node → Prop
  | varRef _ symbol? => ∃ id, symbol? = some id ∧ symbols.HasVariable owner id
  | varDecl _ symbol? | externDecl _ symbol? | functionDef _ symbol? _ _ | call _ symbol? _
  | typedefDecl _ symbol? => symbol? ≠ none
  | returnVoid _ function | returnValue _ _ function => owner = some function
  | _ => True

lemma Named.mono {symbols symbols' : SymbolTable} {owner : Option SymbolId} {node : Node}
    (h : node.Named symbols owner) (ext : symbols'.Extends symbols) :
    node.Named symbols' owner := by
  cases node with
  | varRef loc symbol? =>
    obtain ⟨id, hid, hvar⟩ := h
    exact ⟨id, hid, hvar.mono ext⟩
  | _ => exact h

/-- All names in a node and below it mean what they have to, and no function is defined where a
statement has to stand. -/
inductive Fits (symbols : SymbolTable) : Option SymbolId → Node → Prop
  | intro {owner : Option SymbolId} {node : Node} (named : node.Named symbols owner)
      (flat : ∀ part ∈ node.statementParts, part.isFunction = false)
      (below : ∀ part ∈ node.parts, Fits symbols (node.frame owner) part) : Fits symbols owner node

namespace Fits

variable {symbols : SymbolTable} {owner : Option SymbolId} {node : Node}

lemma named (h : node.Fits symbols owner) : node.Named symbols owner := by
  cases h
  assumption

lemma flat (h : node.Fits symbols owner) :
    ∀ part ∈ node.statementParts, part.isFunction = false := by
  cases h
  assumption

lemma parts (h : node.Fits symbols owner) :
    ∀ part ∈ node.parts, part.Fits symbols (node.frame owner) := by
  cases h
  assumption

lemma mono {symbols' : SymbolTable} (h : node.Fits symbols owner)
    (ext : symbols'.Extends symbols) : node.Fits symbols' owner := by
  induction h with
  | intro named flat below ih => exact .intro (named.mono ext) flat ih

end Fits

end Node

namespace SymbolTable

variable {symbols symbols' : SymbolTable}

/-- The symbols of the larger table beyond those of the smaller one have their types. -/
def NewTyped (symbols symbols' : SymbolTable) : Prop :=
  ∀ ⦃i : Nat⦄ ⦃symbol : Symbol⦄, symbols.size ≤ i → symbols'.entries[i]? = some symbol →
    symbol.type? ≠ none

lemma HasSort.old (ext : symbols'.Extends symbols) {sort : SymbolSort} {id : SymbolId}
    (hid : id.index < symbols.size) (h : symbols'.HasSort sort id) : symbols.HasSort sort id := by
  obtain ⟨new, hnew, hsort⟩ := h
  obtain ⟨old, hold, hgrows⟩ := ext.old_of_new hid hnew
  exact ⟨old, hold, hgrows.sort_eq.symm.trans hsort⟩

/-- A number that is not yet that of a symbol is not that of an owner. -/
lemma locals_eq_nil {tables : Tables} (sound : tables.Sound) {f : SymbolId}
    (hf : tables.symbols.size ≤ f.index) : tables.symbols.locals (some f) = [] := by
  apply List.eq_nil_iff_forall_not_mem.mpr
  intro id hid
  obtain ⟨symbol, hget, hvar⟩ := mem_locals.mp hid
  unfold Symbol.isVariableOf at hvar
  split at hvar
  · rename_i offset function hkind
    have howner : function = some f := by simpa using hvar
    have := (sound.symbol hget).owner (howner ▸ hkind)
    omega
  · simp at hvar

end SymbolTable

namespace Reading

open CompileM Workspace Node

variable {place : Place} {ws ws₁ ws₂ ws' : Workspace} {nodes xs ys : List Node}

/-! ## The relation -/

/-- What holds of nodes that were read at a place without findings. -/
structure Clean (place : Place) (ws : Workspace) (nodes : List Node) (ws' : Workspace) : Prop where
  /-- Names mean what they have to. -/
  fits : ∀ node ∈ nodes, node.Fits ws'.symbols place.owner?
  /-- Functions are defined at the top level only. -/
  nested : place ≠ .topLevel ∨ ws.symbols.enclosing ≠ [] → ∀ node ∈ nodes, node.isFunction = false
  /-- Every new function is declared by one of the nodes. -/
  functions : ∀ f : SymbolId, ws.symbols.size ≤ f.index → ws'.symbols.HasSort .function f →
    ∃ node ∈ checkOrderAll nodes, node.function? = some f
  /-- The functions of before have the variables of before, and the one of the place also has
  those that the nodes declare. -/
  locals : ∀ owner : Option SymbolId, (∀ f ∈ owner, f.index < ws.symbols.size) →
    ws'.symbols.locals owner =
      ws.symbols.locals owner ++ if owner = place.owner? then declaredAll nodes else []
  /-- The variables of a function that the nodes define are its parameters and those that its
  body declares. -/
  frames : ∀ {loc f params body}, functionDef loc (some f) params body ∈ checkOrderAll nodes →
    ws.symbols.size ≤ f.index ∧ f.index < ws'.symbols.size ∧
      ws'.symbols.locals (some f) = params ++ declaredAll body

/-- What holds of nodes that were read at a place. -/
structure Read (place : Place) (ws : Workspace) (nodes : List Node) (ws' : Workspace) : Prop where
  /-- Numbers are numbers of entries. -/
  valid : ∀ node ∈ checkOrderAll nodes, node.Valid ws'.toTables
  /-- New symbols have their types. -/
  typed : ws.symbols.NewTyped ws'.symbols
  /-- The rest, if nothing was found wrong. -/
  clean : ws'.Quiet → Clean place ws nodes ws'

/-- Where something was found wrong, little is promised. -/
lemma Read.loud (hloud : ¬ ws'.Quiet) (valid : ∀ node ∈ checkOrderAll nodes, node.Valid ws'.toTables)
    (typed : ws.symbols.NewTyped ws'.symbols) : Read place ws nodes ws' :=
  ⟨valid, typed, fun hquiet => absurd hquiet hloud⟩

/-- Nothing is read as long as no variables or functions come up. -/
lemma Read.nil (hsize : ws'.symbols.size = ws.symbols.size)
    (hlocals : ∀ owner, ws'.symbols.locals owner = ws.symbols.locals owner) :
    Read place ws [] ws' where
  valid := by simp [checkOrderAll]
  typed := by
    intro i symbol hi hget
    have := SymbolTable.lt_size_of_getElem? hget
    omega
  clean _ :=
    { fits := by simp
      nested := by simp
      functions := by
        intro f hf hsort
        have := hsort.lt_size
        omega
      locals := by
        intro owner _
        simp [hlocals owner]
      frames := by simp [checkOrderAll] }

lemma Read.nil_of_eq (h : ws'.symbols = ws.symbols) : Read place ws [] ws' :=
  .nil (by rw [h]) fun owner => by rw [h]

/-- Reading on. -/
lemma Read.append (h₁ : Read place ws xs ws₁) (h₂ : Read place ws₁ ys ws₂)
    (hkept : ws.Kept ws₁) (hgrows : ws₁.Grows ws₂) (hplace : PlaceSound place ws) :
    Read place ws (xs ++ ys) ws₂ where
  valid := by
    intro node hnode
    rw [checkOrderAll_append, List.mem_append] at hnode
    rcases hnode with hnode | hnode
    · exact (h₁.valid node hnode).mono hgrows.types hgrows.symbols
    · exact h₂.valid node hnode
  typed := by
    intro i symbol hi hget
    rcases Nat.lt_or_ge i ws₁.symbols.size with hlt | hge
    · obtain ⟨old, hold, hsame⟩ := hgrows.symbols.old_of_new hlt hget
      exact hsame.typed (h₁.typed hi hold)
    · exact h₂.typed hge hget
  clean hquiet := by
    have c₁ := h₁.clean (hgrows.quiet hquiet)
    have c₂ := h₂.clean hquiet
    have hsize := hkept.symbols.size_le
    refine ⟨?_, ?_, ?_, ?_, ?_⟩
    · intro node hnode
      rcases List.mem_append.mp hnode with hnode | hnode
      · exact (c₁.fits node hnode).mono hgrows.symbols
      · exact c₂.fits node hnode
    · intro hinner node hnode
      rcases List.mem_append.mp hnode with hnode | hnode
      · exact c₁.nested hinner node hnode
      · exact c₂.nested (by rwa [hkept.enclosing]) node hnode
    · intro f hf hsort
      rcases Nat.lt_or_ge f.index ws₁.symbols.size with hlt | hge
      · obtain ⟨node, hnode, hfun⟩ := c₁.functions f hf (hsort.old hgrows.symbols hlt)
        exact ⟨node, by simp only [checkOrderAll_append, List.mem_append, hnode, true_or], hfun⟩
      · obtain ⟨node, hnode, hfun⟩ := c₂.functions f hge hsort
        exact ⟨node, by simp only [checkOrderAll_append, List.mem_append, hnode, or_true], hfun⟩
    · intro owner howner
      rw [c₂.locals owner fun f hf => Nat.lt_of_lt_of_le (howner f hf) hsize,
        c₁.locals owner howner, declaredAll_append]
      split <;> simp
    · intro loc f params body hnode
      rw [checkOrderAll_append, List.mem_append] at hnode
      rcases hnode with hnode | hnode
      · -- The function is newer than the place, so nothing is added to it later.
        obtain ⟨hge, hlt, hlocals⟩ := c₁.frames hnode
        have hother : some f ≠ place.owner? := by
          intro howner
          have := hplace.owner_lt howner.symm
          omega
        refine ⟨hge, Nat.lt_of_lt_of_le hlt hgrows.symbols.size_le, ?_⟩
        rw [c₂.locals (some f) (by simpa using hlt), hlocals, if_neg hother, List.append_nil]
      · obtain ⟨hge, hlt, hlocals⟩ := c₂.frames hnode
        exact ⟨by omega, hlt, hlocals⟩

/-- A scope of its own leaves no functions, and shows nowhere else. -/
lemma Read.scoped (h : Read place (opened ws) nodes ws') :
    Read place ws nodes (rescoped ws' ws) ∧
      (ws'.Quiet → ∀ node ∈ nodes, node.isFunction = false) := by
  have hopen : (opened ws).symbols.enclosing ≠ [] := by
    simp [opened, SymbolTable.openScope, SymbolTable.scopes]
  refine ⟨⟨h.valid, h.typed, fun hquiet => ?_⟩, fun hquiet => ?_⟩
  · obtain ⟨fits, nested, functions, locals, frames⟩ := h.clean hquiet
    have hsame : (rescoped ws' ws).symbols.Extends ws'.symbols :=
      fun _ old hget => ⟨old, hget, .refl old⟩
    exact ⟨fun node hnode => (fits node hnode).mono hsame, fun _ => nested (Or.inr hopen),
      functions, locals, frames⟩
  · exact (h.clean hquiet).nested (Or.inr hopen)

/-- What is left to say of a construct once its parts were read. -/
structure Wraps (place : Place) (node : Node) (ws' : Workspace) : Prop where
  /-- Numbers in the node itself are numbers of entries. -/
  valid : node.Valid ws'.toTables
  /-- Names in the node itself mean what they have to. -/
  named : ws'.Quiet → node.Named ws'.symbols place.owner?
  /-- No function is defined where a statement has to stand. -/
  flat : ws'.Quiet → ∀ part ∈ node.statementParts, part.isFunction = false
  /-- The node declares nothing itself. -/
  declared : node.declared = declaredAll node.parts
  /-- The node does not define a function. -/
  function : node.isFunction = false

lemma mem_checkOrderAll_singleton {node n : Node} :
    n ∈ checkOrderAll [node] ↔ n = node ∨ n ∈ checkOrderAll node.parts := by
  simp only [checkOrderAll, List.append_nil]
  exact mem_checkOrder

lemma self_mem_checkOrderAll_singleton (node : Node) : node ∈ checkOrderAll [node] :=
  mem_checkOrderAll_singleton.mpr (Or.inl rfl)

/-- Putting a construct around its parts. -/
lemma Read.wrap {node : Node} (h : Read place ws node.parts ws') (hnode : Wraps place node ws') :
    Read place ws [node] ws' where
  valid := by
    intro n hn
    rcases mem_checkOrderAll_singleton.mp hn with rfl | hn
    · exact hnode.valid
    · exact h.valid n hn
  typed := h.typed
  clean hquiet := by
    have c := h.clean hquiet
    have hfunction := hnode.function
    -- only a function has a frame of its own
    have hframe : node.frame place.owner? = place.owner? := by
      cases node with
      | functionDef loc symbol? params body => simp [isFunction] at hfunction
      | _ => rfl
    refine ⟨?_, ?_, ?_, ?_, ?_⟩
    · simp only [List.mem_singleton, forall_eq]
      refine .intro (hnode.named hquiet) (hnode.flat hquiet) ?_
      rw [hframe]
      exact c.fits
    · simp only [List.mem_singleton, forall_eq]
      exact fun _ => hfunction
    · intro f hf hsort
      obtain ⟨n, hn, hfun⟩ := c.functions f hf hsort
      exact ⟨n, mem_checkOrderAll_singleton.mpr (Or.inr hn), hfun⟩
    · intro owner howner
      rw [c.locals owner howner, declaredAll_cons, declaredAll_nil, List.append_nil,
        hnode.declared]
    · intro loc f params body hn
      rcases mem_checkOrderAll_singleton.mp hn with rfl | hn
      · simp [isFunction] at hfunction
      · exact c.frames hn

/-! ## Declarations -/

/-- The declaration of a variable or of a name for a type. -/
lemma Declared.read {symbol : Symbol} {id? : Option SymbolId} {node : Node}
    (h : Declared ws symbol id? ws') (hparts : node.parts = []) (hfunction : node.isFunction = false)
    (htyped : symbol.type? ≠ none) (hsort : symbol.kind.sort ≠ .function)
    (hvalid : node.Valid ws'.toTables) (hnamed : id? ≠ none → node.Named ws'.symbols place.owner?)
    (hdeclared : ∀ id, id? = some id → ∀ owner, (if symbol.isVariableOf owner then [id] else []) =
      if owner = place.owner? then node.declared else []) :
    Read place ws [node] ws' := by
  have hvalids : ∀ n ∈ checkOrderAll [node], n.Valid ws'.toTables := by
    intro n hn
    rcases mem_checkOrderAll_singleton.mp hn with rfl | hn
    · exact hvalid
    · simp [hparts] at hn
  cases h with
  | refused hloud htables =>
    refine .loud hloud hvalids ?_
    intro i symbol' hi hget
    rw [congrArg Tables.symbols htables] at hget
    have := SymbolTable.lt_size_of_getElem? hget
    omega
  | added hquiet htypes hsymbols =>
    -- the symbol is the only new one
    have hnew : ∀ {i : Nat} {symbol' : Symbol}, ws.symbols.size ≤ i →
        ws'.symbols.entries[i]? = some symbol' → symbol' = symbol := by
      intro i symbol' hi hget
      rw [hsymbols] at hget
      rcases SymbolTable.add_getElem?_cases hget with ⟨-, rfl⟩ | ⟨hlt, -⟩
      · rfl
      · omega
    refine ⟨hvalids, ?_, fun _ => ⟨?_, ?_, ?_, ?_, ?_⟩⟩
    · intro i symbol' hi hget
      exact hnew hi hget ▸ htyped
    · simp only [List.mem_singleton, forall_eq]
      refine .intro (hnamed (by simp)) ?_ (by simp [hparts])
      intro part hpart
      have := statementParts_subset node hpart
      simp [hparts] at this
    · simp [hfunction]
    · rintro f hf ⟨symbol', hget, hsort'⟩
      exact absurd (hnew hf hget ▸ hsort') hsort
    · intro owner _
      rw [hsymbols, SymbolTable.locals_add, hdeclared _ rfl owner, declaredAll_cons,
        declaredAll_nil, List.append_nil]
    · intro loc f params body hn
      rcases mem_checkOrderAll_singleton.mp hn with rfl | hn
      · simp [isFunction] at hfunction
      · simp [hparts] at hn

/-- The declaration of a function, whose signature is recorded and whose type is known then.
Nothing else becomes a symbol. -/
lemma Declared.read_external {name : String} {id? : Option SymbolId} {loc : Location}
    (h : Declared ws (.placeholder name .function) id? ws₁)
    (hrest : Read place ws₁ [] ws₂) (hgrows : ws₁.Grows ws₂)
    (htyped : ∀ f ∈ id?, ws₂.symbols.HasTyped f) :
    Read place ws [.externDecl loc id?] ws₂ := by
  cases h with
  | refused hloud htables =>
    refine .loud (fun hquiet => hloud (hgrows.quiet hquiet)) ?_ ?_
    · simp [checkOrderAll, checkOrder, Valid]
    · intro i symbol hi hget
      exact hrest.typed (by rwa [congrArg Tables.symbols htables]) hget
  | added hquiet htypes hsymbols =>
    have hhas : ws₁.symbols.HasSort .function ⟨ws.symbols.size⟩ :=
      ⟨_, by rw [hsymbols]; exact SymbolTable.add_getElem?_size _ _, rfl⟩
    have hsize : ws₁.symbols.size = ws.symbols.size + 1 := by rw [hsymbols, SymbolTable.add_size]
    refine ⟨?_, ?_, fun hquiet₂ => ⟨?_, ?_, ?_, ?_, ?_⟩⟩
    · simp only [checkOrderAll, checkOrder, List.append_nil, List.mem_singleton, forall_eq]
      intro id hid
      cases hid
      exact hhas.mono hgrows.symbols
    · intro i symbol hi hget
      rcases Nat.lt_or_ge i ws₁.symbols.size with hlt | hge
      · obtain rfl : i = ws.symbols.size := by omega
        exact (htyped _ rfl).type_ne_none hget
      · exact hrest.typed hge hget
    · simp only [List.mem_singleton, forall_eq]
      exact .intro (by simp [Named]) (by simp [statementParts]) (by simp [parts])
    · simp [isFunction]
    · intro f hf hsort
      rcases Nat.lt_or_ge f.index ws₁.symbols.size with hlt | hge
      · -- the only function that is new
        obtain rfl : f = ⟨ws.symbols.size⟩ := congrArg SymbolId.mk (by omega)
        exact ⟨_, self_mem_checkOrderAll_singleton _, rfl⟩
      · obtain ⟨node, hnode, -⟩ := (hrest.clean hquiet₂).functions f hge hsort
        simp [checkOrderAll] at hnode
    · intro owner howner
      rw [(hrest.clean hquiet₂).locals owner fun f hf => by have := howner f hf; omega,
        hsymbols, SymbolTable.locals_add]
      simp [Symbol.placeholder, Symbol.isVariableOf, declared]
    · intro loc f params body hn
      simp [checkOrderAll, checkOrder] at hn

/-- The definition of a function.  Its parameters are variables that are declared before its
body. -/
lemma Declared.read_function {name : String} {id? : Option SymbolId} {loc : Location}
    {ids : List SymbolId} {body : List Node}
    (h : Declared ws (.placeholder name .function) id? ws₁)
    (hinner : Read (.body id?) ws₁ (ids.map (fun id => .varDecl loc (some id)) ++ body) ws₂)
    (hgrows : ws₁.Grows ws₂) (sound : ws.toTables.Sound)
    (houter : ws₂.Quiet → place = .topLevel ∧ ws.symbols.enclosing = [])
    (htyped : ∀ f ∈ id?, ws₂.symbols.HasTyped f) :
    Read place ws [.functionDef loc id? ids body] ws₂ := by
  have hbelow : ∀ n ∈ checkOrderAll body, n.Valid ws₂.toTables := by
    intro n hn
    exact hinner.valid n (by rw [checkOrderAll_append]; exact List.mem_append_right _ hn)
  have hparams : ∀ id ∈ ids, ws₂.symbols.HasSort .localVar id := by
    intro id hid
    have hmem : Node.varDecl loc (some id) ∈
        checkOrderAll (ids.map (fun id => .varDecl loc (some id)) ++ body) := by
      rw [mem_checkOrderAll]
      exact ⟨_, List.mem_append_left _ (List.mem_map_of_mem hid), self_mem_checkOrder _⟩
    exact hinner.valid _ hmem id rfl
  have hdeclared : declaredAll (ids.map (fun id => Node.varDecl loc (some id)) ++ body) =
      ids ++ declaredAll body := by
    simp [declaredAll_eq_flatMap, List.flatMap_map, declared]
  -- a refused declaration is a finding, after which only validity and types are claimed
  cases h with
  | refused hloud htables =>
    refine .loud (fun hquiet => hloud (hgrows.quiet hquiet)) ?_ ?_
    · intro n hn
      rcases mem_checkOrderAll_singleton.mp hn with rfl | hn
      · exact ⟨by simp, hparams⟩
      · exact hbelow n hn
    · intro i symbol hi hget
      exact hinner.typed (by rwa [congrArg Tables.symbols htables]) hget
  | added hquiet htypes hsymbols =>
    have hsize : ws₁.symbols.size = ws.symbols.size + 1 := by rw [hsymbols, SymbolTable.add_size]
    have hhas : ws₂.symbols.HasSort .function ⟨ws.symbols.size⟩ := by
      refine SymbolTable.HasSort.mono ⟨.placeholder name .function, ?_, rfl⟩ hgrows.symbols
      rw [hsymbols]
      exact SymbolTable.add_getElem?_size _ _
    have hbefore : ∀ owner, ws₁.symbols.locals owner = ws.symbols.locals owner := by
      intro owner
      rw [hsymbols, SymbolTable.locals_add]
      simp [Symbol.placeholder, Symbol.isVariableOf]
    refine ⟨?_, ?_, fun hquiet₂ => ?_⟩
    · intro n hn
      rcases mem_checkOrderAll_singleton.mp hn with rfl | hn
      · exact ⟨by rintro id ⟨⟩; exact hhas, hparams⟩
      · exact hbelow n hn
    · intro i symbol hi hget
      rcases Nat.lt_or_ge i ws₁.symbols.size with hlt | hge
      · obtain rfl : i = ws.symbols.size := by omega
        exact (htyped _ rfl).type_ne_none hget
      · exact hinner.typed hge hget
    · have c := hinner.clean hquiet₂
      obtain ⟨rfl, houtermost⟩ := houter hquiet₂
      -- an owner from before is another function
      have hself : ∀ (owner : Option SymbolId), (∀ f ∈ owner, f.index < ws.symbols.size) →
          owner ≠ some ⟨ws.symbols.size⟩ := by
        rintro owner howner rfl
        have := howner _ rfl
        simp at this
      refine ⟨?_, ?_, ?_, ?_, ?_⟩
      · simp only [List.mem_singleton, forall_eq]
        refine .intro (by simp [Named]) ?_ ?_
        · intro part hpart
          exact c.nested (Or.inl (by simp)) part (List.mem_append_right _ hpart)
        · intro part hpart
          exact c.fits part (List.mem_append_right _ hpart)
      · rintro (h | h)
        · exact absurd rfl h
        · exact absurd houtermost h
      · intro f hf hsort
        rcases Nat.lt_or_ge f.index ws₁.symbols.size with hlt | hge
        · obtain rfl : f = ⟨ws.symbols.size⟩ := congrArg SymbolId.mk (by omega)
          exact ⟨_, self_mem_checkOrderAll_singleton _, rfl⟩
        · obtain ⟨node, hnode, hfun⟩ := c.functions f hge hsort
          rw [checkOrderAll_append, List.mem_append] at hnode
          rcases hnode with hnode | hnode
          · -- a parameter defines no function
            obtain ⟨decl, hdecl, hnode⟩ := mem_checkOrderAll.mp hnode
            obtain ⟨id, -, rfl⟩ := List.mem_map.mp hdecl
            simp only [checkOrder, List.mem_singleton] at hnode
            simp [hnode, function?] at hfun
          · exact ⟨node, mem_checkOrderAll_singleton.mpr (Or.inr hnode), hfun⟩
      · intro owner howner
        rw [c.locals owner fun f hf => by have := howner f hf; omega, hbefore]
        simp [Place.owner?, hself owner howner, declared]
      · intro loc' f params body' hn
        rcases mem_checkOrderAll_singleton.mp hn with heq | hn
        · cases heq
          refine ⟨Nat.le_refl _, hhas.lt_size, ?_⟩
          have hnone : ws.symbols.locals (some ⟨ws.symbols.size⟩) = [] :=
            SymbolTable.locals_eq_nil sound (Nat.le_refl _)
          rw [c.locals _ (by simp [hsize]), hbefore, hnone, Place.owner?, if_pos rfl, hdeclared,
            List.nil_append]
        · obtain ⟨hge, hlt, hlocals⟩ := c.frames (by
            rw [checkOrderAll_append]
            exact List.mem_append_right _ hn)
          exact ⟨by omega, hlt, hlocals⟩

end Reading

end ParenC
