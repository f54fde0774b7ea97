/-
What the actions do that reading is made of.

A declaration adds one symbol to the table and one name to the current scope, or complains and
changes nothing else.  A scope of its own leaves the names as it found them, whatever happens
inside.
-/
import ParenC.Proofs.Workspace
import ParenC.Reading.Form

namespace ParenC

namespace SymbolTable

variable {symbols : SymbolTable}

/-- The table with one more symbol, declared in the current scope. -/
def add (symbols : SymbolTable) (symbol : Symbol) : SymbolTable :=
  { symbols with
    entries := symbols.entries.push symbol
    scope := (symbol.name, ⟨symbols.size⟩) :: symbols.scope }

@[simp] lemma add_size (symbols : SymbolTable) (symbol : Symbol) :
    (symbols.add symbol).size = symbols.size + 1 := by
  simp [add, size]

@[simp] lemma add_enclosing (symbols : SymbolTable) (symbol : Symbol) :
    (symbols.add symbol).enclosing = symbols.enclosing := rfl

lemma add_getElem? (symbols : SymbolTable) (symbol : Symbol) (i : Nat) :
    (symbols.add symbol).entries[i]? =
      if i = symbols.size then some symbol else symbols.entries[i]? :=
  Array.getElem?_push

lemma add_getElem?_size (symbols : SymbolTable) (symbol : Symbol) :
    (symbols.add symbol).entries[symbols.size]? = some symbol := by
  simp [add_getElem?]

lemma add_extends (symbols : SymbolTable) (symbol : Symbol) :
    (symbols.add symbol).Extends symbols := by
  intro i old h
  refine ⟨old, ?_, .refl old⟩
  rw [add_getElem?, if_neg (by have := lt_size_of_getElem? h; omega)]
  exact h

/-- Every entry of the larger table is the new symbol or an old one. -/
lemma add_getElem?_cases {symbol new : Symbol} {i : Nat}
    (h : (symbols.add symbol).entries[i]? = some new) :
    (i = symbols.size ∧ new = symbol) ∨ (i < symbols.size ∧ symbols.entries[i]? = some new) := by
  rw [add_getElem?] at h
  split at h
  · cases h
    exact Or.inl ⟨‹_›, rfl⟩
  · exact Or.inr ⟨lt_size_of_getElem? h, h⟩

lemma locals_add (symbols : SymbolTable) (symbol : Symbol) (owner : Option SymbolId) :
    (symbols.add symbol).locals owner =
      symbols.locals owner ++ if symbol.isVariableOf owner then [⟨symbols.size⟩] else [] := by
  simp only [locals, add, Array.toList_push, localsFrom_append, localsFrom, Nat.zero_add,
    Array.length_toList, size]

lemma sound_add {tables : Tables} {symbol : Symbol} (sound : tables.Sound)
    (h : symbol.Sound tables.types (tables.symbols.size + 1)) :
    ({ tables with symbols := tables.symbols.add symbol } : Tables).Sound where
  types := sound.types
  symbol := by
    intro i new hnew
    simp only [add_size]
    rcases add_getElem?_cases hnew with ⟨-, rfl⟩ | ⟨-, hold⟩
    · exact h
    · exact (sound.symbol hold).mono (.refl _) (by omega)
  scopes := by
    intro scope hscope pair hpair
    simp only [scopes, add, List.mem_cons] at hscope
    simp only [add_size]
    rcases hscope with rfl | hscope
    · rcases List.mem_cons.mp hpair with rfl | hpair
      · simp
      · have := sound.scopes _ (by simp [scopes]) pair hpair
        omega
    · have := sound.scopes scope (by simp [scopes, hscope]) pair hpair
      omega

/-- The table with another symbol in the place of an old one. -/
def replace (symbols : SymbolTable) (id : SymbolId) (symbol : Symbol) : SymbolTable :=
  { symbols with entries := symbols.entries.setIfInBounds id.index symbol }

@[simp] lemma replace_size (symbols : SymbolTable) (id : SymbolId) (symbol : Symbol) :
    (symbols.replace id symbol).size = symbols.size := by
  simp [replace, size]

lemma replace_getElem? {id : SymbolId} (hid : id.index < symbols.size) (symbol : Symbol)
    (i : Nat) : (symbols.replace id symbol).entries[i]? =
      if i = id.index then some symbol else symbols.entries[i]? := by
  simp only [replace, Array.getElem?_setIfInBounds]
  by_cases h : id.index = i
  · subst h
    simp [show id.index < symbols.entries.size from hid]
  · rw [if_neg h, if_neg (fun h' => h h'.symm)]

/-- A symbol that was just added can be replaced at once. -/
lemma add_replace (symbols : SymbolTable) (old new : Symbol) (hname : new.name = old.name) :
    (symbols.add old).replace ⟨symbols.size⟩ new = symbols.add new := by
  have hentries : (symbols.entries.push old).setIfInBounds symbols.entries.size new =
      symbols.entries.push new := by
    apply Array.ext_getElem?
    intro i
    simp only [Array.getElem?_setIfInBounds, Array.getElem?_push, Array.size_push]
    grind
  simp only [replace, add, size, hentries, hname]

lemma locals_replace {id : SymbolId} {old new : Symbol} {owner : Option SymbolId}
    (hold : symbols.entries[id.index]? = some old)
    (hsame : new.isVariableOf owner = old.isVariableOf owner) :
    (symbols.replace id new).locals owner = symbols.locals owner := by
  have hid := lt_size_of_getElem? hold
  refine localsFrom_congr ?_ 0
  apply List.ext_getElem?
  intro i
  simp only [List.getElem?_map, Array.getElem?_toList, replace_getElem? hid]
  split
  · rename_i h
    rw [h, hold]
    simp [hsame]
  · rfl

lemma declare_eq {name : String} {sort : SymbolSort} (h : symbols.scope.lookup name = none) :
    symbols.declare name sort =
      some (⟨symbols.size⟩, symbols.add (Symbol.placeholder name sort)) := by
  have hname : (Symbol.placeholder name sort).name = name := by cases sort <;> rfl
  simp only [declare, h, add, hname]

lemma modify_eq {id : SymbolId} {old : Symbol} (h : symbols.entries[id.index]? = some old)
    (change : Symbol → Symbol) :
    symbols.modify id change = .ok (symbols.replace id (change old)) := by
  simp [SymbolTable.modify, get_eq_ok_iff.mpr h, bind, Except.bind, pure, Except.pure, replace]

lemma set_eq {id : SymbolId} {old new : Symbol} (h : symbols.entries[id.index]? = some old)
    (hsort : old.kind.sort = new.kind.sort) :
    symbols.set id new = .ok (symbols.replace id new) := by
  simp [SymbolTable.set, get_eq_ok_iff.mpr h, hsort, bind, Except.bind, modify_eq h]

/-- A symbol that was just added can be set at once. -/
lemma set_added (symbols : SymbolTable) {old new : Symbol} (hname : new.name = old.name)
    (hsort : old.kind.sort = new.kind.sort) :
    (symbols.add old).set ⟨symbols.size⟩ new = .ok (symbols.add new) := by
  have hget : (symbols.add old).entries[(⟨symbols.size⟩ : SymbolId).index]? = some old :=
    add_getElem?_size symbols old
  rw [set_eq hget hsort, add_replace symbols old new hname]

/-- A symbol that was just added can be given its type at once. -/
lemma setType_added (symbols : SymbolTable) (old : Symbol) (type? : Option TypeId) :
    (symbols.add old).setType ⟨symbols.size⟩ type? =
      .ok (symbols.add { old with type? := type? }) := by
  have hget : (symbols.add old).entries[(⟨symbols.size⟩ : SymbolId).index]? = some old :=
    add_getElem?_size symbols old
  rw [setType, modify_eq hget, add_replace symbols old { old with type? := type? } rfl]

end SymbolTable

namespace Reading

open CompileM Workspace

variable {α : Type} {ws : Workspace}

/-! ## Tokens -/

lemma log_does {event : Event} :
    Does (log event) ws fun _ ws' => ws'.toTables = ws.toTables ∧ (ws'.Quiet ↔ ws.Quiet) :=
  .of_ok rfl (.of_journal id) ⟨rfl, Iff.rfl⟩

lemma expectAtom_does {kind : TokenKind} {datum : Datum} :
    Does (expectAtom kind datum) ws fun _ ws' => ws' = ws := by
  cases datum with
  | atom token =>
    unfold expectAtom
    dsimp only
    split
    · exact .pure rfl
    · exact .refuse
  | list opening items closing => exact .refuse

lemma expectEnd_does {rest : List Datum} {closing : Token} :
    Does (expectEnd rest closing) ws fun _ ws' => ws' = ws := by
  cases rest with
  | nil =>
    unfold expectEnd
    dsimp only
    split
    · exact .pure rfl
    · exact .refuse
  | cons datum rest => exact .refuse

/-! ## Tables -/

lemma registerType_does {add : TypeTable → Except Defect (TypeId × TypeTable)}
    (h : ws.types.Sound → ∃ id types, add ws.types = .ok (id, types) ∧ types.Sound ∧
      types.Extends ws.types ∧ types.Has id) (sound : ws.toTables.Sound) :
    Does (registerType add) ws fun id ws' =>
      ws'.types.Has id ∧ ws'.symbols = ws.symbols ∧ (ws'.Quiet ↔ ws.Quiet) := by
  obtain ⟨type, types, hadd, hsound, hext, hhas⟩ := h sound.types
  have hrun : registerType add ws = .ok type { ws with types } := by
    simp only [registerType, bind, EStateM.bind, CompileM.get_run, hadd]
    rfl
  refine .of_ok hrun ⟨⟨hext, .refl _, rfl⟩, ?_, id⟩ ⟨hhas, rfl, Iff.rfl⟩
  intro _
  exact ⟨hsound, fun hget => (sound.symbol hget).mono hext (Nat.le_refl _), sound.scopes⟩

lemma symbolAt_does {id : SymbolId} {symbol : Symbol}
    (h : ws.symbols.entries[id.index]? = some symbol) :
    Does (symbolAt id) ws fun got ws' => got = symbol ∧ ws' = ws :=
  .get (.promised (SymbolTable.get_eq_ok_iff.mpr h) ⟨rfl, rfl⟩)

/-- What a declaration leaves behind: one more symbol, or a finding. -/
inductive Declared (ws : Workspace) (symbol : Symbol) : Option SymbolId → Workspace → Prop
  /-- The scope has the name already. -/
  | refused {ws' : Workspace} (hloud : ¬ ws'.Quiet) (htables : ws'.toTables = ws.toTables) :
      Declared ws symbol none ws'
  /-- The name is new. -/
  | added {ws' : Workspace} (hquiet : ws'.Quiet → ws.Quiet) (htypes : ws'.types = ws.types)
      (hsymbols : ws'.symbols = ws.symbols.add symbol)
      (hnew : ws.symbols.scope.lookup symbol.name = none) :
      Declared ws symbol (some ⟨ws.symbols.size⟩) ws'

/-- Run on `ws`, the action declares the symbol under the name that the token gives, or complains
that the scope has the name already. -/
structure Declares (act : CompileM (Option SymbolId)) (ws : Workspace) (name : Token)
    (symbol : Symbol) : Prop where
  /-- The name is that of the token. -/
  name_eq : symbol.name = name.text
  /-- The scope has the name already. -/
  refused : ∀ {id}, ws.symbols.scope.lookup name.text = some id → act ws = .ok none { ws with
    journal := ws.journal.report name.location (Complaint.redeclared name.text).message }
  /-- The name is new. -/
  added : ws.symbols.scope.lookup name.text = none → act ws = .ok (some ⟨ws.symbols.size⟩) { ws with
    symbols := ws.symbols.add symbol
    journal := ws.journal.log (.declared symbol.kind.sort name.text ⟨ws.symbols.size⟩
      ws.symbols.enclosing.length) }

/-- Declare a name and do the rest of the declaration at once. -/
lemma declare_then_declares {name : Token} {sort : SymbolSort} {symbol : Symbol}
    (act : Option SymbolId → CompileM Unit) (hname : symbol.name = name.text)
    (hsort : symbol.kind.sort = sort) (hnone : act none = pure ())
    (hsome : ∀ ws' : Workspace,
      ws'.symbols = ws.symbols.add (Symbol.placeholder name.text sort) →
      act (some ⟨ws.symbols.size⟩) ws' = .ok () { ws' with symbols := ws.symbols.add symbol }) :
    Declares (do let id? ← declare name sort; act id?; return id?) ws name symbol where
  name_eq := hname
  refused hlookup := by
    have hdeclare : ws.symbols.declare name.text sort = none := by
      simp [SymbolTable.declare, hlookup]
    simp only [declare, bind, EStateM.bind, CompileM.get_run, hdeclare]
    simp only [complain, report, CompileM.modify_run, pure, EStateM.pure, hnone]
  added hlookup := by
    simp only [declare, bind, EStateM.bind, CompileM.get_run, SymbolTable.declare_eq hlookup,
      CompileM.modify_run, log, pure, EStateM.pure]
    rw [hsome _ rfl, hsort]

lemma Declares.does {act : CompileM (Option SymbolId)} {name : Token} {symbol : Symbol}
    (h : Declares act ws name symbol) (sound : ws.toTables.Sound)
    (hsymbol : symbol.Sound ws.types (ws.symbols.size + 1)) :
    Does act ws (Declared ws symbol) := by
  cases hlookup : ws.symbols.scope.lookup name.text with
  | some id =>
    refine .of_ok (h.refused hlookup) (.of_journal (by simp [Journal.report])) ?_
    exact .refused (by simp [Quiet, Journal.report]) rfl
  | none =>
    refine .of_ok (h.added hlookup) ⟨⟨.refl _, SymbolTable.add_extends _ _, rfl⟩, ?_, id⟩ ?_
    · intro _
      exact SymbolTable.sound_add sound hsymbol
    · exact .added id rfl rfl (h.name_eq ▸ hlookup)

/-- Where a construct stands is known to the tables; a function without a symbol was found
wrong. -/
def PlaceSound (place : Place) (ws : Workspace) : Prop :=
  match place with
  | .topLevel => True
  | .body none => ¬ ws.Quiet
  | .body (some f) => ws.symbols.HasSort .function f

lemma PlaceSound.mono {place : Place} {ws' : Workspace} (h : PlaceSound place ws)
    (hgrows : ws.Grows ws') : PlaceSound place ws' := by
  match place, h with
  | .topLevel, h => exact h
  | .body none, h => exact fun hquiet => h (hgrows.quiet hquiet)
  | .body (some f), h => exact SymbolTable.HasSort.mono h hgrows.symbols

lemma PlaceSound.owner_lt {place : Place} (h : PlaceSound place ws) {f : SymbolId}
    (howner : place.owner? = some f) : f.index < ws.symbols.size := by
  match place, h with
  | .body (some g), h =>
    cases howner
    exact SymbolTable.HasSort.lt_size h

/-- The symbol of a variable that is declared at a place. -/
def variableSymbol (place : Place) (name : String) (type : TypeId) : Symbol :=
  ⟨name, some type, .localVar none place.owner?⟩

lemma declareVariable_declares (place : Place) (name : Token) (type : TypeId) :
    Declares (declareVariable place name type) ws name (variableSymbol place name.text type) := by
  let act : Option SymbolId → CompileM Unit := fun id? => id?.elim (pure ())
    fun id => changeSymbols (·.set id (variableSymbol place name.text type))
  have hrewrite : declareVariable place name type =
      (do let id? ← declare name .localVar; act id?; return id?) := by
    unfold declareVariable
    congr 1
    funext id?
    cases id? <;> rfl
  rw [hrewrite]
  refine declare_then_declares act rfl rfl rfl ?_
  intro ws' hws'
  have hset := SymbolTable.set_added ws.symbols
    (show (variableSymbol place name.text type).name =
      (Symbol.placeholder name.text .localVar).name from rfl) rfl
  simp only [act, Option.elim_some, changeSymbols, bind, EStateM.bind, CompileM.get_run, hws', hset]
  rfl

lemma declareVariable_does {place : Place} {name : Token} {type : TypeId}
    (sound : ws.toTables.Sound) (hplace : PlaceSound place ws) (htype : ws.types.Has type) :
    Does (declareVariable place name type) ws
      (Declared ws (variableSymbol place name.text type)) := by
  refine (declareVariable_declares place name type).does sound ⟨?_, ?_, ?_, ?_⟩
  · rintro _ ⟨⟩
    exact htype
  · simp [variableSymbol]
  · simp [variableSymbol]
  · intro offset f hkind
    simp only [variableSymbol, SymbolKind.localVar.injEq] at hkind
    have := hplace.owner_lt hkind.2
    omega

/-- The symbol of a name for a type. -/
def definitionSymbol (name : String) (type : TypeId) : Symbol := ⟨name, some type, .type⟩

lemma declareDefinition_declares (name : Token) (type : TypeId) :
    Declares (declareDefinition name type) ws name (definitionSymbol name.text type) := by
  let act : Option SymbolId → CompileM Unit := fun id? => id?.elim (pure ())
    fun id => changeSymbols (·.setType id (some type))
  have hrewrite : declareDefinition name type =
      (do let id? ← declare name .type; act id?; return id?) := by
    unfold declareDefinition
    congr 1
    funext id?
    cases id? <;> rfl
  rw [hrewrite]
  refine declare_then_declares act rfl rfl rfl ?_
  intro ws' hws'
  have hset := SymbolTable.setType_added ws.symbols (.placeholder name.text .type) (some type)
  simp only [act, Option.elim_some, changeSymbols, bind, EStateM.bind, CompileM.get_run, hws', hset]
  rfl

lemma declareDefinition_does {name : Token} {type : TypeId} (sound : ws.toTables.Sound)
    (htype : ws.types.Has type) :
    Does (declareDefinition name type) ws (Declared ws (definitionSymbol name.text type)) := by
  refine (declareDefinition_declares name type).does sound ⟨?_, by simp [definitionSymbol],
    by simp [definitionSymbol], by simp [definitionSymbol]⟩
  rintro _ ⟨⟩
  exact htype

lemma declareFunction_declares (name : Token) :
    Declares (declare name .function) ws name (Symbol.placeholder name.text .function) := by
  have hrewrite : declare name .function =
      (do let id? ← declare name .function; (fun _ => pure () : _ → CompileM Unit) id?
          return id?) := by
    funext ws
    simp only [bind, EStateM.bind, pure, EStateM.pure]
    cases declare name .function ws <;> rfl
  rw [hrewrite]
  refine declare_then_declares _ rfl rfl rfl ?_
  intro ws' hws'
  rw [← hws']
  rfl

lemma declareFunction_does {name : Token} (sound : ws.toTables.Sound) :
    Does (declare name .function) ws (Declared ws (Symbol.placeholder name.text .function)) := by
  refine (declareFunction_declares name).does sound ⟨?_, ?_, ?_, ?_⟩
  · simp [Symbol.placeholder]
  · simp [Symbol.placeholder, SymbolKind.sort]
  · simp [Symbol.placeholder]
  · simp [Symbol.placeholder]

/-- The symbol of a function whose signature is known. -/
def functionSymbol (name : String) (params : List (Token × TypeId)) (result : TypeId)
    (prototyped external : Bool) : Symbol :=
  ⟨name, some result, .function (params.map fun (param, type) => ⟨param.text, type⟩) prototyped
    external⟩

/-- Record the signature of a function. -/
lemma setSignature_does {id : SymbolId} {name : Token} {params : List (Token × TypeId)}
    {result : TypeId} {prototyped external : Bool}
    (hid : ws.symbols.HasFunction name.text id)
    (hparams : ∀ param ∈ params, ws.types.Has param.2) (hresult : ws.types.Has result) :
    Does (setSignature (some id) name params result prototyped external) ws fun _ ws' =>
      ws'.symbols.size = ws.symbols.size ∧
      (∀ owner, ws'.symbols.locals owner = ws.symbols.locals owner) ∧
      ws'.symbols.HasTyped id := by
  obtain ⟨old, hold, hsort, hname⟩ := hid
  let new := functionSymbol name.text params result prototyped external
  have hid := SymbolTable.lt_size_of_getElem? hold
  have hset : ws.symbols.set id new = .ok (ws.symbols.replace id new) :=
    SymbolTable.set_eq hold hsort
  have hrun : setSignature (some id) name params result prototyped external ws =
      .ok () { ws with symbols := ws.symbols.replace id new } :=
    CompileM.bind_eq_ok.mpr ⟨ws, ws, rfl,
      CompileM.bind_eq_ok.mpr ⟨_, ws, CompileM.promised_eq_ok.mpr ⟨hset, rfl⟩, rfl⟩⟩
  -- the entry keeps its sort and its name, and gets a type
  have hext : (ws.symbols.replace id new).Extends ws.symbols := by
    intro i symbol hget
    rw [SymbolTable.replace_getElem? hid]
    split
    · rename_i hi
      rw [hi, hold] at hget
      cases hget
      exact ⟨new, rfl, Or.inr ⟨hsort, rfl, hname.symm, by simp [new, functionSymbol]⟩⟩
    · exact ⟨symbol, hget, .refl symbol⟩
  have hlocals : ∀ owner, (ws.symbols.replace id new).locals owner = ws.symbols.locals owner := by
    intro owner
    refine SymbolTable.locals_replace hold ?_
    unfold Symbol.isVariableOf
    cases hkind : old.kind <;> simp_all [new, functionSymbol, SymbolKind.sort]
  have htyped : (ws.symbols.replace id new).HasTyped id :=
    ⟨new, by simp [SymbolTable.replace_getElem? hid], by simp [new, functionSymbol]⟩
  refine .of_ok hrun ⟨⟨.refl _, hext, rfl⟩, ?_, fun h => h⟩
    ⟨SymbolTable.replace_size _ _ _, hlocals, htyped⟩
  intro sound
  refine ⟨sound.types, ?_, ?_⟩
  · intro i symbol hget
    simp only [SymbolTable.replace_size]
    rw [SymbolTable.replace_getElem? hid] at hget
    split at hget
    · cases hget
      refine ⟨?_, by simp [new, functionSymbol], ?_, by simp [new, functionSymbol]⟩
      · rintro _ ⟨⟩
        exact hresult
      · intro params' prototyped' external' hkind param hparam
        simp only [new, functionSymbol, SymbolKind.function.injEq] at hkind
        rw [← hkind.1] at hparam
        obtain ⟨pair, hpair, rfl⟩ := List.mem_map.mp hparam
        exact hparams pair hpair
    · exact sound.symbol hget
  · intro scope hscope pair hpair
    simp only [SymbolTable.replace_size]
    exact sound.scopes scope hscope pair hpair

/-! ## Scopes -/

/-- The workspace with a new scope open. -/
def opened (ws : Workspace) : Workspace := { ws with symbols := ws.symbols.openScope }

/-- The workspace `ws'` with the scopes of `ws`. -/
def rescoped (ws' ws : Workspace) : Workspace :=
  { ws' with symbols := { ws'.symbols with
      scope := ws.symbols.scope, enclosing := ws.symbols.enclosing } }

lemma opened_sound (sound : ws.toTables.Sound) : (opened ws).toTables.Sound := by
  refine ⟨sound.types, sound.symbol, ?_⟩
  intro scope hscope pair hpair
  simp only [opened, SymbolTable.openScope, SymbolTable.scopes, List.mem_cons] at hscope
  rcases hscope with rfl | hscope
  · simp at hpair
  · exact sound.scopes scope (by simpa [SymbolTable.scopes] using hscope) pair hpair

lemma rescoped_kept {ws' : Workspace} (h : (opened ws).Kept ws') :
    ws.Kept (rescoped ws' ws) :=
  ⟨h.types, h.symbols, rfl⟩

lemma rescoped_grows {ws' : Workspace} (h : (opened ws).Grows ws') :
    ws.Grows (rescoped ws' ws) where
  toKept := rescoped_kept h.toKept
  sound sound := by
    have sound' := h.sound (opened_sound sound)
    refine ⟨sound'.types, sound'.symbol, ?_⟩
    intro scope hscope pair hpair
    have hlt := sound.scopes scope hscope pair hpair
    have hle : ws.symbols.size ≤ ws'.symbols.size := h.symbols.size_le
    exact Nat.lt_of_lt_of_le hlt hle
  quiet := h.quiet

/-- Closing the scope that was opened brings the scopes of before back. -/
lemma closeScopeAt_opened {ws' : Workspace} (h : (opened ws).Kept ws') :
    ws'.symbols.closeScopeAt ws.symbols.openScope.depth = .ok (rescoped ws' ws).symbols := by
  have henclosing : ws'.symbols.enclosing = ws.symbols.scope :: ws.symbols.enclosing :=
    h.enclosing
  have hdepth : ws'.symbols.depth = ws.symbols.openScope.depth := by
    simp [SymbolTable.depth, SymbolTable.scopes, SymbolTable.openScope, henclosing]
  rw [SymbolTable.closeScopeAt, if_pos hdepth]
  simp [SymbolTable.closeScope, henclosing, rescoped]

/-- Something done inside a scope of its own. -/
lemma withScope_does {act : CompileM α} {post : α → Workspace → Prop}
    (h : Does act (opened ws) post) :
    Does (withScope act) ws fun a ws' => ∃ inner, post a inner ∧ ws' = rescoped inner ws := by
  unfold Does at h ⊢
  rcases hact : act (opened ws) with ⟨a, ws'⟩ | ⟨e | d, ws'⟩
  · rw [hact] at h
    have hrun : withScope act ws = .ok a (rescoped ws' ws) := by
      simp only [opened] at hact
      simp only [withScope, hact, closeScopeAt_opened h.1.toKept]
      rfl
    rw [hrun]
    exact ⟨rescoped_grows h.1, ws', h.2, rfl⟩
  · rw [hact] at h
    have hrun : withScope act ws = .error (.error e) (rescoped ws' ws) := by
      simp only [opened] at hact
      simp only [withScope, hact, closeScopeAt_opened h]
      rfl
    rw [hrun]
    exact rescoped_kept h
  · rw [hact] at h
    exact h.elim

end Reading

end ParenC
