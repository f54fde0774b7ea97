/-
What happens to a workspace while a program is read, change by change.

`Step` says once what a single change can do: open or close a scope, declare a name, record the
signature of a function, add a type, record a finding, or note an event.  A history is a list of
changes that follow each other.  What one change keeps is kept by a whole history: numbers stay
the numbers of the same types and symbols, a symbol whose type is known stays as it is, and every
new symbol has its declaration in the journal.
-/
import ParenC.Proofs.Declared
import ParenC.Proofs.Reading.Spelling

namespace ParenC

/-- A change of the workspace. -/
inductive Change
  /-- A scope is opened. -/
  | enter
  /-- The innermost scope is closed. -/
  | leave
  /-- A symbol is added under its name, which is declared in the innermost scope. -/
  | declare (symbol : Symbol)
  /-- The signature of a function becomes known. -/
  | sign (id : SymbolId) (symbol : Symbol)
  /-- A type is added. -/
  | register (info : TypeInfo)
  /-- A finding is recorded. -/
  | report (loc : Location) (message : String)
  /-- An event is noted that does not tell of a declaration. -/
  | note (event : Event)

/-- The symbol is a name for a type of the same name. -/
def Symbol.Defines (types : TypeTable) (symbol : Symbol) : Prop :=
  ∃ type info target, symbol.type? = some type ∧ types.entries[type.index]? = some info ∧
    info.shape = .definition symbol.name target

/-- What a symbol is when its name is declared: the type of a variable is known, a name for a type
is that of a definition, and of a function nothing but the name is known. -/
def Symbol.Declarable (types : TypeTable) (symbol : Symbol) : Prop :=
  match symbol.kind with
  | .localVar .. => symbol.type? ≠ none
  | .function .. => symbol = .placeholder symbol.name .function
  | .type => symbol.Defines types

/-- What a function is when its signature is known.  Only a function that is defined elsewhere can
do without a prototype. -/
def Symbol.Signed (symbol : Symbol) : Prop :=
  symbol.type? ≠ none ∧ ∃ params prototyped external,
    symbol.kind = .function params prototyped external ∧ (prototyped = false → external = true)

/-- The change leads from one workspace to another one. -/
inductive Step : Workspace → Change → Workspace → Prop
  | enter {ws : Workspace} : Step ws .enter { ws with symbols := ws.symbols.openScope }
  | leave {ws : Workspace} {symbols : SymbolTable} (hclose : ws.symbols.closeScope = .ok symbols) :
      Step ws .leave { ws with symbols }
  | declare {ws : Workspace} {symbol : Symbol}
      (hnew : ws.symbols.scope.lookup symbol.name = none)
      (hsymbol : symbol.Declarable ws.types) :
      Step ws (.declare symbol) { ws with
        symbols := ws.symbols.add symbol
        journal := ws.journal.log (.declared symbol.kind.sort symbol.name ⟨ws.symbols.size⟩
          ws.symbols.enclosing.length) }
  | sign {ws : Workspace} {id : SymbolId} {symbol : Symbol}
      (hold : ws.symbols.entries[id.index]? = some (.placeholder symbol.name .function))
      (hsymbol : symbol.Signed) :
      Step ws (.sign id symbol) { ws with symbols := ws.symbols.replace id symbol }
  | register {ws : Workspace} {info : TypeInfo} :
      Step ws (.register info) { ws with types := (ws.types.register info).2 }
  | report {ws : Workspace} {loc : Location} {message : String} :
      Step ws (.report loc message) { ws with journal := ws.journal.report loc message }
  | note {ws : Workspace} {event : Event} (hevent : event.declaration? = none) :
      Step ws (.note event) { ws with journal := ws.journal.log event }

/-- The changes lead from one workspace to another one, one after the other. -/
inductive Evolves : Workspace → List Change → Workspace → Prop
  | nil {ws : Workspace} : Evolves ws [] ws
  | cons {ws ws₁ ws' : Workspace} {change : Change} {changes : List Change}
      (hstep : Step ws change ws₁) (hrest : Evolves ws₁ changes ws') :
      Evolves ws (change :: changes) ws'

/-! ## Histories -/

section

variable {ws ws₁ ws₂ ws' : Workspace} {change : Change} {changes xs ys : List Change}

/-- A change leads to one workspace only. -/
lemma Step.unique (h₁ : Step ws change ws₁) (h₂ : Step ws change ws₂) : ws₁ = ws₂ := by
  cases h₁ with
  | leave hclose =>
    cases h₂ with
    | leave hclose' =>
      rw [hclose] at hclose'
      cases hclose'
      rfl
  | _ =>
    cases h₂
    rfl

lemma Evolves.one (h : Step ws change ws') : Evolves ws [change] ws' := .cons h .nil

lemma evolves_append :
    Evolves ws (xs ++ ys) ws' ↔ ∃ mid, Evolves ws xs mid ∧ Evolves mid ys ws' := by
  induction xs generalizing ws with
  | nil =>
    refine ⟨fun h => ⟨ws, .nil, h⟩, ?_⟩
    rintro ⟨mid, hnil, h⟩
    cases hnil
    exact h
  | cons change xs ih =>
    constructor
    · intro h
      cases h with
      | cons hstep hrest =>
        obtain ⟨mid, hxs, hys⟩ := ih.mp hrest
        exact ⟨mid, .cons hstep hxs, hys⟩
    · rintro ⟨mid, hxs, hys⟩
      cases hxs with
      | cons hstep hrest => exact .cons hstep (ih.mpr ⟨mid, hrest, hys⟩)

lemma Evolves.append (h₁ : Evolves ws xs ws₁) (h₂ : Evolves ws₁ ys ws₂) :
    Evolves ws (xs ++ ys) ws₂ :=
  evolves_append.mpr ⟨ws₁, h₁, h₂⟩

/-! ### What stays -/

/-- Where a symbol comes from: it was there before, or there was a function of its name without a
signature, or it was declared just now. -/
lemma Step.symbol (h : Step ws change ws') {i : Nat} {new : Symbol}
    (hnew : ws'.symbols.entries[i]? = some new) :
    ws.symbols.entries[i]? = some new ∨
    (ws.symbols.entries[i]? = some (.placeholder new.name .function) ∧ new.Signed) ∨
    (i = ws.symbols.size ∧ new.Declarable ws.types) := by
  cases h with
  | enter | register | report | note => exact Or.inl hnew
  | leave hclose =>
    obtain ⟨outer, rest, -, rfl⟩ := SymbolTable.closeScope_eq_ok.mp hclose
    exact Or.inl hnew
  | declare hlookup hsymbol =>
    rcases SymbolTable.add_getElem?_cases hnew with ⟨hi, rfl⟩ | ⟨-, hold⟩
    · exact Or.inr (Or.inr ⟨hi, hsymbol⟩)
    · exact Or.inl hold
  | @sign _ id hold hsymbol =>
    rw [SymbolTable.replace_getElem? (SymbolTable.lt_size_of_getElem? hold)] at hnew
    split at hnew
    · rename_i hi
      cases hnew
      exact Or.inr (Or.inl ⟨hi ▸ hold, hsymbol⟩)
    · exact Or.inl hnew

lemma Step.types_extends (h : Step ws change ws') : ws'.types.Extends ws.types := by
  cases h with
  | register => exact TypeTable.register_extends _ _
  | _ => exact .refl _

lemma Step.size_le (h : Step ws change ws') : ws.symbols.size ≤ ws'.symbols.size := by
  cases h with
  | leave hclose =>
    obtain ⟨outer, rest, -, rfl⟩ := SymbolTable.closeScope_eq_ok.mp hclose
    exact Nat.le_refl _
  | declare =>
    rw [SymbolTable.add_size]
    omega
  | sign =>
    rw [SymbolTable.replace_size]
  | _ => exact Nat.le_refl _

lemma Step.diagnostics_le (h : Step ws change ws') :
    ws.journal.diagnostics.size ≤ ws'.journal.diagnostics.size := by
  cases h with
  | report => simp [Journal.report]
  | _ => exact Nat.le_refl _

/-- What becomes of a symbol. -/
lemma Step.later (h : Step ws change ws') {i : Nat} {old : Symbol}
    (hold : ws.symbols.entries[i]? = some old) : ∃ new, ws'.symbols.entries[i]? = some new ∧
      (new = old ∨ (old = .placeholder new.name .function ∧ new.Signed)) := by
  have hi := SymbolTable.lt_size_of_getElem? hold
  have hlt : i < ws'.symbols.entries.size := Nat.lt_of_lt_of_le hi h.size_le
  have hnew := Array.getElem?_eq_getElem hlt
  refine ⟨_, hnew, ?_⟩
  rcases h.symbol hnew with hsame | ⟨hplaceholder, hsigned⟩ | ⟨hlast, -⟩
  · exact Or.inl (Option.some.inj (hsame.symm.trans hold))
  · exact Or.inr ⟨Option.some.inj (hold.symm.trans hplaceholder), hsigned⟩
  · omega

/-- Types and symbols keep their numbers, and a symbol whose type is known does not change. -/
lemma Step.keeps (h : Step ws change ws') : ws'.toTables.Keeps ws.toTables := by
  refine ⟨h.types_extends, fun i old hold => ?_⟩
  obtain ⟨new, hnew, rfl | ⟨rfl, -⟩⟩ := h.later hold
  · exact ⟨new, hnew, rfl, fun _ => rfl⟩
  · exact ⟨new, hnew, rfl, fun htyped => absurd rfl htyped⟩

/-- No symbol changes its sort. -/
lemma Step.symbols_extends (h : Step ws change ws') : ws'.symbols.Extends ws.symbols := by
  intro i old hold
  obtain ⟨new, hnew, rfl | ⟨rfl, htyped, params, prototyped, external, hkind, -⟩⟩ := h.later hold
  · exact ⟨new, hnew, .refl new⟩
  · exact ⟨new, hnew, Or.inr ⟨rfl, by rw [hkind]; rfl, rfl, htyped⟩⟩

namespace Evolves

lemma keeps (h : Evolves ws changes ws') : ws'.toTables.Keeps ws.toTables := by
  induction h with
  | nil => exact .refl _
  | cons hstep _ ih => exact ih.trans hstep.keeps

lemma symbols_extends (h : Evolves ws changes ws') : ws'.symbols.Extends ws.symbols := by
  induction h with
  | nil => exact .refl _
  | cons hstep _ ih => exact ih.trans hstep.symbols_extends

lemma diagnostics_le (h : Evolves ws changes ws') :
    ws.journal.diagnostics.size ≤ ws'.journal.diagnostics.size := by
  induction h with
  | nil => exact Nat.le_refl _
  | cons hstep _ ih => exact Nat.le_trans hstep.diagnostics_le ih

end Evolves

/-! ### What every symbol is -/

/-- A name for a type is that of a definition, and only a function that is defined elsewhere does
without a prototype. -/
structure Symbol.Proper (types : TypeTable) (symbol : Symbol) : Prop where
  /-- Names for types. -/
  defines : symbol.kind = .type → symbol.Defines types
  /-- Functions. -/
  prototyped : ∀ {params external}, symbol.kind = .function params false external → external = true

lemma Symbol.Defines.mono {types types' : TypeTable} {symbol : Symbol} (h : symbol.Defines types)
    (ext : types'.Extends types) : symbol.Defines types' := by
  obtain ⟨type, info, target, htype, hget, hshape⟩ := h
  exact ⟨type, info, target, htype, ext hget, hshape⟩

lemma Symbol.Proper.mono {types types' : TypeTable} {symbol : Symbol} (h : symbol.Proper types)
    (ext : types'.Extends types) : symbol.Proper types' :=
  ⟨fun hkind => (h.defines hkind).mono ext, h.prototyped⟩

lemma Symbol.Declarable.proper {types : TypeTable} {symbol : Symbol} (h : symbol.Declarable types) :
    symbol.Proper types := by
  unfold Symbol.Declarable at h
  split at h
  · rename_i hkind
    exact ⟨by simp [hkind], by simp [hkind]⟩
  · rw [h]
    exact ⟨by simp [placeholder], by simp [placeholder]⟩
  · rename_i hkind
    exact ⟨fun _ => h, by simp [hkind]⟩

lemma Symbol.Signed.proper {types : TypeTable} {symbol : Symbol} (h : symbol.Signed) :
    symbol.Proper types := by
  obtain ⟨-, params, prototyped, external, hkind, hexternal⟩ := h
  refine ⟨by simp [hkind], ?_⟩
  intro params' external' hkind'
  rw [hkind] at hkind'
  cases hkind'
  exact hexternal rfl

/-- All symbols are as they should be. -/
def Tables.Proper (tables : Tables) : Prop :=
  ∀ {i : Nat} {symbol : Symbol}, tables.symbols.entries[i]? = some symbol →
    symbol.Proper tables.types

lemma Tables.proper_initial : ({} : Tables).Proper := by
  simp [Tables.Proper, SymbolTable.initial]

lemma Step.proper (h : Step ws change ws') (hproper : ws.toTables.Proper) :
    ws'.toTables.Proper := by
  intro i symbol hget
  rcases h.symbol hget with hold | ⟨-, hsigned⟩ | ⟨-, hdeclared⟩
  · exact (hproper hold).mono h.types_extends
  · exact hsigned.proper
  · exact hdeclared.proper.mono h.types_extends

lemma Evolves.proper (h : Evolves ws changes ws') (hproper : ws.toTables.Proper) :
    ws'.toTables.Proper := by
  induction h with
  | nil => exact hproper
  | cons hstep _ ih => exact ih (hstep.proper hproper)

end

/-! ## What is noted -/

/-- The events were noted meanwhile, with one declaration for every symbol that came up. -/
structure Noted (ws : Workspace) (events : List Event) (ws' : Workspace) : Prop where
  /-- The journal goes on with the events. -/
  journal : ws'.journal.events.toList = ws.journal.events.toList ++ events
  /-- There are as many new symbols as declarations. -/
  size : ws'.symbols.size = ws.symbols.size + (declarationsIn events).length
  /-- Every declaration has the next number. -/
  numbers : (declarationsIn events).map (·.id.index) =
    List.range' ws.symbols.size (declarationsIn events).length
  /-- The symbol with that number has its name and its sort. -/
  symbols : ∀ declaration ∈ declarationsIn events, ∃ symbol,
    ws'.symbols.entries[declaration.id.index]? = some symbol ∧ symbol.name = declaration.name ∧
      symbol.kind.sort = declaration.sort

section

variable {ws ws₁ ws' : Workspace} {change : Change} {changes : List Change}
  {events events' : List Event}

namespace Noted

/-- Nothing was declared. -/
lemma of_symbols (hjournal : ws'.journal.events.toList = ws.journal.events.toList ++ events)
    (hsymbols : ws'.symbols.size = ws.symbols.size) (hnone : declarationsIn events = []) :
    Noted ws events ws' where
  journal := hjournal
  size := by simp [hnone, hsymbols]
  numbers := by simp [hnone]
  symbols := by simp [hnone]

lemma refl (ws : Workspace) : Noted ws [] ws := of_symbols (by simp) rfl rfl

lemma trans (h₁ : Noted ws events ws₁) (h₂ : Noted ws₁ events' ws')
    (hextends : ws'.symbols.Extends ws₁.symbols) : Noted ws (events ++ events') ws' where
  journal := by rw [h₂.journal, h₁.journal, List.append_assoc]
  size := by
    rw [h₂.size, h₁.size, declarationsIn_append, List.length_append]
    omega
  numbers := by
    rw [declarationsIn_append, List.map_append, h₁.numbers, h₂.numbers, h₁.size, List.length_append,
      List.range'_append_1]
  symbols := by
    intro declaration hdeclaration
    rw [declarationsIn_append, List.mem_append] at hdeclaration
    rcases hdeclaration with hearly | hlate
    · obtain ⟨symbol, hget, hname, hsort⟩ := h₁.symbols declaration hearly
      obtain ⟨new, hnew, hsame⟩ := hextends hget
      exact ⟨new, hnew, hsame.name_eq.trans hname, hsame.sort_eq.trans hsort⟩
    · exact h₂.symbols declaration hlate

end Noted

/-- What one change notes. -/
lemma Step.noted (h : Step ws change ws') : ∃ events, Noted ws events ws' := by
  cases h with
  | enter | register => exact ⟨[], .of_symbols (by simp) rfl rfl⟩
  | leave hclose =>
    obtain ⟨outer, rest, -, rfl⟩ := SymbolTable.closeScope_eq_ok.mp hclose
    exact ⟨[], .of_symbols (by simp) rfl rfl⟩
  | sign =>
    exact ⟨[], .of_symbols (by simp) (SymbolTable.replace_size ..) rfl⟩
  | @report loc message =>
    exact ⟨[.diagnosed loc message], .of_symbols (by simp [Journal.report, Journal.log]) rfl rfl⟩
  | @note event hevent =>
    exact ⟨[event], .of_symbols (by simp [Journal.log]) rfl
      (by simp [declarationsIn_singleton, hevent])⟩
  | @declare symbol hnew hsymbol =>
    -- the symbol has the size of the table for its number, which the event tells
    let event := Event.declared symbol.kind.sort symbol.name ⟨ws.symbols.size⟩
      ws.symbols.enclosing.length
    have hevent : declarationsIn [event] = [⟨symbol.kind.sort, symbol.name, ⟨ws.symbols.size⟩,
      ws.symbols.enclosing.length⟩] := rfl
    refine ⟨[event], by simp [Journal.log, event], by simp [hevent], by simp [hevent], ?_⟩
    simp only [hevent, List.mem_singleton, forall_eq]
    exact ⟨symbol, SymbolTable.add_getElem?_size _ _, rfl, rfl⟩

/-- What a history notes. -/
theorem Evolves.noted (h : Evolves ws changes ws') : ∃ events, Noted ws events ws' := by
  induction h with
  | nil => exact ⟨[], .refl _⟩
  | cons hstep hrest ih =>
    obtain ⟨events, hevents⟩ := hstep.noted
    obtain ⟨events', hevents'⟩ := ih
    exact ⟨events ++ events', hevents.trans hevents' hrest.symbols_extends⟩

end

end ParenC
