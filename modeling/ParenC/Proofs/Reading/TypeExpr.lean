/-
What reading a type does.

A type is looked up or registered, and the symbols stay as they are.  The number that comes out
is that of an entry, so that a name for a type can be followed as far as it goes.
-/
import ParenC.Proofs.Reading.Basic

namespace ParenC

/-- A name means a symbol that is there. -/
lemma Tables.Sound.resolve {tables : Tables} (sound : tables.Sound) {name : String}
    {id : SymbolId} (h : tables.symbols.resolve name = some id) :
    ∃ symbol, tables.symbols.entries[id.index]? = some symbol := by
  obtain ⟨scope, hscope, hlookup⟩ := List.exists_of_findSome?_eq_some h
  obtain ⟨front, back, hsplit, -⟩ := List.lookup_eq_some_iff.mp hlookup
  have hpair : (name, id) ∈ scope := by simp [hsplit]
  exact ⟨_, Array.getElem?_eq_getElem (sound.scopes scope hscope _ hpair)⟩

/-- A name means a type, which is known, or no type at all. -/
lemma Tables.Sound.resolveType {tables : Tables} (sound : tables.Sound) (name : String) :
    tables.symbols.resolveSort name .type = .ok none ∨ ∃ id symbol type,
      tables.symbols.resolveSort name .type = .ok (some id) ∧
      tables.symbols.resolve name = some id ∧ tables.symbols.entries[id.index]? = some symbol ∧
      symbol.kind = .type ∧ symbol.type? = some type ∧ tables.types.Has type := by
  cases hresolve : tables.symbols.resolve name with
  | none => exact .inl (by simp [SymbolTable.resolveSort, hresolve])
  | some id =>
    obtain ⟨symbol, hsymbol⟩ := sound.resolve hresolve
    have hsort : tables.symbols.resolveSort name .type =
        .ok (if symbol.kind.sort = .type then some id else none) := by
      simp [SymbolTable.resolveSort, hresolve, SymbolTable.get_eq_ok_iff.mpr hsymbol, bind,
        Except.bind, pure, Except.pure]
    cases hkind : symbol.kind with
    | type =>
      obtain ⟨type, htype, -, hhas⟩ :=
        (sound.symbol hsymbol).exists_type (by simp [hkind, SymbolKind.sort])
      exact .inr ⟨id, symbol, type, by simp [hsort, hkind, SymbolKind.sort], rfl, hsymbol, hkind,
        htype, hhas⟩
    | localVar | function => exact .inl (by simp [hsort, hkind, SymbolKind.sort])

namespace Reading

open CompileM Workspace

variable {ws : Workspace}

lemma builtinType_does {token : Token} (sound : ws.toTables.Sound) :
    Does (builtinType token) ws fun id ws' => ws'.types.Has id ∧ ws' = ws := by
  unfold builtinType
  split
  · exact .pure ⟨sound.types.has_builtin _, rfl⟩
  · exact .refuse

lemma namedType_does {token : Token} (sound : ws.toTables.Sound) :
    Does (namedType token) ws fun id ws' =>
      ws'.types.Has id ∧ ws'.symbols = ws.symbols := by
  refine .get ?_
  -- a name that is no type is a finding, and stands for `void`
  have hcomplain : Does (do
        complain token.location (.undeclaredType token.text)
        return Builtin.void.id) ws
      fun id ws' => ws'.types.Has id ∧ ws'.symbols = ws.symbols := by
    refine .report_bind ?_
    rintro ws' - htables -
    refine .pure ⟨?_, congrArg Tables.symbols htables⟩
    rw [congrArg Tables.types htables]
    exact sound.types.has_builtin .void
  rcases sound.resolveType token.text with
    hnone | ⟨id, symbol, type, hsome, -, hsymbol, -, htype, hhas⟩
  · exact .promised_bind hnone hcomplain
  · refine .promised_bind hsome (.bind (symbolAt_does hsymbol) ?_)
    rintro _ ws' - ⟨rfl, rfl⟩
    exact .promised (Symbol.type_eq_ok_iff.mpr htype) ⟨hhas, rfl⟩

lemma atomType_does {token : Token} (sound : ws.toTables.Sound) :
    Does (atomType token) ws fun id ws' =>
      ws'.types.Has id ∧ ws'.symbols = ws.symbols := by
  unfold atomType
  split
  · refine (builtinType_does sound).imp ?_
    rintro id ws' - ⟨hhas, rfl⟩
    exact ⟨hhas, rfl⟩
  · exact namedType_does sound
  · exact .refuse

mutual

/-- Reading a type gives an entry of the type table and leaves the symbols alone. -/
theorem typeExpr_does {ws : Workspace} (datum : Datum) (sound : ws.toTables.Sound) :
    Does (typeExpr datum) ws fun id ws' => ws'.types.Has id ∧ ws'.symbols = ws.symbols := by
  match datum with
  | .atom token => exact atomType_does sound
  | .list opening [] closing => exact .refuse
  | .list opening (.list .. :: rest) closing => exact .refuse
  | .list opening (.atom head :: rest) closing =>
    unfold typeExpr
    dsimp only
    split
    · refine .bind (bindings_does true [] rest closing sound (by simp)) ?_
      rintro fields ws' hgrows ⟨hfields, hsymbols⟩
      have hnamed : ∀ field ∈ fields.map (fun (name, type) => (name.text, type)),
          ws'.types.Has field.2 := by
        intro field hfield
        obtain ⟨pair, hpair, rfl⟩ := List.mem_map.mp hfield
        exact hfields pair hpair
      refine (registerType_does (fun hsound => TypeTable.registerStruct_ok hsound hnamed)
        (hgrows.sound sound)).imp ?_
      rintro id ws'' - ⟨hhas, hsymbols', -⟩
      exact ⟨hhas, hsymbols'.trans hsymbols⟩
    · exact .refuse

/-- Reading names with their types does the same for all of them. -/
theorem bindings_does {ws : Workspace} (distinct : Bool) (before : List (Token × TypeId))
    (items : List Datum) (closing : Token) (sound : ws.toTables.Sound)
    (hbefore : ∀ pair ∈ before, ws.types.Has pair.2) :
    Does (bindings distinct before items closing) ws fun bound ws' =>
      (∀ pair ∈ bound, ws'.types.Has pair.2) ∧ ws'.symbols = ws.symbols := by
  match items with
  | [] =>
    unfold bindings
    split
    · exact .pure ⟨by simpa using hbefore, rfl⟩
    · exact .refuse
  | [nameDatum] =>
    unfold bindings
    refine .bind expectAtom_does ?_
    rintro name ws' - rfl
    exact .refuse
  | [nameDatum, colonDatum] =>
    unfold bindings
    refine .bind expectAtom_does ?_
    rintro name ws' - rfl
    refine .bind expectAtom_does ?_
    rintro colon ws'' - rfl
    exact .refuse
  | nameDatum :: colonDatum :: typeDatum :: rest =>
    unfold bindings
    refine .bind expectAtom_does ?_
    rintro name ws' - rfl
    refine .bind expectAtom_does ?_
    rintro colon ws'' - rfl
    refine .bind (typeExpr_does typeDatum sound) ?_
    rintro type ws₁ hgrows ⟨htype, hsymbols⟩
    have hold : ∀ pair ∈ before, ws₁.types.Has pair.2 :=
      fun pair hpair => hgrows.types.has (hbefore pair hpair)
    split
    · -- a field that is there twice is a finding, and left out
      refine .report_bind ?_
      rintro ws₂ hgrows' htables -
      have hold' : ∀ pair ∈ before, ws₂.types.Has pair.2 :=
        fun pair hpair => hgrows'.types.has (hold pair hpair)
      refine (bindings_does distinct before rest closing
        (hgrows'.sound (hgrows.sound sound)) hold').imp ?_
      rintro bound ws₃ - ⟨hbound, hsymbols'⟩
      exact ⟨hbound, hsymbols'.trans ((congrArg Tables.symbols htables).trans hsymbols)⟩
    · refine (bindings_does distinct ((name, type) :: before) rest closing
        (hgrows.sound sound) (by simpa using ⟨htype, fun a b => hold (a, b)⟩)).imp ?_
      rintro bound ws₂ - ⟨hbound, hsymbols'⟩
      exact ⟨hbound, hsymbols'.trans hsymbols⟩

end

lemma params_does {datum : Datum} (sound : ws.toTables.Sound) :
    Does (params datum) ws fun bound ws' =>
      (∀ pair ∈ bound, ws'.types.Has pair.2) ∧ ws'.symbols = ws.symbols := by
  cases datum with
  | atom token => exact .refuse
  | list opening items closing => exact bindings_does false [] items closing sound (by simp)

end Reading

end ParenC
