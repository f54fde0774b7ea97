/-
The layout of frames.

The variables of a function are placed one below the other, each right below the one before, and
nothing else in the tables changes.  The bytes are counted here without bound, and places are told
as words hold them; as long as a word holds the bytes of all variables, no two of them overlap.
-/
import ParenC.Proofs.Lowering.Placement
import ParenC.Lowering.Unit

namespace ParenC

/-- The variables are placed one below the other, the first one below `used` bytes; `stop` bytes
are used then.  Their offsets are words. -/
def Tables.Laid (tables : Tables) : (used : Nat) → List SymbolId → (stop : Nat) → Prop
  | used, [], stop => stop = used
  | used, id :: rest, stop => ∃ symbol type info,
    tables.symbols.entries[id.index]? = some symbol ∧ symbol.type? = some type ∧
    tables.types.get type = .ok info ∧ symbol.offset = .ok ((used + info.size) % wordCount) ∧
    tables.Laid (used + info.size) rest stop

/-- A variable that was laid out has a place. -/
lemma Tables.Laid.offset {tables : Tables} {used stop : Nat} {ids : List SymbolId}
    (h : tables.Laid used ids stop) {id : SymbolId} (hid : id ∈ ids) :
    ∃ symbol offset, tables.symbols.entries[id.index]? = some symbol ∧
      symbol.offset = .ok offset := by
  induction ids generalizing used with
  | nil => simp at hid
  | cons first rest ih =>
    obtain ⟨symbol, type, info, hget, -, -, hoffset, hrest⟩ := h
    rcases List.mem_cons.mp hid with rfl | hid
    · exact ⟨symbol, _, hget, hoffset⟩
    · exact ih hrest hid

/-- The variable has a place and takes `size` bytes. -/
def Tables.Lies (tables : Tables) (id : SymbolId) (offset size : Nat) : Prop :=
  ∃ symbol type info, tables.symbols.entries[id.index]? = some symbol ∧
    symbol.type? = some type ∧ tables.types.get type = .ok info ∧ symbol.offset = .ok offset ∧
    info.size = size

lemma Tables.Lies.unique {tables : Tables} {id : SymbolId} {offset offset' size size' : Nat}
    (h : tables.Lies id offset size) (h' : tables.Lies id offset' size') :
    offset = offset' ∧ size = size' := by
  obtain ⟨symbol, type, info, hget, htype, hinfo, hoffset, rfl⟩ := h
  obtain ⟨symbol', type', info', hget', htype', hinfo', hoffset', rfl⟩ := h'
  rw [hget] at hget'
  cases hget'
  rw [htype] at htype'
  cases htype'
  rw [hinfo] at hinfo'
  cases hinfo'
  rw [hoffset] at hoffset'
  cases hoffset'
  exact ⟨rfl, rfl⟩

lemma Tables.Laid.le_stop {tables : Tables} {used stop : Nat} {ids : List SymbolId}
    (h : tables.Laid used ids stop) : used ≤ stop := by
  induction ids generalizing used with
  | nil => exact Nat.le_of_eq h.symm
  | cons first rest ih =>
    obtain ⟨_, _, _, _, _, _, _, hrest⟩ := h
    have := ih hrest
    omega

/-- The first of the variables, if a word holds the bytes that are used. -/
lemma Tables.Laid.lies_first {tables : Tables} {used stop : Nat} {id : SymbolId}
    {rest : List SymbolId} (h : tables.Laid used (id :: rest) stop) (hfits : stop < wordCount) :
    ∃ size, tables.Lies id (used + size) size ∧ tables.Laid (used + size) rest stop := by
  obtain ⟨symbol, type, info, hget, htype, hinfo, hoffset, hrest⟩ := h
  rw [Nat.mod_eq_of_lt (Nat.lt_of_le_of_lt hrest.le_stop hfits)] at hoffset
  exact ⟨info.size, ⟨symbol, type, info, hget, htype, hinfo, hoffset, rfl⟩, hrest⟩

/-- A variable lies below what is used before it, and above the end. -/
lemma Tables.Laid.within {tables : Tables} {used stop : Nat} {ids : List SymbolId}
    (h : tables.Laid used ids stop) (hfits : stop < wordCount) {id : SymbolId} (hid : id ∈ ids) :
    ∃ offset size, tables.Lies id offset size ∧ used + size ≤ offset ∧ offset ≤ stop := by
  induction ids generalizing used with
  | nil => simp at hid
  | cons first rest ih =>
    obtain ⟨size, hfirst, hrest⟩ := h.lies_first hfits
    rcases List.mem_cons.mp hid with rfl | hid
    · exact ⟨_, size, hfirst, Nat.le_refl _, hrest.le_stop⟩
    · obtain ⟨offset, size, hlies, hbelow, habove⟩ := ih hrest hid
      exact ⟨offset, size, hlies, by omega, habove⟩

/-- Two variables do not overlap. -/
lemma Tables.Laid.apart {tables : Tables} {used stop : Nat} {ids : List SymbolId}
    (h : tables.Laid used ids stop) (hfits : stop < wordCount) {id id' : SymbolId} (hid : id ∈ ids)
    (hid' : id' ∈ ids) (hne : id ≠ id') {offset offset' size size' : Nat}
    (hlies : tables.Lies id offset size) (hlies' : tables.Lies id' offset' size') :
    offset + size' ≤ offset' ∨ offset' + size ≤ offset := by
  induction ids generalizing used with
  | nil => simp at hid
  | cons first rest ih =>
    obtain ⟨taken, hfirst, hrest⟩ := h.lies_first hfits
    rcases List.mem_cons.mp hid with rfl | hmem <;> rcases List.mem_cons.mp hid' with rfl | hmem'
    · exact absurd rfl hne
    · obtain ⟨rfl, rfl⟩ := hlies.unique hfirst
      obtain ⟨_, _, hother, hbelow, -⟩ := hrest.within hfits hmem'
      obtain ⟨rfl, rfl⟩ := hother.unique hlies'
      exact Or.inl hbelow
    · obtain ⟨rfl, rfl⟩ := hlies'.unique hfirst
      obtain ⟨_, _, hother, hbelow, -⟩ := hrest.within hfits hmem
      obtain ⟨rfl, rfl⟩ := hother.unique hlies
      exact Or.inr hbelow
    · exact ih hrest hmem hmem'

namespace SymbolTable

lemma localsFrom_sorted (owner : Option SymbolId) (start : Nat) (entries : List Symbol) :
    (localsFrom owner start entries).Pairwise (·.index < ·.index) := by
  induction entries generalizing start with
  | nil => simp [localsFrom]
  | cons symbol rest ih =>
    simp only [localsFrom]
    split
    · refine List.Pairwise.cons ?_ (ih (start + 1))
      intro id hid
      obtain ⟨i, _, _, _, hindex⟩ := mem_localsFrom.mp hid
      simp only
      omega
    · exact ih (start + 1)

/-- The variables of a function are listed by number. -/
lemma locals_sorted (symbols : SymbolTable) (owner : Option SymbolId) :
    (symbols.locals owner).Pairwise (·.index < ·.index) :=
  localsFrom_sorted owner 0 _

lemma locals_nodup (symbols : SymbolTable) (owner : Option SymbolId) :
    (symbols.locals owner).Nodup := by
  refine (symbols.locals_sorted owner).imp ?_
  rintro a b hlt rfl
  exact Nat.lt_irrefl _ hlt

end SymbolTable

namespace Lowering

variable {ws : Workspace}

/-- What placing variables leaves in the symbol table. -/
structure PlacedIn (ws : Workspace) (ids : List SymbolId) (symbols : SymbolTable) : Prop where
  /-- Only places change. -/
  alike : ws.symbols.Alike symbols
  /-- The scopes stay. -/
  scopes : symbols.scopes = ws.symbols.scopes
  /-- Other symbols stay. -/
  others : ∀ i : Nat, i ∉ ids.map (·.index) → symbols.entries[i]? = ws.symbols.entries[i]?

lemma place_run (complete : ws.toTables.Complete) {id : SymbolId}
    (hid : ws.symbols.HasSort .localVar id) (used : Nat) :
    ∃ symbol type info offset, ws.symbols.entries[id.index]? = some symbol ∧
      symbol.type? = some type ∧ ws.types.get type = .ok info ∧
      offset = (used + info.size) % wordCount ∧ (symbol.place offset).offset = .ok offset ∧
      place (used % wordCount) id ws =
        .ok offset { ws with symbols := ws.symbols.replace id (symbol.place offset) } := by
  obtain ⟨symbol, hget, hsort⟩ := hid
  obtain ⟨type, htype?, htype, hhas⟩ := complete.type hget
  obtain ⟨info, hinfo⟩ := hhas.get
  refine ⟨symbol, type, info, _, hget, htype?, hinfo, rfl, ?_, ?_⟩
  · cases hkind : symbol.kind <;> simp_all [Symbol.place, Symbol.offset, SymbolKind.sort]
  · have hsymbol := SymbolTable.get_eq_ok_iff.mpr hget
    have hmodify := SymbolTable.modify_eq hget (·.place ((used + info.size) % wordCount))
    simp only [place, bind, EStateM.bind, CompileM.get_run, hsymbol, htype, Except.bind,
      CompileM.promised, pure, EStateM.pure, hinfo, Nat.mod_add_mod, hmodify]
    rfl

lemma placedIn_replace {id : SymbolId} {symbol : Symbol} (offset : Nat)
    (hget : ws.symbols.entries[id.index]? = some symbol) :
    PlacedIn ws [id] (ws.symbols.replace id (symbol.place offset)) where
  alike := (SymbolTable.alike_replace hget (Symbol.unplaced_place symbol offset)).symm
  scopes := rfl
  others i hi := by
    rw [SymbolTable.replace_getElem? (SymbolTable.lt_size_of_getElem? hget), if_neg]
    simpa using hi

/-- Placing variables that are all different lays them out. -/
theorem placeAll_run {ids : List SymbolId} (complete : ws.toTables.Complete)
    (hids : ∀ id ∈ ids, ws.symbols.HasSort .localVar id) (hnodup : ids.Nodup) (used : Nat) :
    ∃ stop symbols, placeAll (used % wordCount) ids ws = .ok (stop % wordCount) { ws with symbols } ∧
      PlacedIn ws ids symbols ∧ (⟨ws.types, symbols⟩ : Tables).Laid used ids stop := by
  induction ids generalizing ws used with
  | nil => exact ⟨used, ws.symbols, rfl, ⟨.refl _, rfl, fun _ _ => rfl⟩, rfl⟩
  | cons id rest ih =>
    obtain ⟨symbol, type, info, offset, hget, htype, hinfo, rfl, hoffset, hplace⟩ :=
      place_run complete (hids id (by simp)) used
    generalize hplaced : symbol.place ((used + info.size) % wordCount) = placed at hoffset hplace
    have hfirst : PlacedIn ws [id] (ws.symbols.replace id placed) :=
      hplaced ▸ placedIn_replace _ hget
    obtain ⟨stop, symbols, hrun, hrest, hlaid⟩ :=
      @ih { ws with symbols := ws.symbols.replace id placed }
        (complete.congr hfirst.alike hfirst.scopes)
        (fun other hother => hfirst.alike.hasSort (hids other (by simp [hother])))
        hnodup.of_cons (used + info.size)
    -- the variable is placed once, so the later ones leave its place alone
    have hid : id.index ∉ rest.map (·.index) := by
      intro hmem
      obtain ⟨other, hother, heq⟩ := List.mem_map.mp hmem
      have : other = id := by
        cases other
        cases id
        simp_all
      exact (List.nodup_cons.mp hnodup).1 (this ▸ hother)
    refine ⟨stop, symbols, ?_, ⟨hfirst.alike.trans hrest.alike,
      hrest.scopes.trans hfirst.scopes, ?_⟩, ?_⟩
    · simp only [placeAll, bind, EStateM.bind, hplace]
      exact hrun
    · intro i hi
      simp only [List.map_cons, List.mem_cons, not_or] at hi
      exact (hrest.others i hi.2).trans (hfirst.others i (by simpa using hi.1))
    · refine ⟨placed, type, info, ?_, ?_, hinfo, hoffset, hlaid⟩
      · rw [hrest.others id.index hid,
          SymbolTable.replace_getElem? (SymbolTable.lt_size_of_getElem? hget), if_pos rfl]
      · exact hplaced ▸ (Symbol.type?_eq (Symbol.unplaced_place symbol _)).trans htype

/-- The size of a frame only depends on the bytes that a word holds. -/
lemma frameSize_mod (used : Nat) : frameSize (used % wordCount) = frameSize used := by
  simp only [frameSize, roundUp, stackAlign, wordCount]
  omega

/-- A frame is aligned, even if a word does not hold its bytes. -/
lemma frameSize_mod_align (used : Nat) : frameSize used % 16 = 0 := by
  simp only [frameSize, roundUp, stackAlign, wordCount]
  omega

end Lowering

end ParenC
