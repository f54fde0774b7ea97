/-
What a build that checks its sums compiles.

Such a build stops where a frame has no room for its variables, so the frames of whatever it
compiles are laid out as they should be.  It compiles just as a build that does not check.
-/
import ParenC.Checked
import ParenC.Proofs.Lowering.Access

namespace ParenC

open Lowering

lemma Defect.lt_of_ofProduct? {n : Nat} (h : Defect.ofProduct? n = none) : n < wordCount := by
  unfold Defect.ofProduct? at h
  split at h
  · assumption
  · cases h

namespace Tables

variable {tables : Tables} {owner : Option SymbolId}

/-- What is known of a variable that was laid out. -/
lemma Laid.placed {used stop : Nat} {ids : List SymbolId} (h : tables.Laid used ids stop) :
    ∀ id ∈ ids, ∃ symbol type offset, tables.symbols.entries[id.index]? = some symbol ∧
      symbol.type? = some type ∧ symbol.offset = .ok offset := by
  induction ids generalizing used with
  | nil => simp
  | cons first rest ih =>
    obtain ⟨symbol, type, info, hget, htype, -, hoffset, hrest⟩ := h
    exact List.forall_mem_cons.mpr ⟨⟨symbol, type, _, hget, htype, hoffset⟩, ih hrest⟩

/-- A variable that was laid out takes its size in the frame of its function. -/
lemma bytesIn_eq {id : SymbolId} {symbol : Symbol} {type : TypeId} {offset : Nat}
    (hget : tables.symbols.entries[id.index]? = some symbol) (htype : symbol.type? = some type)
    (hoffset : symbol.offset = .ok offset) (hvar : symbol.isVariableOf owner = true) :
    tables.bytesIn owner symbol = tables.sizeOf id := by
  obtain ⟨function, hkind⟩ := Symbol.offset_eq_ok.mp hoffset
  have howner : function = owner := by simpa [Symbol.isVariableOf, hkind] using hvar
  simp only [bytesIn, hkind, htype, if_pos howner, sizeOf, hget, Option.bind_some,
    TypeTable.sizeOf, TypeTable.get]
  cases tables.types.entries[type.index]? <;> rfl

/-- Other symbols take nothing. -/
lemma bytesIn_of_other {symbol : Symbol} (hvar : symbol.isVariableOf owner = false) :
    tables.bytesIn owner symbol = 0 := by
  unfold bytesIn
  split
  · rename_i hkind htype
    simp only [Symbol.isVariableOf, hkind, decide_eq_false_iff_not] at hvar
    exact if_neg hvar
  · rfl

/-- The variables among the symbols from a number on take together what these symbols take. -/
lemma sum_localsFrom {start : Nat} {rest : List Symbol}
    (hrest : ∀ i, rest[i]? = tables.symbols.entries[start + i]?)
    (hplaced : ∀ id ∈ SymbolTable.localsFrom owner start rest, ∃ symbol type offset,
      tables.symbols.entries[id.index]? = some symbol ∧ symbol.type? = some type ∧
        symbol.offset = .ok offset) :
    rest.foldr (fun symbol later => tables.bytesIn owner symbol + later) 0 =
      ((SymbolTable.localsFrom owner start rest).map tables.sizeOf).sum := by
  induction rest generalizing start with
  | nil => rfl
  | cons symbol rest ih =>
    have hget : tables.symbols.entries[start]? = some symbol := (hrest 0).symm
    have hlater : ∀ i, rest[i]? = tables.symbols.entries[start + 1 + i]? := by
      intro i
      rw [Nat.add_assoc, Nat.add_comm 1 i]
      exact hrest (i + 1)
    rw [SymbolTable.localsFrom] at hplaced ⊢
    cases hvar : symbol.isVariableOf owner with
    | false =>
      rw [hvar, if_neg Bool.false_ne_true] at hplaced
      rw [if_neg Bool.false_ne_true, List.foldr_cons, bytesIn_of_other hvar, Nat.zero_add,
        ih hlater hplaced]
    | true =>
      rw [hvar, if_pos rfl] at hplaced
      obtain ⟨⟨symbol', type, offset, hget', htype, hoffset⟩, hothers⟩ :=
        List.forall_mem_cons.mp hplaced
      cases hget.symm.trans hget'
      have hfirst : tables.bytesIn owner symbol = tables.sizeOf ⟨start⟩ :=
        bytesIn_eq hget htype hoffset hvar
      rw [if_pos rfl, List.foldr_cons, List.map_cons, List.sum_cons, hfirst, ih hlater hothers]

/-- What is placed in a frame that is laid out is all of its variables. -/
lemma HasFrame.placedBytes_eq (h : tables.HasFrame owner) :
    tables.placedBytes owner = tables.total owner := by
  obtain ⟨stop, hlaid⟩ := h
  have hentries : ∀ i, tables.symbols.entries.toList[i]? = tables.symbols.entries[0 + i]? := by
    simp
  exact sum_localsFrom hentries hlaid.placed

/-- If no sum stops a build, words hold the sizes of frames. -/
lemma HasFrame.fits (h : tables.HasFrame owner) (hnone : tables.overflow? = none) :
    tables.Fits owner := by
  have htotal := h.placedBytes_eq
  obtain ⟨stop, hlaid⟩ := h
  cases hlocals : tables.symbols.locals owner with
  | nil =>
    have hempty : tables.total owner = 0 := by rw [total, hlocals]; rfl
    rw [Fits, frameSize, hempty]
    decide
  | cons id rest =>
    have hid : id ∈ tables.symbols.locals owner := by rw [hlocals]; exact List.mem_cons_self
    obtain ⟨symbol, type, offset, hget, -, hoffset⟩ := hlaid.placed id hid
    obtain ⟨symbol', hget', hvar⟩ := SymbolTable.mem_locals.mp hid
    cases hget.symm.trans hget'
    obtain ⟨function, hkind⟩ := Symbol.offset_eq_ok.mp hoffset
    have howner : function = owner := by simpa [Symbol.isVariableOf, hkind] using hvar
    -- the frame was looked at when its first variable was
    rw [overflow?, Option.or_eq_none_iff] at hnone
    have hframe := List.findSome?_eq_none_iff.mp hnone.2 symbol
      (Array.mem_toList_iff.mpr (Array.mem_of_getElem? hget))
    simp only [hkind, howner, frameOverflow?, Option.or_eq_none_iff, htotal] at hframe
    exact Defect.lt_of_ofProduct? hframe.2

end Tables

/-- What a build that checks its sums compiles, a build that does not check compiles in the same
way, and every frame has room for its variables. -/
theorem fits_of_assembleChecked {file source text : String} {program : Program} {ws ws' : Workspace}
    {assembly : Assembly} (hanalyze : analyze source (.initial file) = .ok program ws)
    (hgenerate : generate program ws = .ok assembly ws')
    (hchecked : assembleChecked file source = .ok text) :
    assemble file source = .ok text ∧
      ∀ unit ∈ program.functions ws.symbols, ws'.toTables.Fits unit.1 := by
  have hrun : (compile source).run (.initial file) = .ok assembly ws' := by
    simp only [compile, EStateM.run, bind, EStateM.bind, hanalyze, hgenerate]
  have hanalyzed := ((analyze_does file source).run hanalyze).2
  obtain ⟨-, hframes⟩ := generate_frames hanalyzed hgenerate
  simp only [assembleChecked, hrun] at hchecked
  cases hnone : ws'.toTables.overflow? with
  | some defect =>
    rw [hnone] at hchecked
    cases hchecked
  | none =>
    rw [hnone] at hchecked
    cases hchecked
    refine ⟨?_, fun unit hunit => (hframes unit hunit).fits hnone⟩
    simp only [assemble, hrun]

end ParenC
