/-
Whatever is found wrong with a program, what comes out of reading it holds together.

A program that is read to its end, with any number of findings, has a tree and tables in which
every number means an entry of the right sort, every symbol has its type and its one place of
introduction, and nothing refers forward among the types.  Where a node lacks its symbol, there is
a finding.  That is all that checking relies on, so that it meets no defect even in a program that
should not be checked any more.
-/
import ParenC.Proofs.Reading.Making
import ParenC.Proofs.Typing.Judgement

namespace ParenC

open Node

/-- A symbol whose type is known, and whose numbers are those of entries. -/
structure Symbol.Intact (tables : Tables) (symbol : Symbol) : Prop where
  /-- The type is known, and is in the table. -/
  typed : ∃ type, symbol.type? = some type ∧ tables.types.Has type
  /-- So are the types of parameters. -/
  params : ∀ {params prototyped external}, symbol.kind = .function params prototyped external →
    ∀ param ∈ params, tables.types.Has param.type
  /-- The function with the frame of a variable is a symbol. -/
  owner : ∀ {offset f}, symbol.kind = .localVar offset (some f) →
    f.index < tables.symbols.size

/-- A program and its tables hold together. -/
structure Program.Intact (program : Program) (tables : Tables) : Prop where
  /-- A struct only has fields of earlier types. -/
  fields : ∀ {i : Nat} {info : TypeInfo} {fields : List Field},
    tables.types.entries[i]? = some info → info.shape = .struct fields →
      ∀ field ∈ fields, field.type.index < i
  /-- A definition is made for an earlier type. -/
  targets : ∀ {i : Nat} {info : TypeInfo} {name : String} {target : TypeId},
    tables.types.entries[i]? = some info → info.shape = .definition name target → target.index < i
  /-- Every symbol is complete. -/
  symbols : ∀ {i : Nat} {symbol : Symbol}, tables.symbols.entries[i]? = some symbol →
    symbol.Intact tables
  /-- The numbers in nodes are those of entries of the right sort. -/
  nodes : ∀ node ∈ checkOrderAll program.items, node.Valid tables
  /-- A name for a type stands for a definition of the same name. -/
  definitions : ∀ {loc id}, typedefDecl loc (some id) ∈ checkOrderAll program.items →
    ∃ symbol, tables.symbols.entries[id.index]? = some symbol ∧ symbol.kind = .type ∧
      symbol.Defines tables.types
  /-- Every symbol is introduced at most once. -/
  once : (introducedAll program.items).Nodup

/-- Complete tables, whose symbols are as they should be, and nodes that were made with them. -/
lemma Program.Intact.of_made {program : Program} {ws ws' : Workspace}
    (complete : ws'.toTables.Complete) (hproper : ws'.toTables.Proper)
    (hvalid : ∀ node ∈ checkOrderAll program.items, node.Valid ws'.toTables)
    (hmade : Reading.Made ws program.items ws') : program.Intact ws'.toTables where
  fields hget hshape := (complete.sound.types.entry hget).fields hshape
  targets hget hshape := ((complete.sound.types.entry hget).definition hshape).1
  symbols hget := by
    obtain ⟨type, htype, -, hhas⟩ := complete.type hget
    have hsound := complete.sound.symbol hget
    exact ⟨⟨type, htype, hhas⟩, hsound.params, hsound.owner⟩
  nodes := hvalid
  definitions := by
    intro loc id hnode
    obtain ⟨symbol, hget, hsort⟩ := hvalid _ hnode id rfl
    have hkind : symbol.kind = .type := by
      cases hkind : symbol.kind <;> simp_all [SymbolKind.sort]
    exact ⟨symbol, hget, hkind, (hproper hget).defines hkind⟩
  once := by
    refine hmade.ordered.imp ?_
    rintro a _ hlt rfl
    exact Nat.lt_irrefl _ hlt

/-- A program that is read to its end from fresh tables holds together, whatever is found wrong.
The run records at least one finding for each node that lacks its symbol, and checking the program
meets no defect. -/
theorem intact_of_reading {tokens : List Token} {program : Program} {ws ws' : Workspace}
    (hfresh : ws.toTables = {}) (hrun : Reading.program tokens ws = .ok program ws') :
    program.Intact ws'.toTables ∧
    ws.journal.diagnostics.size + namelessCount program.items ≤ ws'.journal.diagnostics.size ∧
    ∀ {failure ws''}, Typing.check program ws' = .error failure ws'' →
      ∃ error, failure = .error error := by
  have sound : ws.toTables.Sound := hfresh ▸ Tables.sound_initial
  have hglobal : ws.symbols.enclosing = [] := congrArg (·.symbols.enclosing) hfresh
  obtain ⟨hgrows, hread⟩ := (Reading.program_does tokens sound hglobal).run hrun
  obtain ⟨hleads, -, hmade, -, -⟩ := (Reading.program_records tokens).run hrun
  obtain ⟨changes, hchanges⟩ := hleads.history
  have complete := Tables.complete_of_read hfresh hgrows hread
  have hproper : ws'.toTables.Proper := hchanges.proper (hfresh ▸ Tables.proper_initial)
  refine ⟨.of_made complete hproper hread.valid hmade, hmade.nameless, ?_⟩
  intro failure ws'' hfailed
  have hcheck := Typing.checkAll_does complete fun node hnode n hn =>
    hread.valid n (checkOrderAll_trans hnode hn)
  change Does (Typing.check program) ws' _ at hcheck
  rw [Does, hfailed] at hcheck
  cases failure with
  | error error => exact ⟨error, rfl⟩
  | defect defect => exact hcheck.elim

/-- Declarations that clash, names that mean nothing, operands that are missing, and functions and
returns where they cannot stand. -/
theorem intact_of_reading_muddled : ∃ tokens program ws ws',
    ws.toTables = {} ∧ Reading.program tokens ws = .ok program ws' ∧ ¬ ws'.Quiet ∧
    program.Intact ws'.toTables ∧
    ws.journal.diagnostics.size + namelessCount program.items ≤ ws'.journal.diagnostics.size ∧
    ∀ {failure ws''}, Typing.check program ws' = .error failure ws'' →
      ∃ error, failure = .error error := by
  have hverdict : verdict "muddled" ("(typedef t (struct a: q a: u64)) (let t t) (return x) " ++
      "(defun f (p: t p: u64) t (defun f () void (return p)) (return (+ p))) (f (t) (g))") =
        some false := by
    decide +kernel
  obtain ⟨tokens, ws, program, ws', htokens, hprogram, hquiet⟩ := runs_of_verdict hverdict
  obtain ⟨body, loc, -, htables, -⟩ := tokenize_eq_ok htokens
  exact ⟨tokens, program, ws, ws', htables, hprogram, by simp [hquiet],
    intact_of_reading htables hprogram⟩

end ParenC
