/-
Type tables as they grow.

A table starts with the builtin types and grows by calls that register a builtin type, a struct
or a definition.  A call may only mention types that the table has; then it succeeds, and it
adds at most one entry behind the others.  So an entry only mentions smaller numbers, and this
order is what ends the two recursions over the table: the chain of definitions behind a type and
the nesting of structs inside it.  Neither needs more rounds than the number of the type says,
whatever the size of the table.

Sizes and alignments are computed once, when an entry is added, and copied from then on.  That
they stay those of the type at the end of the chain, and that alignments divide sizes, is kept
by every call.  The main result is `grown_orderly`.
-/
import Mathlib.Logic.Relation
import ParenC.Proofs.Types

namespace ParenC

/-- A call that adds to a type table. -/
inductive Registration
  /-- A builtin type. -/
  | builtin (which : Builtin)
  /-- A struct with these fields. -/
  | struct (fields : List (String × TypeId))
  /-- Another name for a type. -/
  | definition (name : String) (target : TypeId)
deriving DecidableEq

namespace Registration

/-- The types that a call is made with. -/
def mentions : Registration → List TypeId
  | builtin _ => []
  | struct fields => fields.map Prod.snd
  | definition _ target => [target]

/-- Make the call: the number it answers with, and the table afterwards. -/
def run (table : TypeTable) : Registration → Except Defect (TypeId × TypeTable)
  | builtin which => .ok (table.registerBuiltin which)
  | struct fields => table.registerStruct fields
  | definition name target => table.registerDefinition name target

/-- Make calls one after the other. -/
def runAll (table : TypeTable) : List Registration → Except Defect TypeTable
  | [] => .ok table
  | call :: rest => do
    let (_, later) ← call.run table
    runAll later rest

/-- The table has every type that the call is made with. -/
def Valid (call : Registration) (table : TypeTable) : Prop :=
  ∀ id ∈ call.mentions, table.Has id

end Registration

/-- The entry is no other name for a type. -/
def TypeInfo.Concrete (info : TypeInfo) : Prop :=
  ∀ name target, info.shape ≠ .definition name target

namespace TypeTable

variable {table : TypeTable}

/-- The table `later` comes from `table` by one call, made with types that `table` has. -/
def Registers (table later : TypeTable) : Prop :=
  ∃ call : Registration, call.Valid table ∧ ∃ id, call.run table = .ok (id, later)

/-- The table `later` comes from `table` by calls, each made with types that were there. -/
def Grows : TypeTable → TypeTable → Prop := Relation.ReflTransGen Registers

lemma layOut_has {fields : List (String × TypeId)} {start align : Nat} {layout : Layout}
    (h : table.layOut start align fields = .ok layout) : ∀ field ∈ fields, table.Has field.2 := by
  induction fields generalizing start align layout with
  | nil => simp
  | cons field rest ih =>
    obtain ⟨info, inner, hinfo, -, hinner, -⟩ := layOut_cons_eq_ok.mp h
    rintro field (_ | ⟨_, hfield⟩)
    · exact has_iff.mpr ⟨info, get_eq_ok_iff.mp hinfo⟩
    · exact ih hinner field hfield

/-- A call that succeeds was made with types that the table has. -/
lemma valid_of_run {call : Registration} {id : TypeId} {later : TypeTable}
    (h : call.run table = .ok (id, later)) : call.Valid table := by
  cases call with
  | builtin which => simp [Registration.Valid, Registration.mentions]
  | struct fields =>
    obtain ⟨layout, hlayout, -⟩ := registerStruct_eq_ok.mp h
    intro type htype
    obtain ⟨field, hfield, rfl⟩ := List.mem_map.mp htype
    exact layOut_has hlayout field hfield
  | definition name target =>
    obtain ⟨info, hinfo, -⟩ := registerDefinition_eq_ok.mp h
    simpa [Registration.Valid, Registration.mentions] using
      has_iff.mpr ⟨info, get_eq_ok_iff.mp hinfo⟩

/-- A table is reached by a list of calls just if making them all succeeds. -/
lemma grows_iff_runAll {later : TypeTable} :
    table.Grows later ↔ ∃ calls, Registration.runAll table calls = .ok later := by
  constructor
  · intro h
    induction h using Relation.ReflTransGen.head_induction_on with
    | refl => exact ⟨[], rfl⟩
    | head step _ ih =>
      obtain ⟨call, -, id, hrun⟩ := step
      obtain ⟨calls, hcalls⟩ := ih
      exact ⟨call :: calls, by simpa [Registration.runAll, hrun, bind, Except.bind] using hcalls⟩
  · rintro ⟨calls, hcalls⟩
    induction calls generalizing table with
    | nil =>
      cases hcalls
      exact .refl
    | cons call rest ih =>
      simp only [Registration.runAll, bind, Except.bind] at hcalls
      split at hcalls
      · cases hcalls
      · rename_i result hrun
        exact .head ⟨call, valid_of_run hrun, result.1, hrun⟩ (ih hcalls)

/-! ## What every call keeps -/

/-- How the size and the alignment of an entry go together, and go with those of the type it is
another name for. -/
structure Measured (table : TypeTable) (info : TypeInfo) : Prop where
  /-- There are two alignments only. -/
  align : info.align = 1 ∨ info.align = 8
  /-- One value right behind another one is aligned. -/
  divides : info.align ∣ info.size
  /-- A definition is measured as the type it is made for. -/
  definition : ∀ {name target}, info.shape = .definition name target →
    ∃ under, table.get target = .ok under ∧ under.size = info.size ∧ under.align = info.align

/-- What is kept while a table grows. -/
structure Kept (table : TypeTable) : Prop where
  /-- Entries mention entries from before, and the builtin types have their places. -/
  sound : table.Sound
  /-- Every entry is measured. -/
  measured : ∀ {id info}, table.get id = .ok info → Measured table info

lemma Extends.get {later : TypeTable} (h : later.Extends table) {id : TypeId} {info : TypeInfo}
    (hget : table.get id = .ok info) : later.get id = .ok info :=
  get_eq_ok_iff.mpr (h (get_eq_ok_iff.mp hget))

lemma Measured.mono {later : TypeTable} {info : TypeInfo} (h : Measured table info)
    (ext : later.Extends table) : Measured later info where
  align := h.align
  divides := h.divides
  definition hshape := by
    obtain ⟨under, hunder, hsize⟩ := h.definition hshape
    exact ⟨under, ext.get hunder, hsize⟩

/-- The entries of a table after one was added: the new one, and those from before. -/
lemma register_get_cases {info found : TypeInfo} {id : TypeId}
    (h : (table.register info).2.get id = .ok found) : found = info ∨ table.get id = .ok found := by
  have hentry := get_eq_ok_iff.mp h
  simp only [register, Array.getElem?_push] at hentry
  split at hentry
  · cases hentry
    exact .inl rfl
  · exact .inr (get_eq_ok_iff.mpr hentry)

/-- The new entry is the only one there is to look at. -/
lemma measured_register {info : TypeInfo}
    (measured : ∀ {id info}, table.get id = .ok info → Measured table info)
    (h : Measured table info) {id : TypeId} {found : TypeInfo}
    (hget : (table.register info).2.get id = .ok found) :
    Measured (table.register info).2 found := by
  refine Measured.mono ?_ (register_extends table info)
  rcases register_get_cases hget with rfl | hold
  · exact h
  · exact measured hold

/-- At first there are the builtin types only. -/
lemma initial_entry {id : TypeId} {info : TypeInfo} (h : TypeTable.initial.get id = .ok info) :
    ∃ which : Builtin, info = which.info := by
  have hmem := Array.mem_of_getElem? (get_eq_ok_iff.mp h)
  simp only [initial, List.mem_toArray, List.mem_map] at hmem
  obtain ⟨which, -, rfl⟩ := hmem
  exact ⟨which, rfl⟩

lemma kept_initial : TypeTable.initial.Kept where
  sound := sound_initial
  measured := by
    intro id info hget
    obtain ⟨which, rfl⟩ := initial_entry hget
    refine ⟨?_, ?_, by simp [Builtin.info]⟩
    · cases which <;> simp [Builtin.info, Builtin.size]
    · cases which <;> simp [Builtin.info, Builtin.size]

/-- A builtin type is found where it always is. -/
lemma Sound.builtin?_eq (sound : table.Sound) (which : Builtin) :
    table.builtin? which = some which.id := by
  obtain ⟨hlt, hentry⟩ := Array.getElem?_eq_some_iff.mp (sound.builtins which)
  have hfound : table.entries.findIdx? (·.shape = .builtin which) = some which.id.index := by
    rw [Array.findIdx?_eq_some_iff_getElem]
    refine ⟨hlt, by simp [hentry, Builtin.info], fun i hi => ?_⟩
    have hsound := sound.entry (Array.getElem?_eq_getElem (Nat.lt_trans hi hlt))
    intro hshape
    exact absurd (hsound.builtin (by simpa using hshape)).1 (by omega)
  simp [builtin?, hfound]

/-- Registering a builtin type once more changes nothing. -/
lemma Sound.registerBuiltin_eq (sound : table.Sound) (which : Builtin) :
    table.registerBuiltin which = (which.id, table) := by
  simp [registerBuiltin, sound.builtin?_eq]

/-- The first table is an empty one after each builtin type was registered. -/
example : Builtin.all.foldl (fun table which => (table.registerBuiltin which).2) ⟨#[]⟩ =
    TypeTable.initial := by decide +kernel

lemma dvd_roundUp (n align : Nat) : align ∣ roundUp n align := ⟨_, Nat.mul_comm _ _⟩

/-- The largest of alignments is one of them. -/
lemma layOut_align (measured : ∀ {id info}, table.get id = .ok info → Measured table info)
    {fields : List (String × TypeId)} {start align : Nat} {layout : Layout}
    (halign : align = 1 ∨ align = 8) (h : table.layOut start align fields = .ok layout) :
    layout.align = 1 ∨ layout.align = 8 := by
  induction fields generalizing start align layout with
  | nil =>
    cases h
    exact halign
  | cons field rest ih =>
    obtain ⟨info, inner, hinfo, -, hinner, rfl⟩ := layOut_cons_eq_ok.mp h
    have hmax : max align info.align = 1 ∨ max align info.align = 8 := by
      have := (measured hinfo).align
      omega
    have hlarger : inner.align = 1 ∨ inner.align = 8 := ih hmax hinner
    exact hlarger

/-- A call with types that the table has succeeds, and what is kept is kept. -/
lemma Kept.run_ok (kept : table.Kept) {call : Registration} (valid : call.Valid table) :
    ∃ id later, call.run table = .ok (id, later) ∧ later.Kept ∧ later.Extends table ∧
      later.Has id := by
  cases call with
  | builtin which =>
    refine ⟨which.id, table, ?_, kept, Extends.refl table, kept.sound.has_builtin which⟩
    simp [Registration.run, kept.sound.registerBuiltin_eq]
  | struct fields =>
    have hfields : ∀ field ∈ fields, table.Has field.2 := fun field hfield =>
      valid field.2 (List.mem_map_of_mem hfield)
    obtain ⟨id, later, hrun, hsound, hext, hhas⟩ := registerStruct_ok kept.sound hfields
    refine ⟨id, later, hrun, ⟨hsound, fun {found info} hget => ?_⟩, hext, hhas⟩
    obtain ⟨layout, hlayout, hadded⟩ := registerStruct_eq_ok.mp hrun
    cases hadded
    refine measured_register kept.measured ⟨?_, dvd_roundUp _ _, by simp⟩ hget
    -- the alignment of a struct starts at one and is the largest of its fields
    exact layOut_align kept.measured (.inl rfl) hlayout
  | definition name target =>
    have htarget : table.Has target := valid target (by simp [Registration.mentions])
    obtain ⟨id, later, hrun, hsound, hext, hhas⟩ := registerDefinition_ok kept.sound name htarget
    refine ⟨id, later, hrun, ⟨hsound, fun {found info} hget => ?_⟩, hext, hhas⟩
    obtain ⟨under, hunder, hadded⟩ := registerDefinition_eq_ok.mp hrun
    cases hadded
    refine measured_register kept.measured ?_ hget
    -- a definition is measured like its target
    refine ⟨(kept.measured hunder).align, (kept.measured hunder).divides, ?_⟩
    intro name' target' hshape
    simp only [Shape.definition.injEq] at hshape
    obtain ⟨-, rfl⟩ := hshape
    exact ⟨under, hunder, rfl, rfl⟩

/-- One call keeps what is kept and every entry from before. -/
lemma Kept.step {later : TypeTable} (kept : table.Kept) (h : table.Registers later) :
    later.Kept ∧ later.Extends table := by
  obtain ⟨call, valid, id, hrun⟩ := h
  obtain ⟨id', later', hrun', hkept, hext, -⟩ := kept.run_ok valid
  rw [hrun] at hrun'
  cases hrun'
  exact ⟨hkept, hext⟩

/-- And so do any number of calls. -/
lemma Kept.grows {later : TypeTable} (kept : table.Kept) (h : table.Grows later) :
    later.Kept ∧ later.Extends table := by
  induction h with
  | refl => exact ⟨kept, Extends.refl table⟩
  | tail _ step ih =>
    obtain ⟨hkept, hext⟩ := ih
    obtain ⟨hkept', hext'⟩ := hkept.step step
    exact ⟨hkept', hext'.trans hext⟩

/-! ## Recursion over the table -/

lemma resolveWithin_concrete {id : TypeId} {info : TypeInfo} (hget : table.get id = .ok info)
    (hconcrete : info.Concrete) {steps : Nat} (hsteps : 0 < steps) :
    table.resolveWithin steps id = .ok id := by
  obtain ⟨steps, rfl⟩ := Nat.exists_eq_add_one_of_ne_zero (Nat.ne_of_gt hsteps)
  simp only [resolveWithin, hget, bind, Except.bind]
  split
  · exact absurd ‹_› (hconcrete _ _)
  · rfl

/-- A chain of definitions goes down, so that the number of its first type bounds its length. -/
lemma Kept.resolveWithin_ok (kept : table.Kept) {id : TypeId} {info : TypeInfo}
    (hget : table.get id = .ok info) : ∃ root rootInfo,
      (∀ steps, id.index < steps → table.resolveWithin steps id = .ok root) ∧
      table.get root = .ok rootInfo ∧ rootInfo.Concrete ∧
      info.size = rootInfo.size ∧ info.align = rootInfo.align := by
  induction hindex : id.index using Nat.strongRecOn generalizing id info with
  | _ index ih =>
    subst hindex
    by_cases hdefinition : ∃ name target, info.shape = .definition name target
    · obtain ⟨name, target, hshape⟩ := hdefinition
      obtain ⟨under, hunder, hsize, halign⟩ := (kept.measured hget).definition hshape
      have hlt := ((kept.sound.entry (get_eq_ok_iff.mp hget)).definition hshape).1
      obtain ⟨root, rootInfo, hroot, hrootGet, hconcrete, hrootSize, hrootAlign⟩ :=
        ih target.index hlt hunder rfl
      refine ⟨root, rootInfo, fun steps hsteps => ?_, hrootGet, hconcrete,
        hsize.symm.trans hrootSize, halign.symm.trans hrootAlign⟩
      obtain ⟨steps, rfl⟩ := Nat.exists_eq_add_one_of_ne_zero (Nat.ne_zero_of_lt hsteps)
      simp only [resolveWithin, hget, hshape, bind, Except.bind]
      exact hroot steps (by omega)
    · have hconcrete : info.Concrete := fun name target hshape =>
        hdefinition ⟨name, target, hshape⟩
      exact ⟨id, info, fun steps hsteps => resolveWithin_concrete hget hconcrete (by omega), hget,
        hconcrete, rfl, rfl⟩

/-- Fields are written out one by one, each with the levels that are left. -/
lemma describeFields_ok (bound : Nat) {fields : List Field}
    (h : ∀ field ∈ fields, ∃ text, ∀ levels, bound ≤ levels →
      table.describeWithin levels field.type = .ok text) :
    ∃ texts, ∀ levels, bound ≤ levels → (fields.mapM fun field => do
      return field.name ++ ": " ++ (← table.describeWithin levels field.type) ++ " ") =
        Except.ok texts := by
  induction fields with
  | nil => exact ⟨[], fun _ _ => rfl⟩
  | cons field rest ih =>
    obtain ⟨text, htext⟩ := h field (by simp)
    obtain ⟨texts, htexts⟩ := ih fun f hf => h f (by simp [hf])
    refine ⟨(field.name ++ ": " ++ text ++ " ") :: texts, fun levels hlevels => ?_⟩
    simp only [List.mapM_cons, htext levels hlevels, htexts levels hlevels]
    rfl

/-- The fields of a struct have smaller numbers, so that its number bounds how deep it goes. -/
lemma Sound.describeWithin_ok (sound : table.Sound) {id : TypeId} (h : table.Has id) :
    ∃ text, ∀ levels, id.index < levels → table.describeWithin levels id = .ok text := by
  induction hindex : id.index using Nat.strongRecOn generalizing id with
  | _ index ih =>
    subst hindex
    obtain ⟨info, hget⟩ := h.get
    have hrounds : ∃ text, ∀ levels, id.index ≤ levels →
        table.describeWithin (levels + 1) id = .ok text := by
      simp only [describeWithin, hget, bind, Except.bind]
      cases hshape : info.shape with
      | builtin which => exact ⟨_, fun _ _ => rfl⟩
      | definition name target => exact ⟨_, fun _ _ => rfl⟩
      | struct fields =>
        have hlt := (sound.entry (get_eq_ok_iff.mp hget)).fields hshape
        obtain ⟨texts, htexts⟩ := describeFields_ok id.index fun field hfield => by
          obtain ⟨text, htext⟩ :=
            ih field.type.index (hlt field hfield) (Nat.lt_trans (hlt field hfield) h) rfl
          exact ⟨text, fun levels hlevels => htext levels (by have := hlt field hfield; omega)⟩
        simp only [bind, Except.bind] at htexts
        refine ⟨"struct (" ++ String.join texts ++ ")", fun levels hlevels => ?_⟩
        simp only [htexts levels hlevels]
        rfl
    obtain ⟨text, htext⟩ := hrounds
    refine ⟨text, fun levels hlevels => ?_⟩
    obtain ⟨levels, rfl⟩ := Nat.exists_eq_add_one_of_ne_zero (Nat.ne_zero_of_lt hlevels)
    exact htext levels (by omega)

/-! ## The invariant -/

/-- What can be relied on in a table that only grew by calls with types it had. -/
structure Orderly (table : TypeTable) : Prop where
  /-- A definition is made for a type with a smaller number. -/
  definition_lt : ∀ {id info name target}, table.get id = .ok info →
    info.shape = .definition name target → target.index < id.index
  /-- The fields of a struct have types with smaller numbers. -/
  field_lt : ∀ {id info fields}, table.get id = .ok info → info.shape = .struct fields →
    ∀ field ∈ fields, field.type.index < id.index
  /-- Every chain of definitions ends, and no step after as many as the number of the type is
  needed.  The type at its end is no definition, stands for itself, and is measured alike. -/
  resolves : ∀ {id info}, table.get id = .ok info → ∃ root rootInfo,
    (∀ steps, id.index < steps → table.resolveWithin steps id = .ok root) ∧
    table.resolve id = .ok root ∧ table.resolve root = .ok root ∧
    table.get root = .ok rootInfo ∧ rootInfo.Concrete ∧
    info.size = rootInfo.size ∧ info.align = rootInfo.align
  /-- A type that is no definition stands for itself. -/
  resolve_concrete : ∀ {id info}, table.get id = .ok info → info.Concrete →
    table.resolve id = .ok id
  /-- Every type is written out, and no level below as many as its number is needed. -/
  describes : ∀ {id}, table.Has id → ∃ text, table.describe id = .ok text ∧
    ∀ levels, id.index < levels → table.describeWithin levels id = .ok text
  /-- There are two alignments, and they divide the sizes. -/
  align : ∀ {id info}, table.get id = .ok info →
    (info.align = 1 ∨ info.align = 8) ∧ info.align ∣ info.size
  /-- Under whatever name, an integer takes eight bytes and a boolean one. -/
  deep_size : ∀ {id info which}, table.get id = .ok info →
    table.deepShape id = .ok (.builtin which) →
    (which = .s64 ∨ which = .u64 → info.size = 8) ∧ (which = .bool → info.size = 1)
  /-- A builtin type is registered once, under its own number. -/
  builtin : ∀ which, table.registerBuiltin which = (which.id, table)
  /-- No other entry is that builtin type. -/
  builtin_unique : ∀ {id info which}, table.get id = .ok info → info.shape = .builtin which →
    id = which.id ∧ info = which.info

lemma Kept.orderly (kept : table.Kept) : table.Orderly where
  definition_lt hget hshape := ((kept.sound.entry (get_eq_ok_iff.mp hget)).definition hshape).1
  field_lt hget hshape := (kept.sound.entry (get_eq_ok_iff.mp hget)).fields hshape
  resolves {id info} hget := by
    have hhas : table.Has id := has_iff.mpr ⟨info, get_eq_ok_iff.mp hget⟩
    obtain ⟨root, rootInfo, hsteps, hroot, hconcrete, hsize, halign⟩ := kept.resolveWithin_ok hget
    refine ⟨root, rootInfo, hsteps, hsteps table.size hhas, ?_, hroot, hconcrete, hsize, halign⟩
    exact resolveWithin_concrete hroot hconcrete (Nat.zero_lt_of_lt hhas)
  resolve_concrete {id info} hget hconcrete := by
    have hhas : table.Has id := has_iff.mpr ⟨info, get_eq_ok_iff.mp hget⟩
    exact resolveWithin_concrete hget hconcrete (Nat.zero_lt_of_lt hhas)
  describes {id} hhas := by
    obtain ⟨text, htext⟩ := kept.sound.describeWithin_ok hhas
    exact ⟨text, htext table.size hhas, htext⟩
  align hget := ⟨(kept.measured hget).align, (kept.measured hget).divides⟩
  deep_size {id info which} hget hdeep := by
    have hhas : table.Has id := has_iff.mpr ⟨info, get_eq_ok_iff.mp hget⟩
    obtain ⟨root, rootInfo, hsteps, hroot, hconcrete, hsize, halign⟩ := kept.resolveWithin_ok hget
    -- what is scalar underneath is a builtin type, whose size is known
    have hshape : rootInfo.shape = .builtin which := by
      simpa [deepShape, resolve, hsteps table.size hhas, hroot, bind, Except.bind, pure,
        Except.pure] using hdeep
    obtain ⟨-, rfl⟩ := (kept.sound.entry (get_eq_ok_iff.mp hroot)).builtin hshape
    rw [hsize]
    cases which <;> simp [Builtin.info, Builtin.size]
  builtin which := kept.sound.registerBuiltin_eq which
  builtin_unique {id info which} hget hshape := by
    obtain ⟨hindex, hinfo⟩ := (kept.sound.entry (get_eq_ok_iff.mp hget)).builtin hshape
    exact ⟨congrArg TypeId.mk hindex.symm, hinfo⟩

/-- A table that started with the builtin types and grew by calls that were made with types it
had is in order; every further such call succeeds; and no entry ever changes. -/
theorem grown_orderly (h : Grows .initial table) :
    table.Orderly ∧
    (∀ call : Registration, call.Valid table → ∃ id later, call.run table = .ok (id, later)) ∧
    ∀ later, table.Grows later → ∀ id info, table.get id = .ok info →
      later.get id = .ok info := by
  have kept := (kept_initial.grows h).1
  refine ⟨kept.orderly, fun call valid => ?_, fun later hlater id info hget => ?_⟩
  · obtain ⟨id, later, hrun, -⟩ := kept.run_ok valid
    exact ⟨id, later, hrun⟩
  · exact (kept.grows hlater).2.get hget

/-- A table with a struct of a boolean and an integer, another name for it, and a struct with two
of those. -/
def nested : TypeTable := ⟨TypeTable.initial.entries ++ #[
  ⟨.struct [⟨"flag", Builtin.bool.id, 0⟩, ⟨"value", Builtin.s64.id, 8⟩], 16, 8⟩,
  ⟨.definition "pair" ⟨4⟩, 16, 8⟩,
  ⟨.struct [⟨"one", ⟨5⟩, 0⟩, ⟨"other", ⟨5⟩, 16⟩], 32, 8⟩]⟩

lemma grows_nested : Grows .initial nested :=
  grows_iff_runAll.mpr ⟨[.struct [("flag", Builtin.bool.id), ("value", Builtin.s64.id)],
    .definition "pair" ⟨4⟩, .builtin .bool, .struct [("one", ⟨5⟩), ("other", ⟨5⟩)]],
    by decide +kernel⟩

/-- The struct is resolved and written out under its other name. -/
theorem grown_orderly_nested :
    (Grows .initial nested ∧ nested.resolve ⟨5⟩ = .ok ⟨4⟩ ∧
      nested.describe ⟨6⟩ = .ok "struct (one: pair other: pair )") ∧
    nested.Orderly ∧ ∃ id later,
      (Registration.definition "two" ⟨6⟩).run nested = .ok (id, later) := by
  obtain ⟨orderly, answers, -⟩ := grown_orderly grows_nested
  refine ⟨⟨grows_nested, by decide +kernel, by decide +kernel⟩, orderly, answers _ ?_⟩
  simp [Registration.Valid, Registration.mentions, Has, size, nested, initial, Builtin.all]

end TypeTable

end ParenC
