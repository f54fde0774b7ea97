/-
What can be relied on in a type table.

A table that grows through `registerStruct` and `registerDefinition` alone is *sound*: the
builtin types stand in front and nowhere else, and every other entry only mentions entries
before it.  So chains of definitions end, nested structs can be written out, and the queries on
types have an answer for every number that was handed out.
-/
import Mathlib.Order.Bounds.Basic
import Mathlib.Tactic.Common
import ParenC.Types

namespace ParenC

/-- Rounding up gives the least multiple. -/
lemma roundUp_isLeast (n : Nat) {align : Nat} (h : 0 < align) :
    IsLeast { m | align ∣ m ∧ n ≤ m } (roundUp n align) := by
  have hmod := Nat.mod_lt (n + align - 1) h
  have hdiv := Nat.div_add_mod' (n + align - 1) align
  unfold roundUp
  constructor
  · exact ⟨Nat.dvd_mul_left _ _, by omega⟩
  · rintro m ⟨⟨k, rfl⟩, hle⟩
    rw [Nat.mul_comm align k]
    refine Nat.mul_le_mul_right align (Nat.le_of_lt_succ ((Nat.div_lt_iff_lt_mul h).mpr ?_))
    rw [Nat.succ_mul, Nat.mul_comm k align]
    omega

namespace TypeTable

variable {table : TypeTable}

/-- The table has an entry with this number. -/
def Has (table : TypeTable) (id : TypeId) : Prop := id.index < table.size

/-- What holds of the entry `info` at place `i` of a sound table. -/
structure EntrySound (table : TypeTable) (i : Nat) (info : TypeInfo) : Prop where
  /-- Values lie at multiples of something. -/
  align_pos : 0 < info.align
  /-- A builtin type has its own place. -/
  builtin : ∀ {which}, info.shape = .builtin which → which.id.index = i ∧ info = which.info
  /-- Fields have types from before. -/
  fields : ∀ {fields}, info.shape = .struct fields → ∀ field ∈ fields, field.type.index < i
  /-- A definition is made for a type from before, and is as large. -/
  definition : ∀ {name target}, info.shape = .definition name target → target.index < i ∧
    ∃ under, table.entries[target.index]? = some under ∧ under.size = info.size

/-- A table that only grew by structs and definitions of types it had. -/
structure Sound (table : TypeTable) : Prop where
  /-- The builtin types have their places. -/
  builtins : ∀ which : Builtin, table.entries[which.id.index]? = some which.info
  /-- Every entry is in order. -/
  entry : ∀ {i info}, table.entries[i]? = some info → EntrySound table i info

/-- All entries of one table are entries of another one, under the same numbers. -/
def Extends (table' table : TypeTable) : Prop :=
  ∀ ⦃i : Nat⦄ ⦃info : TypeInfo⦄, table.entries[i]? = some info → table'.entries[i]? = some info

lemma Extends.refl (table : TypeTable) : table.Extends table := fun _ _ h => h

lemma Extends.trans {a b c : TypeTable} (h₁ : c.Extends b) (h₂ : b.Extends a) : c.Extends a :=
  fun _ _ h => h₁ (h₂ h)

lemma has_iff {id : TypeId} : table.Has id ↔ ∃ info, table.entries[id.index]? = some info := by
  constructor
  · intro h
    exact ⟨_, Array.getElem?_eq_getElem h⟩
  · rintro ⟨info, h⟩
    exact (Array.getElem?_eq_some_iff.mp h).1

lemma Extends.has {table' : TypeTable} (h : table'.Extends table) {id : TypeId}
    (hid : table.Has id) : table'.Has id := by
  obtain ⟨info, hinfo⟩ := has_iff.mp hid
  exact has_iff.mpr ⟨info, h hinfo⟩

lemma get_eq_ok_iff {id : TypeId} {info : TypeInfo} :
    table.get id = .ok info ↔ table.entries[id.index]? = some info := by
  unfold get
  split <;> simp_all

lemma Has.get {id : TypeId} (h : table.Has id) : ∃ info, table.get id = .ok info := by
  obtain ⟨info, hinfo⟩ := has_iff.mp h
  exact ⟨info, get_eq_ok_iff.mpr hinfo⟩

lemma Sound.has_builtin (sound : table.Sound) (which : Builtin) : table.Has which.id :=
  has_iff.mpr ⟨_, sound.builtins which⟩

/-! ## Growing -/

lemma sound_initial : TypeTable.initial.Sound := by
  constructor
  · intro which
    cases which <;> rfl
  · intro i info h
    have hi : i < 4 := by
      have := (Array.getElem?_eq_some_iff.mp h).1
      simpa [initial, Builtin.all] using this
    obtain ⟨which, hwhich, rfl⟩ : ∃ which : Builtin, which.id.index = i ∧ info = which.info := by
      rcases i with _ | _ | _ | _ | i
      · exact ⟨.void, rfl, by simpa [initial, Builtin.all] using h.symm⟩
      · exact ⟨.s64, rfl, by simpa [initial, Builtin.all] using h.symm⟩
      · exact ⟨.u64, rfl, by simpa [initial, Builtin.all] using h.symm⟩
      · exact ⟨.bool, rfl, by simpa [initial, Builtin.all] using h.symm⟩
      · omega
    constructor
    · simp only [Builtin.info]
      omega
    · intro which' hshape
      simp only [Builtin.info, Shape.builtin.injEq] at hshape
      exact hshape ▸ ⟨hwhich, rfl⟩
    · intro fields hshape
      simp [Builtin.info] at hshape
    · intro name target hshape
      simp [Builtin.info] at hshape

lemma register_extends (table : TypeTable) (info : TypeInfo) :
    (table.register info).2.Extends table := by
  intro i old h
  have hi : i < table.entries.size := (Array.getElem?_eq_some_iff.mp h).1
  simp only [register, Array.getElem?_push]
  rw [if_neg (by omega)]
  exact h

lemma register_has (table : TypeTable) (info : TypeInfo) :
    (table.register info).2.Has (table.register info).1 := by
  simp [register, Has, size]

/-- An entry stays in order when the table grows. -/
lemma EntrySound.mono {table' : TypeTable} {i : Nat} {info : TypeInfo}
    (h : EntrySound table i info) (ext : table'.Extends table) : EntrySound table' i info where
  align_pos := h.align_pos
  builtin := h.builtin
  fields := h.fields
  definition hshape := by
    obtain ⟨hlt, under, hunder, hsize⟩ := h.definition hshape
    exact ⟨hlt, under, ext hunder, hsize⟩

/-- A table stays sound when an entry is added that is in order. -/
lemma Sound.register (sound : table.Sound) {info : TypeInfo}
    (h : EntrySound table table.size info) : (table.register info).2.Sound where
  builtins which := register_extends table info (sound.builtins which)
  entry := by
    intro i old hold
    refine EntrySound.mono ?_ (register_extends table info)
    simp only [TypeTable.register, Array.getElem?_push] at hold
    split at hold
    · rename_i hi
      cases hold
      exact hi ▸ h
    · exact sound.entry hold

/-- Laying out one more field: it gets the next place that its type allows. -/
lemma layOut_cons_eq_ok {name : String} {type : TypeId} {rest : List (String × TypeId)}
    {start align : Nat} {layout : Layout} :
    table.layOut start align ((name, type) :: rest) = .ok layout ↔ ∃ info inner,
      table.get type = .ok info ∧ info.align ≠ 0 ∧
      table.layOut (roundUp start info.align + info.size) (max align info.align) rest =
        .ok inner ∧
      layout = { inner with fields := ⟨name, type, roundUp start info.align⟩ :: inner.fields } := by
  simp only [layOut, bind, Except.bind]
  constructor
  · intro h
    split at h
    · cases h
    · rename_i info hinfo
      split at h
      · cases h
      · rename_i halign
        split at h
        · cases h
        · rename_i inner hinner
          cases h
          exact ⟨info, inner, hinfo, halign, hinner, rfl⟩
  · rintro ⟨info, inner, hinfo, halign, hinner, rfl⟩
    simp only [hinfo, if_neg halign, hinner]
    rfl

/-- What adding a struct does. -/
lemma registerStruct_eq_ok {fields : List (String × TypeId)} {added : TypeId × TypeTable} :
    table.registerStruct fields = .ok added ↔ ∃ layout, table.layOut 0 1 fields = .ok layout ∧
      added = table.register
        ⟨.struct layout.fields, roundUp layout.stop layout.align, layout.align⟩ := by
  cases hlayout : table.layOut 0 1 fields <;>
    simp [registerStruct, hlayout, bind, Except.bind, pure, Except.pure, eq_comm]

/-- What adding a definition does. -/
lemma registerDefinition_eq_ok {name : String} {target : TypeId} {added : TypeId × TypeTable} :
    table.registerDefinition name target = .ok added ↔ ∃ info, table.get target = .ok info ∧
      added = table.register ⟨.definition name target, info.size, info.align⟩ := by
  cases hinfo : table.get target <;>
    simp [registerDefinition, hinfo, bind, Except.bind, pure, Except.pure, eq_comm]

lemma layOut_ok (sound : table.Sound) {fields : List (String × TypeId)}
    (hfields : ∀ field ∈ fields, table.Has field.2) (start : Nat) {align : Nat}
    (halign : 0 < align) :
    ∃ layout, table.layOut start align fields = .ok layout ∧ 0 < layout.align ∧
      ∀ field ∈ layout.fields, table.Has field.type := by
  induction fields generalizing start align with
  | nil => exact ⟨_, rfl, halign, by simp⟩
  | cons field rest ih =>
    obtain ⟨name, type⟩ := field
    obtain ⟨info, hinfo⟩ := (hfields (name, type) (by simp)).get
    have hpos : 0 < info.align := (sound.entry (get_eq_ok_iff.mp hinfo)).align_pos
    have hmax : 0 < max align info.align := by omega
    obtain ⟨layout, hlayout, hlpos, hlfields⟩ :=
      ih (fun f hf => hfields f (by simp [hf])) (roundUp start info.align + info.size) hmax
    refine ⟨_, layOut_cons_eq_ok.mpr ⟨info, layout, hinfo, by omega, hlayout, rfl⟩, hlpos, ?_⟩
    intro field hfield
    rcases List.mem_cons.mp hfield with rfl | hfield
    · exact hfields (name, type) (by simp)
    · exact hlfields field hfield

/-- A struct of types that the table has can be added. -/
lemma registerStruct_ok (sound : table.Sound) {fields : List (String × TypeId)}
    (hfields : ∀ field ∈ fields, table.Has field.2) :
    ∃ id table', table.registerStruct fields = .ok (id, table') ∧ table'.Sound ∧
      table'.Extends table ∧ table'.Has id := by
  obtain ⟨layout, hlayout, hpos, hlfields⟩ := layOut_ok sound hfields 0 Nat.one_pos
  refine ⟨_, _, registerStruct_eq_ok.mpr ⟨layout, hlayout, rfl⟩, ?_, register_extends _ _,
    register_has _ _⟩
  refine sound.register ⟨hpos, ?_, ?_, ?_⟩
  · intro which hshape
    simp at hshape
  · intro fields' hshape field hfield
    simp only [Shape.struct.injEq] at hshape
    exact hlfields field (hshape ▸ hfield)
  · intro name target hshape
    simp at hshape

/-- A definition of a type that the table has can be added. -/
lemma registerDefinition_ok (sound : table.Sound) (name : String) {target : TypeId}
    (htarget : table.Has target) :
    ∃ id table', table.registerDefinition name target = .ok (id, table') ∧ table'.Sound ∧
      table'.Extends table ∧ table'.Has id := by
  obtain ⟨info, hinfo⟩ := htarget.get
  have hentry := get_eq_ok_iff.mp hinfo
  refine ⟨_, _, registerDefinition_eq_ok.mpr ⟨info, hinfo, rfl⟩, ?_, register_extends _ _,
    register_has _ _⟩
  refine sound.register ⟨(sound.entry hentry).align_pos, ?_, ?_, ?_⟩
  · intro which hshape
    simp at hshape
  · intro fields hshape
    simp at hshape
  · intro name' target' hshape
    simp only [Shape.definition.injEq] at hshape
    obtain ⟨-, rfl⟩ := hshape
    exact ⟨htarget, info, hentry, rfl⟩

lemma register_getElem? (table : TypeTable) (info : TypeInfo) :
    (table.register info).2.entries[(table.register info).1.index]? = some info := by
  simp [register, size]

/-- Fields keep their names and types when they get their places. -/
lemma layOut_fields {fields : List (String × TypeId)} {start align : Nat} {layout : Layout}
    (h : table.layOut start align fields = .ok layout) :
    layout.fields.map (fun field => (field.name, field.type)) = fields := by
  induction fields generalizing start align layout with
  | nil =>
    cases h
    rfl
  | cons field rest ih =>
    obtain ⟨info, inner, -, -, hinner, rfl⟩ := layOut_cons_eq_ok.mp h
    simp [ih hinner]

/-- What a new struct is. -/
lemma registerStruct_entry {table' : TypeTable} {fields : List (String × TypeId)} {id : TypeId}
    (h : table.registerStruct fields = .ok (id, table')) : ∃ info placed,
      table'.entries[id.index]? = some info ∧ info.shape = .struct placed ∧
      placed.map (fun field => (field.name, field.type)) = fields := by
  obtain ⟨layout, hlayout, hadded⟩ := registerStruct_eq_ok.mp h
  cases hadded
  exact ⟨_, layout.fields, register_getElem? _ _, rfl, layOut_fields hlayout⟩

/-- What a new definition is. -/
lemma registerDefinition_entry {table' : TypeTable} {name : String} {target id : TypeId}
    (h : table.registerDefinition name target = .ok (id, table')) : ∃ info,
      table'.entries[id.index]? = some info ∧ info.shape = .definition name target := by
  obtain ⟨info, -, hadded⟩ := registerDefinition_eq_ok.mp h
  cases hadded
  exact ⟨_, register_getElem? _ _, rfl⟩

/-! ## Asking -/

/-- The type `id` is the type `root` under other names, and `info` is the entry of `root`. -/
structure Denotes (table : TypeTable) (id root : TypeId) (info : TypeInfo) : Prop where
  /-- The chain of definitions ends at `root`. -/
  resolve : table.resolve id = .ok root
  /-- The entry at the end. -/
  get : table.get root = .ok info
  /-- It is no definition. -/
  concrete : ∀ name target, info.shape ≠ .definition name target
  /-- The type itself is as large. -/
  size : ∃ named, table.get id = .ok named ∧ named.size = info.size

lemma resolveWithin_ok (sound : table.Sound) {id : TypeId} (h : table.Has id) {steps : Nat}
    (hsteps : id.index < steps) :
    ∃ root info, table.resolveWithin steps id = .ok root ∧ table.get root = .ok info ∧
      (∀ name target, info.shape ≠ .definition name target) ∧
      ∃ named, table.get id = .ok named ∧ named.size = info.size := by
  induction steps generalizing id with
  | zero => omega
  | succ steps ih =>
    obtain ⟨named, hnamed⟩ := h.get
    simp only [resolveWithin, hnamed, bind, Except.bind]
    cases hshape : named.shape with
    | definition name target =>
      obtain ⟨hlt, under, hunder, hsize⟩ := (sound.entry (get_eq_ok_iff.mp hnamed)).definition hshape
      obtain ⟨root, info, hroot, hget, hconc, named', hnamed', hsize'⟩ :=
        ih (has_iff.mpr ⟨under, hunder⟩) (by omega)
      have hsame : named' = under := by
        have := get_eq_ok_iff.mp hnamed'
        rw [hunder] at this
        exact (Option.some.inj this).symm
      exact ⟨root, info, hroot, hget, hconc, named, rfl, by rw [← hsize, ← hsame, hsize']⟩
    | builtin which => exact ⟨id, named, rfl, hnamed, by simp [hshape], named, rfl, rfl⟩
    | struct fields => exact ⟨id, named, rfl, hnamed, by simp [hshape], named, rfl, rfl⟩

/-- Every type of a sound table denotes something. -/
lemma Sound.denotes (sound : table.Sound) {id : TypeId} (h : table.Has id) :
    ∃ root info, table.Denotes id root info := by
  obtain ⟨root, info, hroot, hget, hconc, hsize⟩ := resolveWithin_ok sound h h
  exact ⟨root, info, hroot, hget, hconc, hsize⟩

/-- A builtin type denotes itself. -/
lemma Sound.denotes_builtin (sound : table.Sound) (which : Builtin) :
    table.Denotes which.id which.id which.info := by
  have hget : table.get which.id = .ok which.info := get_eq_ok_iff.mpr (sound.builtins which)
  refine ⟨?_, hget, by simp [Builtin.info], which.info, hget, rfl⟩
  obtain ⟨steps, hsteps⟩ : ∃ steps, table.size = steps + 1 :=
    Nat.exists_eq_succ_of_ne_zero (Nat.ne_of_gt (Nat.zero_lt_of_lt (sound.has_builtin which)))
  simp [TypeTable.resolve, hsteps, resolveWithin, hget, Builtin.info, bind, Except.bind, pure,
    Except.pure]

lemma Denotes.has {id root : TypeId} {info : TypeInfo} (h : table.Denotes id root info) :
    table.Has root := has_iff.mpr ⟨info, get_eq_ok_iff.mp h.get⟩

lemma Denotes.deepShape {id root : TypeId} {info : TypeInfo} (h : table.Denotes id root info) :
    table.deepShape id = .ok info.shape := by
  simp [TypeTable.deepShape, h.resolve, h.get, bind, Except.bind, pure, Except.pure]

/-- The builtin types are told apart by their numbers. -/
lemma Denotes.root_eq_iff (sound : table.Sound) {id root : TypeId} {info : TypeInfo}
    (h : table.Denotes id root info) (which : Builtin) :
    root = which.id ↔ info.shape = .builtin which := by
  have hentry := get_eq_ok_iff.mp h.get
  constructor
  · rintro rfl
    rw [sound.builtins which] at hentry
    cases hentry
    rfl
  · intro hshape
    obtain ⟨hindex, -⟩ := (sound.entry hentry).builtin hshape
    cases root with
    | mk index =>
      cases hw : which.id
      simp_all

lemma Sound.isScalar_ok (sound : table.Sound) {id : TypeId} (h : table.Has id) :
    ∃ b, table.isScalar id = .ok b := by
  obtain ⟨root, info, hd⟩ := sound.denotes h
  cases hshape : info.shape <;>
    simp [isScalar, hd.deepShape, hshape, bind, Except.bind, pure, Except.pure]

lemma Sound.isStruct_ok (sound : table.Sound) {id : TypeId} (h : table.Has id) :
    ∃ b, table.isStruct id = .ok b := by
  obtain ⟨root, info, hd⟩ := sound.denotes h
  cases hshape : info.shape <;>
    simp [isStruct, hd.deepShape, hshape, bind, Except.bind, pure, Except.pure]

lemma Denotes.isUnsigned {id root : TypeId} {info : TypeInfo} (h : table.Denotes id root info) :
    table.isUnsigned id = .ok (decide (info.shape = .builtin .u64)) := by
  simp [TypeTable.isUnsigned, h.deepShape, bind, Except.bind, pure, Except.pure]

lemma describeWithin_ok (sound : table.Sound) {id : TypeId} (h : table.Has id) {levels : Nat}
    (hlevels : id.index < levels) : ∃ text, table.describeWithin levels id = .ok text := by
  induction levels generalizing id with
  | zero => omega
  | succ levels ih =>
    obtain ⟨info, hinfo⟩ := h.get
    have hentry := sound.entry (get_eq_ok_iff.mp hinfo)
    simp only [describeWithin, hinfo, bind, Except.bind]
    cases hshape : info.shape with
    | builtin which => exact ⟨_, rfl⟩
    | definition name target => exact ⟨_, rfl⟩
    | struct fields =>
      -- fields have smaller numbers than their struct, so there are levels enough for them
      have hfields : ∀ fs : List Field, (∀ field ∈ fs, field.type.index < id.index) →
          ∃ texts, fs.mapM (fun field => do
            return field.name ++ ": " ++ (← table.describeWithin levels field.type) ++ " ")
              = Except.ok texts := by
        intro fs hfs
        induction fs with
        | nil => exact ⟨[], rfl⟩
        | cons field rest ihfs =>
          have hfield := hfs field (by simp)
          have hhas : table.Has field.type := Nat.lt_trans hfield h
          obtain ⟨text, htext⟩ := ih hhas (by omega)
          obtain ⟨texts, htexts⟩ := ihfs fun f hf => hfs f (by simp [hf])
          simp only [bind, Except.bind] at htexts
          simp only [List.mapM_cons, htext, bind, Except.bind, htexts]
          exact ⟨_, rfl⟩
      obtain ⟨texts, htexts⟩ := hfields fields (hentry.fields hshape)
      simp only [bind, Except.bind] at htexts
      simp only [htexts]
      exact ⟨_, rfl⟩

/-- Every type of a sound table can be written out. -/
lemma Sound.describe_ok (sound : table.Sound) {id : TypeId} (h : table.Has id) :
    ∃ text, table.describe id = .ok text :=
  describeWithin_ok sound h h

end TypeTable

end ParenC
