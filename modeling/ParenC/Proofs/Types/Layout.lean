/-
Where the fields of a struct lie.

Fields are laid out in the order in which they are written.  Each of them lies as low as its
alignment and the fields before it allow, and the struct ends as early as its own alignment
allows, which is the largest one among its fields.  `LaysOut` says this, and it says what it is
good for: no other way to lay out fields of these types in this order has a field lower or needs
less room.

A struct can have fields that are structs themselves.  `Inside` finds everything that values of a
type contain, however deep.  An alignment divides those of the types around it, so that what is
aligned inside a field is aligned inside the whole struct as well.

The main result is `struct_laid_out`.
-/
import ParenC.Proofs.Types.Registration

namespace ParenC

namespace TypeTable

variable {table : TypeTable}

/-! ## Sizes and ends -/

/-- The number that the address of a value of the type is a multiple of. -/
def alignOf (table : TypeTable) (id : TypeId) : Nat :=
  match table.get id with
  | .ok info => info.align
  | .error _ => 1

lemma sizeOf_eq {id : TypeId} {info : TypeInfo} (h : table.get id = .ok info) :
    table.sizeOf id = info.size := by
  simp [sizeOf, h]

lemma alignOf_eq {id : TypeId} {info : TypeInfo} (h : table.get id = .ok info) :
    table.alignOf id = info.align := by
  simp [alignOf, h]

/-- The end of the last field, or `start` if there is none. -/
def endOf (table : TypeTable) (start : Nat) : List Field → Nat
  | [] => start
  | field :: rest => table.endOf (field.offset + table.sizeOf field.type) rest

@[simp] lemma endOf_nil (start : Nat) : table.endOf start [] = start := rfl

@[simp] lemma endOf_cons (start : Nat) (field : Field) (rest : List Field) :
    table.endOf start (field :: rest) =
      table.endOf (field.offset + table.sizeOf field.type) rest := rfl

/-! ## Laying out -/

/-- The fields can lie where they do: they are aligned, and each of them starts when those before
it have ended. -/
structure Fits (table : TypeTable) (fields : List Field) : Prop where
  /-- The start of a field is a multiple of its alignment. -/
  aligned : ∀ field ∈ fields, table.alignOf field.type ∣ field.offset
  /-- No two fields overlap. -/
  apart : fields.Pairwise fun one other => one.offset + table.sizeOf one.type ≤ other.offset

/-- The fields `placed` make up a struct of the given size and alignment, which is laid out as
tightly as can be. -/
structure LaysOut (table : TypeTable) (placed : List Field) (size align : Nat) : Prop
    extends table.Fits placed where
  /-- A field lies at the least multiple of its alignment that is not below the end of the field
  before it. -/
  offset_isLeast : ∀ {before field after}, placed = before ++ field :: after →
    IsLeast { n | table.alignOf field.type ∣ n ∧ table.endOf 0 before ≤ n } field.offset
  /-- Later fields do not lie lower. -/
  sorted : placed.Pairwise fun one other => one.offset ≤ other.offset
  /-- The alignment is the largest one of a field, and at least one. -/
  align_isGreatest :
    IsGreatest (insert 1 { n | ∃ field ∈ placed, table.alignOf field.type = n }) align
  /-- The size is the least multiple of the alignment that is not below the end of the last
  field. -/
  size_isLeast : IsLeast { n | align ∣ n ∧ table.endOf 0 placed ≤ n } size
  /-- Fields of these types cannot lie lower, nor in a smaller struct. -/
  least : ∀ {other}, table.Fits other → other.map Field.type = placed.map Field.type →
    List.Forall₂ (fun mine theirs => mine.offset ≤ theirs.offset) placed other ∧
      ∀ n, align ∣ n → table.endOf 0 other ≤ n → size ≤ n

/-- The fields lie one behind the other, each as low as it can, the first at or behind `start`. -/
inductive Stacked (table : TypeTable) : (start : Nat) → List Field → Prop
  | nil {start : Nat} : Stacked table start []
  | cons {start : Nat} {field : Field} {rest : List Field}
      (least : IsLeast { n | table.alignOf field.type ∣ n ∧ start ≤ n } field.offset)
      (others : Stacked table (field.offset + table.sizeOf field.type) rest) :
      Stacked table start (field :: rest)

namespace Stacked

variable {start : Nat} {placed : List Field}

lemma offset (h : table.Stacked start placed) {before after : List Field} {field : Field}
    (hsplit : placed = before ++ field :: after) :
    IsLeast { n | table.alignOf field.type ∣ n ∧ table.endOf start before ≤ n }
      field.offset := by
  induction h generalizing before with
  | nil => simp at hsplit
  | cons least others ih =>
    cases before with
    | nil =>
      cases hsplit
      exact least
    | cons first before =>
      obtain ⟨rfl, hrest⟩ := List.cons.inj hsplit
      exact ih hrest

lemma start_le (h : table.Stacked start placed) : ∀ field ∈ placed, start ≤ field.offset := by
  induction h with
  | nil => simp
  | @cons start field rest least others ih =>
    have hfirst : start ≤ field.offset := least.1.2
    rintro other (_ | ⟨_, hother⟩)
    · exact hfirst
    · have := ih other hother
      omega

lemma fits (h : table.Stacked start placed) : table.Fits placed := by
  induction h with
  | nil => exact ⟨by simp, .nil⟩
  | cons least others ih =>
    refine ⟨?_, .cons others.start_le ih.apart⟩
    rintro other (_ | ⟨_, hother⟩)
    · exact least.1.1
    · exact ih.aligned other hother

lemma sorted (h : table.Stacked start placed) :
    placed.Pairwise fun one other => one.offset ≤ other.offset :=
  h.fits.apart.imp fun hle => by omega

/-- Nothing ends behind the last field. -/
lemma stop_le (h : table.Stacked start placed) : start ≤ table.endOf start placed ∧
    ∀ field ∈ placed, field.offset + table.sizeOf field.type ≤ table.endOf start placed := by
  induction h with
  | nil => simp
  | @cons start field rest least others ih =>
    obtain ⟨hstop, hrest⟩ := ih
    have hfirst : start ≤ field.offset := least.1.2
    rw [endOf_cons]
    refine ⟨by omega, ?_⟩
    rintro other (_ | ⟨_, hother⟩)
    · exact hstop
    · exact hrest other hother

/-- By induction on the fields: when the fields so far end no later than others do, the next one
starts no later, and then it ends no later. -/
lemma least (h : table.Stacked start placed) {other : List Field} {start' : Nat}
    (hstart : start ≤ start') (hbehind : ∀ field ∈ other, start' ≤ field.offset)
    (hfits : table.Fits other) (htypes : other.map Field.type = placed.map Field.type) :
    List.Forall₂ (fun mine theirs => mine.offset ≤ theirs.offset) placed other ∧
      table.endOf start placed ≤ table.endOf start' other := by
  induction h generalizing other start' with
  | nil =>
    obtain rfl := List.map_eq_nil_iff.mp htypes
    exact ⟨.nil, hstart⟩
  | @cons start field rest least others ih =>
    obtain ⟨field', rest', rfl, htype, hrest⟩ := List.map_eq_cons_iff.mp htypes
    have hlow : field.offset ≤ field'.offset := by
      refine least.2 ⟨htype ▸ hfits.aligned field' (by simp), ?_⟩
      exact Nat.le_trans hstart (hbehind field' (by simp))
    obtain ⟨hapart, hrestApart⟩ := List.pairwise_cons.mp hfits.apart
    have hrestFits : table.Fits rest' :=
      ⟨fun f hf => hfits.aligned f (by simp [hf]), hrestApart⟩
    have hend : field.offset + table.sizeOf field.type ≤
        field'.offset + table.sizeOf field'.type := by
      rw [htype]
      omega
    obtain ⟨hforall, hstop⟩ := ih hend hapart hrestFits hrest
    exact ⟨.cons hlow hforall, hstop⟩

end Stacked

/-- What laying out fields comes to. -/
lemma layOut_stacked (sound : table.Sound) {fields : List (String × TypeId)} {start align : Nat}
    {layout : Layout} (h : table.layOut start align fields = .ok layout) :
    table.Stacked start layout.fields ∧ layout.stop = table.endOf start layout.fields ∧
      align ≤ layout.align ∧
      (∀ field ∈ layout.fields, table.alignOf field.type ≤ layout.align) ∧
      (layout.align = align ∨
        ∃ field ∈ layout.fields, table.alignOf field.type = layout.align) := by
  induction fields generalizing start align layout with
  | nil =>
    cases h
    exact ⟨.nil, rfl, Nat.le_refl _, by simp, .inl rfl⟩
  | cons field rest ih =>
    obtain ⟨info, inner, hinfo, -, hinner, rfl⟩ := layOut_cons_eq_ok.mp h
    have hsize := sizeOf_eq hinfo
    have halign := alignOf_eq hinfo
    have hpos := (sound.entry (get_eq_ok_iff.mp hinfo)).align_pos
    obtain ⟨hstacked, hstop, hmax, hfields, hreached⟩ := ih hinner
    refine ⟨.cons ?_ (hsize ▸ hstacked), ?_, ?_, ?_, ?_⟩
    · rw [halign]
      exact roundUp_isLeast start hpos
    · rw [endOf_cons, hsize]
      exact hstop
    · exact (Nat.le_max_left _ _).trans hmax
    · rintro other (_ | ⟨_, hother⟩)
      · rw [halign]
        exact (Nat.le_max_right _ _).trans hmax
      · exact hfields other hother
    · -- the alignment that is reached is the one at the start, that of this field, or of a later one
      rcases hreached with hreached | ⟨other, hother, hreached⟩
      · rcases Nat.le_total info.align align with hle | hle
        · exact .inl (hreached.trans (Nat.max_eq_left hle))
        · refine .inr ⟨_, List.mem_cons_self, ?_⟩
          exact halign.trans (hreached.trans (Nat.max_eq_right hle)).symm
      · exact .inr ⟨other, List.mem_cons_of_mem _ hother, hreached⟩

/-- Fields are laid out as tightly as can be. -/
lemma layOut_laysOut (sound : table.Sound) {fields : List (String × TypeId)} {layout : Layout}
    (h : table.layOut 0 1 fields = .ok layout) :
    table.LaysOut layout.fields (roundUp layout.stop layout.align) layout.align := by
  obtain ⟨hstacked, hstop, hone, hfields, hreached⟩ := layOut_stacked sound h
  have hsize := roundUp_isLeast layout.stop hone
  rw [hstop] at hsize ⊢
  refine { hstacked.fits with
    offset_isLeast := hstacked.offset
    sorted := hstacked.sorted
    align_isGreatest := ⟨?_, ?_⟩
    size_isLeast := hsize
    least := ?_ }
  · rcases hreached with hreached | hreached
    · exact .inl hreached
    · exact .inr hreached
  · rintro n (rfl | ⟨field, hfield, rfl⟩)
    · exact hone
    · exact hfields field hfield
  · intro other hfits htypes
    obtain ⟨hforall, hend⟩ :=
      hstacked.least (Nat.le_refl 0) (fun field _ => Nat.zero_le _) hfits htypes
    exact ⟨hforall, fun n hdvd hle => hsize.2 ⟨hdvd, hend.trans hle⟩⟩

/-! ## What is inside a type -/

/-- Values of the type `outer` contain values of the type `inner`, `offset` bytes from their
start. -/
inductive Inside (table : TypeTable) : (outer : TypeId) → (offset : Nat) → (inner : TypeId) → Prop
  /-- A value is all of itself. -/
  | self {id : TypeId} : Inside table id 0 id
  /-- Under another name a type contains the same. -/
  | definition {id target inner : TypeId} {info : TypeInfo} {name : String} {offset : Nat}
      (get : table.get id = .ok info) (shape : info.shape = .definition name target)
      (rest : Inside table target offset inner) : Inside table id offset inner
  /-- A struct contains what its fields contain. -/
  | field {id inner : TypeId} {info : TypeInfo} {fields : List Field} {field : Field}
      {offset : Nat} (get : table.get id = .ok info) (shape : info.shape = .struct fields)
      (mem : field ∈ fields) (rest : Inside table field.type offset inner) :
      Inside table id (field.offset + offset) inner

/-- How the fields of an entry lie in it, if it is a struct. -/
def Holds (table : TypeTable) (info : TypeInfo) : Prop :=
  ∀ fields, info.shape = .struct fields → ∀ field ∈ fields, ∃ under,
    table.get field.type = .ok under ∧ under.align ∣ field.offset ∧ under.align ∣ info.align ∧
      field.offset + under.size ≤ info.size

lemma Holds.mono {later : TypeTable} {info : TypeInfo} (h : table.Holds info)
    (ext : later.Extends table) : later.Holds info := by
  intro fields hshape field hfield
  obtain ⟨under, hunder, hfacts⟩ := h fields hshape field hfield
  exact ⟨under, ext.get hunder, hfacts⟩

/-- There are two alignments only, and the smaller one divides the larger one. -/
lemma dvd_of_le {a b : Nat} (ha : a = 1 ∨ a = 8) (hb : b = 1 ∨ b = 8) (h : a ≤ b) : a ∣ b := by
  rcases ha with rfl | rfl
  · exact Nat.one_dvd b
  · obtain rfl : b = 8 := by omega
    exact Nat.dvd_refl 8

/-- A struct holds the fields that were laid out. -/
lemma layOut_holds (kept : table.Kept) {fields : List (String × TypeId)} {layout : Layout}
    (h : table.layOut 0 1 fields = .ok layout) : table.Holds
      ⟨.struct layout.fields, roundUp layout.stop layout.align, layout.align⟩ := by
  obtain ⟨hstacked, hstop, hone, hfields, -⟩ := layOut_stacked kept.sound h
  rintro placed hshape field hfield
  cases hshape
  obtain ⟨under, hunder⟩ : ∃ under, table.get field.type = .ok under := by
    have hmem : (field.name, field.type) ∈ fields := by
      rw [← layOut_fields h]
      exact List.mem_map_of_mem hfield
    exact (layOut_has h _ hmem).get
  have hdvd := hstacked.fits.aligned field hfield
  have hend := hstacked.stop_le.2 field hfield
  have hle := hfields field hfield
  have hround : layout.stop ≤ roundUp layout.stop layout.align := (roundUp_isLeast _ hone).1.2
  rw [alignOf_eq hunder] at hdvd hle
  rw [sizeOf_eq hunder, ← hstop] at hend
  refine ⟨under, hunder, hdvd, ?_, hend.trans hround⟩
  exact dvd_of_le (kept.measured hunder).align (layOut_align kept.measured (.inl rfl) h) hle

/-- What a call does to a table, if anything. -/
lemma Kept.registers_cases {later : TypeTable} (kept : table.Kept) (h : table.Registers later) :
    later = table ∨
    (∃ name target size align,
      later = (table.register ⟨.definition name target, size, align⟩).2) ∨
    (∃ fields layout, table.layOut 0 1 fields = .ok layout ∧ later = (table.register
      ⟨.struct layout.fields, roundUp layout.stop layout.align, layout.align⟩).2) := by
  obtain ⟨call, -, id, hrun⟩ := h
  cases call with
  | builtin which =>
    simp only [Registration.run, kept.sound.registerBuiltin_eq] at hrun
    cases hrun
    exact .inl rfl
  | struct fields =>
    obtain ⟨layout, hlayout, hadded⟩ := registerStruct_eq_ok.mp hrun
    cases hadded
    exact .inr (.inr ⟨fields, layout, hlayout, rfl⟩)
  | definition name target =>
    obtain ⟨info, -, hadded⟩ := registerDefinition_eq_ok.mp hrun
    cases hadded
    exact .inr (.inl ⟨name, target, _, _, rfl⟩)

/-- Where every struct of a table holds its fields, one call leaves it so. -/
lemma Kept.holds_step {later : TypeTable} (kept : table.Kept)
    (holds : ∀ {id info}, table.get id = .ok info → table.Holds info)
    (h : table.Registers later) {id : TypeId} {info : TypeInfo} (hget : later.get id = .ok info) :
    later.Holds info := by
  -- an entry is an old one, or the one that the call has added
  have hadded : ∀ added : TypeInfo, table.Holds added → later = (table.register added).2 →
      later.Holds info := by
    rintro added hadded rfl
    refine Holds.mono ?_ (register_extends table added)
    rcases register_get_cases hget with rfl | hold
    · exact hadded
    · exact holds hold
  rcases kept.registers_cases h with rfl | ⟨name, target, size, align, rfl⟩ |
    ⟨fields, layout, hlayout, rfl⟩
  · exact holds hget
  · exact hadded _ (by simp [Holds]) rfl
  · exact hadded _ (layOut_holds kept hlayout) rfl

/-- Every struct of a table that grew by calls holds its fields. -/
lemma Grows.holds (h : Grows .initial table) {id : TypeId} {info : TypeInfo}
    (hget : table.get id = .ok info) : table.Holds info := by
  induction h generalizing id info with
  | refl =>
    obtain ⟨which, rfl⟩ := initial_entry hget
    simp [Holds, Builtin.info]
  | tail hgrows step ih => exact (kept_initial.grows hgrows).1.holds_step ih step hget

/-- By induction on how `inner` is found inside of `outer`: each step adds an offset that is aligned
for what is inside. -/
lemma Grows.inside (h : Grows .initial table) {outer inner : TypeId} {offset : Nat}
    (hinside : table.Inside outer offset inner) {info : TypeInfo}
    (hget : table.get outer = .ok info) : ∃ innerInfo, table.get inner = .ok innerInfo ∧
      innerInfo.align ∣ offset ∧ innerInfo.align ∣ info.align ∧
      offset + innerInfo.size ≤ info.size := by
  induction hinside generalizing info with
  | self => exact ⟨info, hget, Nat.dvd_zero _, Nat.dvd_refl _, by omega⟩
  | definition get shape _ ih =>
    obtain rfl : _ = info := Except.ok.inj (get.symm.trans hget)
    obtain ⟨under, hunder, hsize, halign⟩ :=
      ((kept_initial.grows h).1.measured get).definition shape
    obtain ⟨innerInfo, hinner, hdvd, halignDvd, hle⟩ := ih hunder
    exact ⟨innerInfo, hinner, hdvd, halign ▸ halignDvd, hsize ▸ hle⟩
  | field get shape mem _ ih =>
    obtain rfl : _ = info := Except.ok.inj (get.symm.trans hget)
    obtain ⟨under, hunder, hoffset, halign, hend⟩ := h.holds get _ shape _ mem
    obtain ⟨innerInfo, hinner, hdvd, halignDvd, hle⟩ := ih hunder
    refine ⟨innerInfo, hinner, ?_, Nat.dvd_trans halignDvd halign, by omega⟩
    exact (Nat.dvd_add_iff_right (Nat.dvd_trans halignDvd hoffset)).mp hdvd

/-! ## Structs -/

/-- A struct of types that a table has is added as one entry behind the others.  It has the given
fields in the given order, and they are laid out as tightly as can be; whatever is inside of it,
however deep, is aligned where it lies and ends before the struct does. -/
theorem struct_laid_out (h : Grows .initial table) {fields : List (String × TypeId)}
    (valid : ∀ field ∈ fields, table.Has field.2) : ∃ placed size align later,
      table.registerStruct fields = .ok (⟨table.size⟩, later) ∧
      later.entries = table.entries.push ⟨.struct placed, size, align⟩ ∧
      placed.map (fun field => (field.name, field.type)) = fields ∧
      table.LaysOut placed size align ∧
      ∀ {offset inner}, later.Inside ⟨table.size⟩ offset inner → ∃ info,
        later.get inner = .ok info ∧ info.align ∣ offset ∧ info.align ∣ align ∧
        offset + info.size ≤ size := by
  have kept := (kept_initial.grows h).1
  obtain ⟨layout, hlayout, -, -⟩ := layOut_ok kept.sound valid 0 Nat.one_pos
  have hrun : table.registerStruct fields = .ok (table.register
      ⟨.struct layout.fields, roundUp layout.stop layout.align, layout.align⟩) := by
    simp only [registerStruct, hlayout, bind, Except.bind]
    rfl
  refine ⟨_, _, _, _, hrun, rfl, layOut_fields hlayout, layOut_laysOut kept.sound hlayout, ?_⟩
  intro offset inner hinside
  have hcall : Registration.Valid (.struct fields) table := by
    intro type htype
    obtain ⟨field, hfield, rfl⟩ := List.mem_map.mp htype
    exact valid field hfield
  have hgrows : Grows .initial (table.register
      ⟨.struct layout.fields, roundUp layout.stop layout.align, layout.align⟩).2 :=
    h.tail ⟨.struct fields, hcall, _, hrun⟩
  exact hgrows.inside hinside (get_eq_ok_iff.mpr (register_getElem? _ _))

/-- Booleans around a struct that holds two structs of a boolean and an integer. -/
def aroundNested : List (String × TypeId) :=
  [("first", Builtin.bool.id), ("pairs", ⟨6⟩), ("last", Builtin.bool.id)]

/-- The inner struct starts at a multiple of eight, because there are integers inside of it, and
the outer one ends at one. -/
theorem struct_laid_out_nested :
    (Grows .initial nested ∧ ∀ field ∈ aroundNested, nested.Has field.2) ∧
    nested.LaysOut [⟨"first", Builtin.bool.id, 0⟩, ⟨"pairs", ⟨6⟩, 8⟩, ⟨"last", Builtin.bool.id, 40⟩]
      48 8 := by
  have hvalid : ∀ field ∈ aroundNested, nested.Has field.2 := by
    simp [aroundNested, Has, size, nested, initial, Builtin.all, Builtin.id]
  have hrun : nested.registerStruct aroundNested = .ok (⟨7⟩, ⟨nested.entries.push ⟨.struct
      [⟨"first", Builtin.bool.id, 0⟩, ⟨"pairs", ⟨6⟩, 8⟩, ⟨"last", Builtin.bool.id, 40⟩], 48, 8⟩⟩) := by
    decide +kernel
  obtain ⟨placed, size, align, later, hrun', hentries, -, hlays, -⟩ :=
    struct_laid_out grows_nested hvalid
  rw [hrun] at hrun'
  cases hrun'
  obtain ⟨hentry, -⟩ := Array.push_eq_push.mp hentries
  cases hentry
  exact ⟨⟨grows_nested, hvalid⟩, hlays⟩

end TypeTable

end ParenC
