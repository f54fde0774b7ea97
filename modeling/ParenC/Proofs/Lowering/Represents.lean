/-
Machines that hold the variables of a function.

`Represents` says that a machine is in the middle of a function whose variables have the values
of a store, and `Reaches` that it got there from another machine without touching anything else
at or above the stack pointer of that one.  What instructions do to memory is looked at here, so
that the code of expressions can be followed without looking at addresses.
-/
import Mathlib.Data.List.Forall2
import ParenC.Proofs.Evaluation
import ParenC.Proofs.Lowering.Frame

namespace ParenC

/-- The callee is given the arguments, in the first of the argument registers. -/
structure Call.Shows (real ideal : Call) : Prop where
  /-- The same function is called. -/
  name : real.name = ideal.name
  /-- The arguments are in their registers. -/
  args : ideal.args <+: real.args

namespace Lowering

/-- The number of bytes. -/
def Width.bytes : Width → Nat
  | byte => 1
  | quad => 8

/-- What a variable holds. -/
def Slot.get (m : Machine) : Slot → Word
  | ⟨offset, .byte⟩ => (m.mem (m.slotAddr offset)).setWidth 64
  | ⟨offset, .quad⟩ => m.mem.quad (m.slotAddr offset)

/-- The address belongs to the variable. -/
def Slot.Covers (m : Machine) (slot : Slot) (a : Word) : Prop :=
  (m.regs .rbp).toNat ≤ a.toNat + slot.offset ∧
    a.toNat + slot.offset < (m.regs .rbp).toNat + slot.width.bytes

/-- The place is that of a variable of `owner` whose values fit into registers. -/
def HasPlace (tables : Tables) (owner : Option SymbolId) (id : SymbolId) (place : Slot) : Prop :=
  tables.symbols.HasVariable owner id ∧ ∃ loc, slot tables loc id = .ok place

/-- The variables of `owner` lie in the `used` bytes below the frame pointer, apart from each
other. -/
structure Framed (tables : Tables) (owner : Option SymbolId) (used : Nat) : Prop where
  /-- A variable lies inside of the frame. -/
  within : ∀ {id place}, HasPlace tables owner id place →
    place.width.bytes ≤ place.offset ∧ place.offset ≤ used
  /-- Two variables do not overlap. -/
  apart : ∀ {id place id' place'}, HasPlace tables owner id place → HasPlace tables owner id' place' →
    id ≠ id' → place.offset + place'.width.bytes ≤ place'.offset ∨
      place'.offset + place.width.bytes ≤ place.offset
  /-- A variable has one place. -/
  unique : ∀ {id place place'}, HasPlace tables owner id place → HasPlace tables owner id place' →
    place = place'

/-- The frame of the machine holds the variables of the store, and it has made its calls. -/
structure Represents (tables : Tables) (owner : Option SymbolId) (used : Nat) (m : Machine)
    (s : Store) : Prop where
  /-- The stack lies below the frame. -/
  below : (m.regs .rsp).toNat + used ≤ (m.regs .rbp).toNat
  /-- The variables have their values. -/
  locals : ∀ {id place}, HasPlace tables owner id place → place.get m = s.locals id
  /-- The same calls were made. -/
  calls : List.Forall₂ Call.Shows m.calls s.calls

/-- No variable lies at the address. -/
def Outside (tables : Tables) (owner : Option SymbolId) (m : Machine) (a : Word) : Prop :=
  ∀ {id place}, HasPlace tables owner id place → ¬ place.Covers m a

/-- From `m` the machine got to `m'`, with `k` more values on the stack. -/
structure Reaches (tables : Tables) (owner : Option SymbolId) (used : Nat) (k : Nat)
    (m m' : Machine) (s : Store) : Prop where
  /-- The stack lay below the frame. -/
  below : (m.regs .rsp).toNat + used ≤ (m.regs .rbp).toNat
  /-- The variables have the values of the store. -/
  represents : Represents tables owner used m' s
  /-- The frame is the same. -/
  frame : m'.regs .rbp = m.regs .rbp
  /-- The stack has grown. -/
  stack : (m'.regs .rsp).toNat + 8 * k = (m.regs .rsp).toNat
  /-- Apart from variables, nothing in the frame or on the old stack has changed. -/
  memory : ∀ a : Word, (m.regs .rsp).toNat ≤ a.toNat → Outside tables owner m a →
    m'.mem a = m.mem a

variable {tables : Tables} {owner : Option SymbolId} {used : Nat}

/-- Whatever the frame of a machine holds are the variables of some store. -/
lemma exists_represents (framed : Framed tables owner used) {m : Machine}
    (below : (m.regs .rsp).toNat + used ≤ (m.regs .rbp).toNat) :
    ∃ s, Represents tables owner used m s := by
  classical
  refine ⟨⟨fun id => if h : ∃ place, HasPlace tables owner id place then h.choose.get m else 0,
    m.calls⟩, below, ?_, ?_⟩
  · intro id place hplace
    have hexists : ∃ place, HasPlace tables owner id place := ⟨place, hplace⟩
    rw [framed.unique hplace hexists.choose_spec]
    simp only [dif_pos hexists]
  · exact List.forall₂_same.mpr fun call _ => ⟨rfl, List.prefix_rfl⟩

/-! ## Variables -/

/-- What a variable holds depends on its own bytes. -/
lemma Slot.get_congr {m m' : Machine} {place : Slot} (hbytes : place.width.bytes ≤ place.offset)
    (hoffset : place.offset ≤ (m.regs .rbp).toNat) (hframe : m'.regs .rbp = m.regs .rbp)
    (hmem : ∀ a : Word, place.Covers m a → m'.mem a = m.mem a) : place.get m' = place.get m := by
  rcases place with ⟨offset, width⟩
  have haddr := Machine.slotAddr_toNat hoffset
  have hsame : m'.slotAddr offset = m.slotAddr offset := by
    rw [Machine.slotAddr, Machine.slotAddr, hframe]
  simp only [Slot.Covers] at hbytes hoffset haddr hmem
  cases width with
  | byte =>
    simp only [Slot.get]
    rw [hsame, hmem]
    simp only [haddr, Width.bytes]
    omega
  | quad =>
    have hrbp := (m.regs .rbp).isLt
    simp only [Slot.get]
    rw [hsame]
    refine Memory.quad_congr fun a ha => hmem a ?_
    simp only [Width.bytes] at hbytes ⊢
    rw [Memory.sub_toNat_lt_iff (by omega), haddr] at ha
    omega

/-- The machine after a register was stored in a variable. -/
def Slot.put (m : Machine) (src : Reg) : Slot → Machine
  | ⟨offset, .byte⟩ => { m with mem := m.mem.setByte (m.slotAddr offset) (m.regs src).low }
  | ⟨offset, .quad⟩ => { m with mem := m.mem.setQuad (m.slotAddr offset) (m.regs src) }

lemma Slot.exec_store (answers : Nat → Answer) (m : Machine) (src : Reg) (place : Slot) :
    m.exec answers (place.store src) = .ok (place.put m src) := by
  rcases place with ⟨offset, _ | _⟩ <;> rfl

lemma Slot.exec_load (answers : Nat → Answer) (m : Machine) (place : Slot) :
    m.exec answers place.load = .ok (m.set .rax (place.get m)) := by
  rcases place with ⟨offset, _ | _⟩ <;> rfl

@[simp] lemma Slot.put_regs (m : Machine) (src : Reg) (place : Slot) :
    (place.put m src).regs = m.regs := by
  rcases place with ⟨offset, _ | _⟩ <;> rfl

@[simp] lemma Slot.put_calls (m : Machine) (src : Reg) (place : Slot) :
    (place.put m src).calls = m.calls := by
  rcases place with ⟨offset, _ | _⟩ <;> rfl

/-- Storing changes the bytes of the variable only. -/
lemma Slot.put_mem {m : Machine} {src : Reg} {place : Slot} {a : Word}
    (hbytes : place.width.bytes ≤ place.offset) (hoffset : place.offset ≤ (m.regs .rbp).toNat)
    (h : ¬ place.Covers m a) : (place.put m src).mem a = m.mem a := by
  rcases place with ⟨offset, width⟩
  have haddr := Machine.slotAddr_toNat hoffset
  simp only [Slot.Covers] at hbytes hoffset haddr h
  cases width with
  | byte =>
    refine Memory.setByte_of_ne ?_
    rintro rfl
    simp only [haddr, Width.bytes] at h
    omega
  | quad =>
    have hrbp := (m.regs .rbp).isLt
    simp only [Width.bytes] at hbytes h
    refine Memory.setQuad_of_not_mem ?_ ?_ <;> omega

/-- What was stored is in the variable. -/
lemma Slot.get_put (m : Machine) (src : Reg) (place : Slot) :
    place.get (place.put m src) =
      if place.width = .byte then (m.regs src).lowByte else m.regs src := by
  rcases place with ⟨offset, _ | _⟩
  · exact congrArg (BitVec.setWidth 64) (Memory.setByte_self _ _ _)
  · exact Memory.quad_setQuad _ _ _

/-! ## Steps -/

namespace Reaches

variable {k k' : Nat} {m m' m'' : Machine} {s s' : Store}

lemma refl (h : Represents tables owner used m s) : Reaches tables owner used 0 m m s :=
  ⟨h.below, h, rfl, rfl, fun _ _ _ => rfl⟩

lemma stack_eq (h : Reaches tables owner used 0 m m' s) : m'.regs .rsp = m.regs .rsp :=
  BitVec.eq_of_toNat_eq h.stack

lemma stack_add (h : Reaches tables owner used 1 m m' s) : m'.regs .rsp + 8 = m.regs .rsp := by
  have hstack := h.stack
  have hlt := (m.regs .rsp).isLt
  have hword : (8 : Word).toNat = 8 := rfl
  apply BitVec.eq_of_toNat_eq
  rw [BitVec.toNat_add_of_lt (by omega)]
  omega

/-- A variable lies above the stack, wherever the stack pointer is. -/
lemma covers_above (framed : Framed tables owner used) (h : Reaches tables owner used k m m' s)
    {id : SymbolId} {place : Slot} (hplace : HasPlace tables owner id place) {a : Word}
    (ha : place.Covers m' a) : (m.regs .rsp).toNat ≤ a.toNat := by
  have hwithin := framed.within hplace
  have hbelow := h.below
  have hframe := h.frame
  unfold Slot.Covers at ha
  rw [hframe] at ha
  omega

/-- A variable of the machine that was reached lies inside of the address space. -/
lemma offset_le (framed : Framed tables owner used) (h : Reaches tables owner used k m m' s)
    {id : SymbolId} {place : Slot} (hplace : HasPlace tables owner id place) :
    place.offset ≤ (m'.regs .rbp).toNat := by
  have hwithin := framed.within hplace
  have hbelow := h.represents.below
  omega

lemma trans (h : Reaches tables owner used k m m' s) (h' : Reaches tables owner used k' m' m'' s') :
    Reaches tables owner used (k + k') m m'' s' where
  below := h.below
  represents := h'.represents
  frame := h'.frame.trans h.frame
  stack := by
    have := h.stack
    have := h'.stack
    omega
  memory a ha houtside := by
    have hstack := h.stack
    have houtside' : Outside tables owner m' a := by
      intro id place hplace hcovers
      refine houtside hplace ?_
      unfold Slot.Covers at hcovers ⊢
      rwa [h.frame] at hcovers
    rw [h'.memory a (by omega) houtside', h.memory a ha houtside]

/-- A step that leaves memory from the old stack pointer on as it is. -/
lemma step (framed : Framed tables owner used) (h : Reaches tables owner used k m m' s)
    (hframe : m''.regs .rbp = m'.regs .rbp)
    (hstack : (m''.regs .rsp).toNat + 8 * k' = (m.regs .rsp).toNat)
    (hmem : ∀ a : Word, (m.regs .rsp).toNat ≤ a.toNat → m''.mem a = m'.mem a)
    (hlocals : s'.locals = s.locals) (hcalls : List.Forall₂ Call.Shows m''.calls s'.calls) :
    Reaches tables owner used k' m m'' s' where
  below := h.below
  represents := by
    have hbelow := h.below
    refine ⟨?_, ?_, hcalls⟩
    · rw [hframe, h.frame]
      omega
    · intro id place hplace
      have hget := Slot.get_congr (framed.within hplace).1 (h.offset_le framed hplace) hframe
        fun a ha => hmem a (h.covers_above framed hplace ha)
      rw [hget, h.represents.locals hplace, hlocals]
  frame := hframe.trans h.frame
  stack := hstack
  memory a ha houtside := (hmem a ha).trans (h.memory a ha houtside)

/-- A step that changes neither memory nor the stack. -/
lemma same (framed : Framed tables owner used) (h : Reaches tables owner used k m m' s)
    (hframe : m''.regs .rbp = m'.regs .rbp) (hstack : m''.regs .rsp = m'.regs .rsp)
    (hmem : m''.mem = m'.mem) (hcalls : m''.calls = m'.calls) :
    Reaches tables owner used k m m'' s := by
  refine h.step framed hframe ?_ (fun a _ => by rw [hmem]) rfl ?_
  · rw [hstack]
    exact h.stack
  · rw [hcalls]
    exact h.represents.calls

lemma set (framed : Framed tables owner used) (h : Reaches tables owner used k m m' s) {reg : Reg}
    {word : Word} (hframe : reg ≠ .rbp) (hstack : reg ≠ .rsp) :
    Reaches tables owner used k m (m'.set reg word) s :=
  h.same framed (if_neg hframe.symm) (if_neg hstack.symm) rfl rfl

lemma push (framed : Framed tables owner used) (h : Reaches tables owner used k m m' s)
    {word : Word} (hroom : 8 ≤ (m'.regs .rsp).toNat) :
    Reaches tables owner used (k + 1) m (m'.push word) s := by
  have hstack := h.stack
  have hsp : (m'.push word).regs .rsp = m'.regs .rsp - 8 := by simp
  refine h.step framed rfl ?_ (fun a ha => Machine.push_mem hroom (by omega)) rfl
    h.represents.calls
  rw [hsp, Machine.sub_eight_toNat hroom]
  omega

lemma pop (framed : Framed tables owner used) (h : Reaches tables owner used (k + 1) m m' s)
    {dst : Reg} (hframe : dst ≠ .rbp) (hstack : dst ≠ .rsp) :
    Reaches tables owner used k m (m'.pop dst) s := by
  have hdepth := h.stack
  have hlt := (m.regs .rsp).isLt
  refine h.step framed ?_ ?_ (fun _ _ => rfl) rfl h.represents.calls
  · rw [Machine.pop_regs, if_neg hframe.symm, if_neg (by decide)]
  · have hword : (8 : Word).toNat = 8 := rfl
    rw [Machine.pop_regs, if_neg hstack.symm, if_pos rfl, BitVec.toNat_add_of_lt (by omega)]
    omega

/-- The value that was on top of the old stack is still there. -/
lemma quad_top (framed : Framed tables owner used) (h : Reaches tables owner used 1 m m' s)
    (h' : Reaches tables owner used k m' m'' s') :
    m''.mem.quad (m'.regs .rsp) = m'.mem.quad (m'.regs .rsp) := by
  have hbelow := h.below
  have hstack := h.stack
  have hlt := (m.regs .rsp).isLt
  refine Memory.quad_congr fun a ha => ?_
  rw [Memory.sub_toNat_lt_iff (by omega)] at ha
  refine h'.memory a ha.1 ?_
  intro id place hplace hcovers
  have habove := h.covers_above framed hplace hcovers
  omega

/-- Storing a register in a variable. -/
lemma put (framed : Framed tables owner used) (h : Reaches tables owner used k m m' s)
    {id : SymbolId} {place : Slot} (hplace : HasPlace tables owner id place) (src : Reg) :
    Reaches tables owner used k m (place.put m' src) (s.set id
      (if place.width = .byte then (m'.regs src).lowByte else m'.regs src)) where
  below := h.below
  represents := by
    have hwithin := framed.within hplace
    have hoffset := h.offset_le framed hplace
    refine ⟨?_, ?_, ?_⟩
    · rw [Slot.put_regs]
      exact h.represents.below
    · intro other place' hplace'
      -- another variable lies apart from the one that is stored
      by_cases hid : other = id
      · subst hid
        rw [framed.unique hplace' hplace, Slot.get_put]
        exact (if_pos rfl).symm
      · have hother : (s.set id (if place.width = .byte then (m'.regs src).lowByte
            else m'.regs src)).locals other = s.locals other := if_neg hid
        rw [hother, ← h.represents.locals hplace']
        refine Slot.get_congr (framed.within hplace').1 (h.offset_le framed hplace')
          (by rw [Slot.put_regs]) ?_
        intro a ha
        refine Slot.put_mem hwithin.1 hoffset ?_
        have hapart := framed.apart hplace hplace' (Ne.symm hid)
        unfold Slot.Covers at ha ⊢
        omega
    · rw [Slot.put_calls]
      exact h.represents.calls
  frame := by
    rw [Slot.put_regs]
    exact h.frame
  stack := by
    rw [Slot.put_regs]
    exact h.stack
  memory a ha houtside := by
    have hnot : ¬ place.Covers m' a := by
      have := houtside hplace
      unfold Slot.Covers at this ⊢
      rwa [h.frame]
    rw [Slot.put_mem (framed.within hplace).1 (h.offset_le framed hplace) hnot]
    exact h.memory a ha houtside

end Reaches

end Lowering

end ParenC
