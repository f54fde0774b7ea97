/-
The code of expressions computes their values.

By induction on the shape of the code: a machine whose frame holds the variables of a store, and
whose stack has room, ends with the value of the expression on the stack and the variables and
calls that evaluation leaves, or stops at the same division.  Registers that hold arguments
already are saved while a later argument is computed, unless its code is known to leave them
alone.
-/
import ParenC.Proofs.Lowering.Operation
import ParenC.Proofs.Lowering.Unit

namespace ParenC

variable {tables : Tables} {owner : Option SymbolId}

/-! ## Nodes with code -/

/-- A node that was checked and stands in the body of `owner`. -/
structure Node.Usable (tables : Tables) (owner : Option SymbolId) (node : Node) : Prop where
  /-- It was checked without findings. -/
  checked : node.Checked tables owner
  /-- What it declares has a place in the frame. -/
  declared : ∀ id ∈ node.declared, tables.symbols.HasVariable owner id

lemma Node.Usable.part {node part : Node} (h : node.Usable tables owner)
    (hpart : part ∈ node.parts) (hfunction : node.isFunction = false) :
    part.Usable tables owner where
  checked := by
    have hframe : node.frame owner = owner := by
      cases node <;> first | rfl | simp [Node.isFunction] at hfunction
    exact hframe ▸ h.checked.part hpart
  declared id hid := h.declared id (Node.declared_subset hpart hfunction hid)

lemma Node.Usable.operands {loc : Location} {op : BinOp} {lhs rhs : Node}
    (h : (Node.binary loc op lhs rhs).Usable tables owner) :
    lhs.Usable tables owner ∧ rhs.Usable tables owner :=
  ⟨h.part (by simp [Node.parts]) rfl, h.part (by simp [Node.parts]) rfl⟩

lemma Node.Usable.operand {loc : Location} {target : TypeId} {operand : Node}
    (h : (Node.cast loc target operand).Usable tables owner) : operand.Usable tables owner :=
  h.part (by simp [Node.parts]) rfl

lemma Node.isOf_eq {node : Node} {root : TypeId} {which : Builtin}
    (h : node.deepType tables = .ok root) : node.isOf tables which = decide (root = which.id) := by
  simp only [Node.isOf, h]

/-! ## Casts -/

section Casts

variable {loc : Location} {target root source : TypeId} {operand : Node} {results : Nat → Word}

/-- A cast computes something just if it makes a truth value of a number. -/
lemma Node.cast_converts (loc : Location) (goal : tables.types.resolve target = .ok root)
    (origin : operand.deepType tables = .ok source) :
    (isOf tables .bool (.cast loc target operand) && !operand.isOf tables .bool) =
      decide (root = Builtin.bool.id ∧ source ≠ Builtin.bool.id) := by
  have hgoal : deepType tables (.cast loc target operand) = .ok root := goal
  rw [isOf_eq hgoal, isOf_eq origin, Bool.decide_and, decide_not]

/-- A number is compared with zero. -/
lemma Node.evaluate_toBool (goal : tables.types.resolve target = .ok Builtin.bool.id)
    (origin : operand.deepType tables = .ok source) (other : source ≠ Builtin.bool.id) :
    (cast loc target operand).evaluate tables results =
      do return .ofBool ((← operand.evaluate tables results) != 0) := by
  have hconverts : (isOf tables .bool (.cast loc target operand) &&
      !operand.isOf tables .bool) = true :=
    (cast_converts loc goal origin).trans (decide_eq_true ⟨rfl, other⟩)
  simp only [evaluate, hconverts, if_true]

/-- Every other word stays as it is. -/
lemma Node.evaluate_keep (goal : tables.types.resolve target = .ok root)
    (origin : operand.deepType tables = .ok source)
    (same : ¬ (root = Builtin.bool.id ∧ source ≠ Builtin.bool.id)) :
    (cast loc target operand).evaluate tables results = operand.evaluate tables results := by
  have hconverts : (isOf tables .bool (.cast loc target operand) &&
      !operand.isOf tables .bool) = false :=
    (cast_converts loc goal origin).trans (decide_eq_false same)
  simp only [evaluate, hconverts, Bool.false_eq_true, if_false, bind_pure]

end Casts

namespace Lowering

/-! ## Types -/

/-- An operator works on unsigned values just if its left operand is of type `u64`. -/
lemma isUnsigned_eq (complete : tables.Complete) {lhs : Node} (hlhs : lhs.AllValid tables)
    {unsigned : Bool} (h : isUnsigned tables lhs = .ok unsigned) :
    lhs.isOf tables .u64 = unsigned := by
  obtain ⟨type, htype, hhas⟩ := Node.type_ok complete lhs hlhs
  obtain ⟨root, info, hd⟩ := complete.sound.types.denotes hhas
  have hdeep : lhs.deepType tables = .ok root := by
    simp [Node.deepType, htype, hd.resolve, bind, Except.bind]
  simp only [isUnsigned, htype, hd.isUnsigned, bind, Except.bind, Except.ok.injEq] at h
  rw [Node.isOf_eq hdeep, ← h, decide_eq_decide]
  exact hd.root_eq_iff complete.sound.types .u64

/-- What is known of a variable that has a place. -/
lemma slot_eq_ok {loc : Location} {id : SymbolId} {place : Slot}
    (h : slot tables loc id = .ok place) : ∃ symbol type,
      tables.symbols.entries[id.index]? = some symbol ∧ symbol.offset = .ok place.offset ∧
      symbol.type? = some type ∧ width tables.types loc type = .ok place.width := by
  simp only [slot, bind, Except.bind] at h
  cases hget : tables.symbols.get id with
  | error defect => simp [hget, promised] at h
  | ok symbol =>
    cases hoffset : symbol.offset with
    | error defect => simp [hget, hoffset, promised] at h
    | ok offset =>
      cases htype : symbol.type? with
      | none => simp [hget, hoffset, Symbol.type, htype, promised] at h
      | some type =>
        cases hwidth : width tables.types loc type with
        | error obstacle => simp [hget, hoffset, Symbol.type, htype, hwidth, promised] at h
        | ok w =>
          simp only [hget, hoffset, Symbol.type, htype, hwidth, promised, pure, Except.pure,
            Except.ok.injEq] at h
          subst h
          exact ⟨symbol, type, SymbolTable.get_eq_ok_iff.mp hget, hoffset, htype, hwidth⟩

/-- A byte is for a boolean, and eight bytes are for an integer. -/
lemma width_eq_ok {types : TypeTable} {loc : Location} {type root : TypeId} {info : TypeInfo}
    {w : Width} (sound : types.Sound) (hd : types.Denotes type root info)
    (h : width types loc type = .ok w) :
    info.size = w.bytes ∧ (root = Builtin.bool.id ↔ w = .byte) := by
  have hentry := sound.entry (TypeTable.get_eq_ok_iff.mp hd.get)
  have hother : ∀ {w' : Width}, (promised (types.describe type) >>= fun text =>
      throw (.limit loc (.registerValue text)) : Lowered Width) ≠ .ok w' := by
    intro w'
    cases types.describe type <;> simp [promised, bind, Except.bind, throw, throwThe,
      MonadExceptOf.throw]
  rw [hd.root_eq_iff sound .bool]
  simp only [width, hd.deepShape, promised, bind, Except.bind] at h
  cases hshape : info.shape with
  | builtin which =>
    obtain ⟨-, rfl⟩ := hentry.builtin hshape
    rw [hshape] at h
    cases which with
    | void => exact absurd h hother
    | s64 | u64 | bool =>
      cases h
      exact ⟨rfl, by simp⟩
  | struct fields =>
    rw [hshape] at h
    exact absurd h hother
  | definition name target => exact absurd hshape (hd.concrete name target)

/-- What is known of the place of a variable. -/
lemma HasPlace.lies (complete : tables.Complete) {id : SymbolId} {place : Slot}
    (h : HasPlace tables owner id place) :
    tables.Lies id place.offset place.width.bytes ∧ ∀ {symbol type root},
      tables.symbols.entries[id.index]? = some symbol → symbol.type? = some type →
      tables.types.resolve type = .ok root → (root = Builtin.bool.id ↔ place.width = .byte) := by
  obtain ⟨-, loc, hslot⟩ := h
  obtain ⟨symbol, type, hget, hoffset, htype, hwidth⟩ := slot_eq_ok hslot
  have hhas := (complete.sound.symbol hget).typed htype
  obtain ⟨root, info, hd⟩ := complete.sound.types.denotes hhas
  obtain ⟨hsize, hbool⟩ := width_eq_ok complete.sound.types hd hwidth
  obtain ⟨named, hnamed, hsame⟩ := hd.size
  refine ⟨⟨symbol, type, named, hget, htype, hnamed, hoffset, hsame.trans hsize⟩, ?_⟩
  intro symbol' type' root' hget' htype' hroot'
  rw [hget] at hget'
  cases hget'
  rw [htype] at htype'
  cases htype'
  rw [hd.resolve] at hroot'
  cases hroot'
  exact hbool

/-- Variables that were laid out one below the other make a frame, if a word holds its bytes. -/
lemma framed_of_laid (complete : tables.Complete) {used : Nat}
    (laid : tables.Laid 0 (tables.symbols.locals owner) used) (fits : used < wordCount) :
    Framed tables owner used where
  within hplace := by
    obtain ⟨offset, size, hlies, hbelow, habove⟩ :=
      laid.within fits (SymbolTable.mem_locals.mpr hplace.1)
    obtain ⟨hoffset, hsize⟩ := (hplace.lies complete).1.unique hlies
    omega
  apart hplace hplace' hne :=
    laid.apart fits (SymbolTable.mem_locals.mpr hplace.1) (SymbolTable.mem_locals.mpr hplace'.1)
      hne (hplace.lies complete).1 (hplace'.lies complete).1
  unique {id place place'} hplace hplace' := by
    obtain ⟨hoffset, hbytes⟩ := (hplace.lies complete).1.unique (hplace'.lies complete).1
    rcases place with ⟨offset, _ | _⟩ <;> rcases place' with ⟨offset', _ | _⟩ <;>
      simp_all [Width.bytes]

/-- The variable that a node stands for. -/
lemma storage_place (complete : tables.Complete) {node : Node} (h : node.Usable tables owner)
    {place : Slot} (hstorage : storage tables node = .ok place) :
    ∃ id, node.symbol? = some id ∧ HasPlace tables owner id place ∧
      node.isOf tables .bool = decide (place.width = .byte) ∧
      ∀ results, node.evaluate tables results = (do return (← get).locals id) := by
  -- however a variable is mentioned, its place and its type are those of its symbol
  have hvariable : ∀ {loc id}, tables.symbols.HasVariable owner id → slot tables loc id = .ok place →
      Node.type tables.symbols node = Node.symbolType tables.symbols (some id) →
      HasPlace tables owner id place ∧ node.isOf tables .bool = decide (place.width = .byte) := by
    intro loc id hvar hslot hsame
    obtain ⟨symbol, type, hget, -, htype, -⟩ := slot_eq_ok hslot
    obtain ⟨root, info, hd⟩ :=
      complete.sound.types.denotes ((complete.sound.symbol hget).typed htype)
    have hdeep : node.deepType tables = .ok root := by
      simp [Node.deepType, hsame, Node.symbolType, SymbolTable.get_eq_ok_iff.mpr hget, htype,
        hd.resolve, bind, Except.bind, pure, Except.pure]
    have hplace : HasPlace tables owner id place := ⟨hvar, loc, hslot⟩
    refine ⟨hplace, ?_⟩
    rw [Node.isOf_eq hdeep, decide_eq_decide]
    exact (hplace.lies complete).2 hget htype hd.resolve
  cases node with
  | varRef loc symbol? =>
    obtain ⟨id, rfl, hvar⟩ := h.checked.fits.named
    obtain ⟨hplace, hbool⟩ := hvariable hvar hstorage rfl
    exact ⟨id, rfl, hplace, hbool, fun _ => rfl⟩
  | varDecl loc symbol? =>
    obtain ⟨id, rfl⟩ := Option.ne_none_iff_exists'.mp h.checked.fits.named
    obtain ⟨hplace, hbool⟩ := hvariable (h.declared id (by simp [Node.declared])) hstorage rfl
    exact ⟨id, rfl, hplace, hbool, fun _ => rfl⟩
  | _ => cases hstorage

/-! ## Arguments -/

variable {used : Nat} {answers : Nat → Answer}

/-- From `m` the machine got to `m'` with the words in the first of the `free` registers, and the
`taken` registers as they were. -/
structure Loads (tables : Tables) (owner : Option SymbolId) (used : Nat) (taken free : List Reg)
    (m m' : Machine) (words : List Word) (s : Store) : Prop
    extends Reaches tables owner used 0 m m' s where
  /-- Earlier arguments stay. -/
  kept : ∀ reg ∈ taken, m'.regs reg = m.regs reg
  /-- The arguments are in their registers. -/
  loaded : words <+: free.map m'.regs

lemma ne_of_mem_arguments {reg : Reg} (h : reg ∈ Reg.arguments) :
    reg ≠ .rax ∧ reg ≠ .rbp ∧ reg ≠ .rsp := by
  revert h
  cases reg <;> decide

/-- Registers that are saved around code keep what they hold. -/
lemma saved_loads (framed : Framed tables owner used) {saved : List Reg} {reg : Reg}
    (hregs : ∀ r ∈ reg :: saved, r ∈ Reg.arguments) (hnodup : (reg :: saved).Nodup) {s : Store}
    {room : Nat} {inner : List Instr} {ideal : Except Trap (Word × Store)}
    (hinner : ∀ m, Represents tables owner used m s → room ≤ (m.regs .rsp).toNat →
      Agrees (fun m' word s' => Reaches tables owner used 0 m m' s' ∧ m'.regs reg = word)
        (m.run answers inner) ideal)
    (m : Machine) (hm : Represents tables owner used m s)
    (hroom : 8 * saved.length + room ≤ (m.regs .rsp).toNat) :
    Agrees (fun m' word s' => Reaches tables owner used 0 m m' s' ∧ m'.regs reg = word ∧
        ∀ r ∈ saved, m'.regs r = m.regs r)
      (m.run answers (saved.map (fun r => .pushq (.reg r)) ++ inner ++ saved.reverse.map .popq))
      ideal := by
  induction saved generalizing m with
  | nil =>
    rw [List.map_nil, List.nil_append]
    refine (hinner m hm (by simpa using hroom)).before fun m' word s' _ h => ?_
    exact ⟨m', rfl, h.1, h.2, by simp⟩
  | cons r rest ih =>
    -- `r` is pushed first and popped last, around everything that is done for the others
    have hcode : (r :: rest).map (fun r => Instr.pushq (.reg r)) ++ inner ++
        (r :: rest).reverse.map Instr.popq = .pushq (.reg r) ::
        (rest.map (fun r => Instr.pushq (.reg r)) ++ inner ++ rest.reverse.map Instr.popq ++
          [.popq r]) := by
      simp
    rw [List.length_cons] at hroom
    have hr := ne_of_mem_arguments (hregs r (by simp))
    have hreg := ne_of_mem_arguments (hregs reg (by simp))
    have hpushed : Reaches tables owner used 1 m (m.push (m.regs r)) s :=
      (Reaches.refl hm).push framed (by omega)
    have hrest := ih (fun x hx => hregs x (by grind)) (by grind) (m.push (m.regs r))
      hpushed.represents (by have := hpushed.stack; omega)
    rw [hcode]
    refine .instr rfl (hrest.before fun m' word s' _ hpost => ⟨m'.pop r, rfl, ?_, ?_, ?_⟩)
    · exact (hpushed.trans hpost.1).pop framed hr.2.1 hr.2.2
    · rw [Machine.pop_regs, if_neg (by grind), if_neg hreg.2.2]
      exact hpost.2.1
    · intro x hx
      rcases List.mem_cons.mp hx with rfl | hx
      · rw [Machine.pop_regs, if_pos rfl, hpost.1.stack_eq, hpushed.quad_top framed hpost.1]
        exact Machine.push_top _
      · have hx' := ne_of_mem_arguments (hregs x (by grind))
        rw [Machine.pop_regs, if_neg (by grind), if_neg hx'.2.2, hpost.2.2 x hx, Machine.push_regs,
          if_neg hx'.2.2]

/-- The code of a leaf uses no register but `%rax`. -/
lemma leaf_regs {node : Node} {depth : Nat} {code : Counted Instr}
    (h : Lowers tables (.value node) depth code) (hleaf : node.isLeaf = true) {m m' : Machine}
    (hrun : m.run answers code.erase = .ok m') {r : Reg} (hrax : r ≠ .rax) (hrsp : r ≠ .rsp) :
    m'.regs r = m.regs r := by
  cases h with
  | literal half =>
    cases hrun
    exact if_neg hrsp
  | wideLiteral wide =>
    cases hrun
    exact (if_neg hrsp).trans (if_neg hrax)
  | boolean =>
    cases hrun
    exact if_neg hrsp
  | @load _ place _ isStorage source =>
    rw [Counted.erase_level, Machine.run_cons_of_ok (place.exec_load answers m)] at hrun
    cases hrun
    exact (if_neg hrsp).trans (if_neg hrax)
  | _ => simp [Node.isLeaf] at hleaf

/-! ## Expressions -/

/-- The code does on a machine what the job means. -/
def Job.Correct (tables : Tables) (owner : Option SymbolId) (used : Nat) (answers : Nat → Answer)
    (code : List Instr) : Job → Prop
  | .value node => node.Usable tables owner → ∀ m s, Represents tables owner used m s →
      8 * code.length ≤ (m.regs .rsp).toNat →
      Agrees (Leaves tables owner used m) (m.run answers code)
        (node.evaluate tables (fun n => (answers n).result) s)
  | .arguments taken free args => (∀ arg ∈ args, arg.Usable tables owner) →
      taken ++ free = Reg.arguments → ∀ m s, Represents tables owner used m s →
      8 * code.length ≤ (m.regs .rsp).toNat →
      Agrees (Loads tables owner used taken free m) (m.run answers code)
        (Node.evaluateAll tables (fun n => (answers n).result) args s)

/-- The operands of an operator, computed and popped. -/
lemma operands_agree (framed : Framed tables owner used) {results : Nat → Word} {lhs rhs : Node}
    {right left tail : List Instr} {finish : Word → Word → Evaluating Word} {m : Machine}
    {s : Store} (hm : Represents tables owner used m s)
    (hroom : 8 * (right.length + left.length + 2 + tail.length) ≤ (m.regs .rsp).toNat)
    (hright : ∀ m s, Represents tables owner used m s → 8 * right.length ≤ (m.regs .rsp).toNat →
      Agrees (Leaves tables owner used m) (m.run answers right) (rhs.evaluate tables results s))
    (hleft : ∀ m s, Represents tables owner used m s → 8 * left.length ≤ (m.regs .rsp).toNat →
      Agrees (Leaves tables owner used m) (m.run answers left) (lhs.evaluate tables results s))
    (hfinish : ∀ m' a b s', Reaches tables owner used 0 m m' s' → m'.regs .rax = a →
      m'.regs .rdi = b → Agrees (Leaves tables owner used m) (m'.run answers tail) (finish a b s')) :
    Agrees (Leaves tables owner used m)
      (m.run answers (right ++ left ++ [.popq .rax, .popq .rdi] ++ tail))
      ((do
        let b ← rhs.evaluate tables results
        let a ← lhs.evaluate tables results
        finish a b : Evaluating Word) s) := by
  rw [List.append_assoc, List.append_assoc]
  refine (hright m s hm (by omega)).seq fun m₁ b s₁ hb => ?_
  have hstack := hb.stack
  refine (hleft m₁ s₁ hb.represents (by omega)).seq fun m₂ a s₂ ha => ?_
  refine .instr rfl (.instr rfl (hfinish _ a b s₂ ?_ ?_ ?_))
  · exact ((hb.toReaches.trans ha.toReaches).pop framed (by decide) (by decide)).pop framed
      (by decide) (by decide)
  · exact ha.top
  · show m₂.mem.quad (m₂.regs .rsp + 8) = b
    rw [ha.stack_add, hb.toReaches.quad_top framed ha.toReaches]
    exact hb.top

/-- The type of a call is the type that the function returns. -/
lemma call_isOf {loc : Location} {callee : SymbolId} {args : List Node} {symbol : Symbol}
    {result root : TypeId} {which : Builtin}
    (hvalid : (Node.call loc (some callee) args).Valid tables)
    (target : tables.symbols.get callee = .ok symbol) (typed : symbol.type = .ok result)
    (resolved : tables.types.resolve result = .ok root) :
    Node.isOf tables which (.call loc (some callee) args) = decide (root = which.id) := by
  obtain ⟨_, params, prototyped, external, hget, hkind⟩ := (hvalid callee rfl).exists_function
  have hgot := SymbolTable.get_eq_ok_iff.mpr hget
  rw [hgot] at target
  cases target
  have htype := Symbol.type_eq_ok_iff.mp typed
  refine Node.isOf_eq ?_
  simp [Node.deepType, Node.type, hgot, hkind, htype, resolved, bind, Except.bind, pure,
    Except.pure]

/-- A word is stored in a variable, or its low byte if the variable is a boolean. -/
lemma assign_eq {lhs : Node} {id : SymbolId} {place : Slot} (hid : lhs.symbol? = some id)
    (hbool : lhs.isOf tables .bool = decide (place.width = .byte)) (word : Word) (s : Store) :
    (do lhs.assign tables word; return word : Evaluating Word) s =
      .ok (word, s.set id (if place.width = .byte then word.lowByte else word)) := by
  simp only [Node.assign, hid, hbool, decide_eq_true_eq]
  rfl

/-- A call is recorded, and its value is what the callee answers. -/
lemma ask_eq {loc : Location} {callee : SymbolId} {args : List Node} {symbol : Symbol}
    {root : TypeId} (target : tables.symbols.get callee = .ok symbol)
    (hbool : Node.isOf tables .bool (.call loc (some callee) args) =
      decide (root = Builtin.bool.id)) (words : List Word) (s : Store) :
    (do
      let word ← Node.ask tables (fun n => (answers n).result) callee words
      return if Node.isOf tables .bool (.call loc (some callee) args) then word.lowByte
        else word : Evaluating Word) s =
    .ok (if root = Builtin.bool.id then (answers s.calls.length).result.lowByte
      else (answers s.calls.length).result, s.called symbol.name words) := by
  simp only [Node.ask, target, hbool, decide_eq_true_eq]
  rfl

/-- An argument is computed and popped into its register. -/
lemma argument_agrees (framed : Framed tables owner used) {results : Nat → Word}
    {taken free : List Reg} {reg : Reg} {arg : Node} {depth : Nat} {code : Counted Instr}
    (hcode : Lowers tables (.value arg) depth code)
    (hregs : taken ++ reg :: free = Reg.arguments)
    (harg : ∀ m s, Represents tables owner used m s →
      8 * code.erase.length ≤ (m.regs .rsp).toNat →
      Agrees (Leaves tables owner used m) (m.run answers code.erase)
        (arg.evaluate tables results s))
    {m : Machine} {s : Store} (hm : Represents tables owner used m s)
    (hroom : 8 * ((Counted.savedFor taken arg).length + code.erase.length) ≤
      (m.regs .rsp).toNat) :
    Agrees (fun m' word s' => Reaches tables owner used 0 m m' s' ∧ m'.regs reg = word ∧
        ∀ r ∈ taken, m'.regs r = m.regs r)
      (m.run answers ((Counted.savedFor taken arg).map (fun r => .pushq (.reg r)) ++ code.erase ++
        .popq reg :: (Counted.savedFor taken arg).reverse.map .popq))
      (arg.evaluate tables results s) := by
  have hmem : reg ∈ Reg.arguments := by
    rw [← hregs]
    simp
  have hreg := ne_of_mem_arguments hmem
  have htaken : ∀ r ∈ taken, r ∈ Reg.arguments := by
    rw [← hregs]
    exact fun r hr => List.mem_append_left _ hr
  have hnodup : (reg :: taken).Nodup := by
    have hall : (taken ++ reg :: free).Nodup := by
      rw [hregs]
      decide
    grind
  unfold Counted.savedFor at hroom ⊢
  split at hroom
  · rename_i hleaf
    -- nothing is saved: a leaf changes no register but `%rax`
    rw [if_pos hleaf, List.map_nil, List.nil_append]
    refine (harg m s hm (by simpa using hroom)).before fun m' word s' hrun h => ?_
    refine ⟨m'.pop reg, rfl, h.toReaches.pop framed hreg.2.1 hreg.2.2, ?_, fun r hr => ?_⟩
    · rw [Machine.pop_regs, if_pos rfl]
      exact h.top
    · have hr' := ne_of_mem_arguments (htaken r hr)
      have hne : r ≠ reg := fun heq => (List.nodup_cons.mp hnodup).1 (heq ▸ hr)
      rw [Machine.pop_regs, if_neg hne, if_neg hr'.2.2]
      exact leaf_regs hcode hleaf hrun hr'.1 hr'.2.2
  · rename_i hleaf
    -- the argument may call functions, so the registers in use are saved around it
    have hinner : ∀ m, Represents tables owner used m s →
        8 * code.erase.length ≤ (m.regs .rsp).toNat →
        Agrees (fun m' word s' => Reaches tables owner used 0 m m' s' ∧ m'.regs reg = word)
          (m.run answers (code.erase ++ [.popq reg])) (arg.evaluate tables results s) := by
      intro m hm hroom
      refine (harg m s hm hroom).before fun m' word s' _ h => ?_
      refine ⟨m'.pop reg, rfl, h.toReaches.pop framed hreg.2.1 hreg.2.2, ?_⟩
      rw [Machine.pop_regs, if_pos rfl]
      exact h.top
    have hsaved := saved_loads framed (by simpa using ⟨hmem, htaken⟩) hnodup hinner m hm (by omega)
    simpa [if_neg hleaf] using hsaved

/-- By induction on the shape of the code. -/
theorem Lowers.correct (ready : Ready tables owner) (framed : Framed tables owner used) {job : Job}
    {depth : Nat} {code : Counted Instr} (h : Lowers tables job depth code) :
    job.Correct tables owner used answers code.erase := by
  induction h with
  | literal half =>
    intro _ m s hm hroom
    exact push_leaves framed (.refl hm) hroom (IntegerValue.signExtend_word half)
  | @wideLiteral loc v depth wide =>
    intro _ m s hm hroom
    rw [Counted.erase_level] at hroom ⊢
    refine .instr rfl (push_leaves framed ((Reaches.refl hm).still framed ?_) ?_ ?_)
    · exact ⟨rfl, rfl, rfl, rfl⟩
    · simp only [List.length_cons] at hroom
      omega
    · exact v.ofInt_word
  | @boolean loc b depth =>
    intro _ m s hm hroom
    refine push_leaves framed (.refl hm) hroom ?_
    cases b <;> rfl
  | @load node place depth isStorage source =>
    intro hnode m s hm hroom
    obtain ⟨id, -, hplace, -, hevaluate⟩ := storage_place ready.complete hnode source
    rw [hevaluate]
    rw [Counted.erase_level] at hroom ⊢
    simp only [List.length_cons] at hroom
    refine .instr (place.exec_load answers m)
      (push_leaves framed ((Reaches.refl hm).set framed ?_ ?_) (by omega) ?_)
    · decide
    · decide
    · exact hm.locals hplace
  | @assign loc lhs rhs code place depth right target ih =>
    intro hnode m s hm hroom
    obtain ⟨hlhs, hrhs⟩ := hnode.operands
    obtain ⟨id, hid, hplace, hbool, -⟩ := storage_place ready.complete hlhs target
    simp only [Counted.erase_append, Counted.erase_cons, Counted.erase_level, List.length_append,
      List.length_cons] at hroom ⊢
    refine (ih hrhs m s hm (by omega)).seq fun m₁ word s₁ hword => ?_
    rw [assign_eq hid hbool]
    have hpopped : Reaches tables owner used 0 m (m₁.pop .rax) s₁ :=
      hword.toReaches.pop framed (by decide) (by decide)
    have hrax : (m₁.pop .rax).regs .rax = word := hword.top
    have hput := hpopped.put framed hplace .rax
    rw [hrax] at hput
    refine .instr rfl (.instr (place.exec_store answers _ _) (push_leaves framed hput (by omega) ?_))
    rw [Machine.read, Slot.put_regs, hrax]
  | @arith loc op lhs rhs rightCode leftCode unsigned depth right left sign ihRight ihLeft =>
    intro hnode m s hm hroom
    obtain ⟨hlhs, hrhs⟩ := hnode.operands
    have hsign := isUnsigned_eq ready.complete hlhs.checked.valid sign
    simp only [Counted.erase_append, Counted.erase_pops, Counted.erase_level, List.length_append,
      List.map_cons, List.map_nil, List.length_cons, List.length_nil] at hroom ⊢
    refine operands_agree framed hm (by omega) (ihRight hrhs) (ihLeft hlhs) ?_
    rintro m' a b s' hreaches rfl rfl
    have happly : Agrees _ (m'.run answers _) _ :=
      arithmetic_leaves framed op unsigned hreaches (by omega)
    rw [hsign]
    -- a division traps on both sides or on none
    rcases hword : op.apply unsigned (m'.regs .rax) (m'.regs .rdi) with _ | word <;>
      rw [hword] at happly <;> exact happly
  | @compare loc op lhs rhs rightCode leftCode unsigned depth right left sign ihRight ihLeft =>
    intro hnode m s hm hroom
    obtain ⟨hlhs, hrhs⟩ := hnode.operands
    have hsign := isUnsigned_eq ready.complete hlhs.checked.valid sign
    simp only [Counted.erase_append, Counted.erase_pops, Counted.erase_level, List.length_append,
      List.map_cons, List.map_nil, List.length_cons, List.length_nil] at hroom ⊢
    refine operands_agree framed hm (by omega) (ihRight hrhs) (ihLeft hlhs) ?_
    rintro m' a b s' hreaches rfl rfl
    rw [hsign]
    exact comparison_leaves framed op unsigned hreaches (by omega)
  | @call loc callee args loading symbol result root depth arguments target typed resolved ih =>
    intro hnode m s hm hroom
    have hbool : Node.isOf tables .bool (.call loc (some callee) args) =
        decide (root = Builtin.bool.id) :=
      call_isOf hnode.checked.valid.self target typed resolved
    simp only [Counted.erase_append, Counted.erase_level, List.length_append] at hroom ⊢
    have hpos : 0 < (Counted.callSequence depth symbol.name (root = Builtin.bool.id)).length := by
      simp only [Counted.callSequence, List.length_append, List.length_cons]
      omega
    refine (ih (fun arg harg => hnode.part harg rfl) rfl m s hm (by omega)).seq
      fun m₁ words s₁ hloads => ?_
    rw [ask_eq target hbool]
    have hcall : Agrees _ (m₁.run answers _) _ := call_leaves framed depth symbol.name
      (root = Builtin.bool.id) hloads.toReaches (by omega) hloads.loaded
    simpa using hcall
  | @toBool loc target operand code source depth inner goal origin other ih =>
    intro hnode m s hm hroom
    simp only [Counted.erase_append, Counted.erase_cons, Counted.erase_level, List.length_append,
      List.length_cons] at hroom ⊢
    rw [Node.evaluate_toBool goal origin other]
    refine (ih hnode.operand m s hm (by omega)).seq fun m₁ word s₁ hword => ?_
    have hrax : (m₁.pop .rax).regs .rax = word := hword.top
    have hbool : Agrees _ ((m₁.pop .rax).run answers _) _ := bool_leaves framed
      (hword.toReaches.pop framed (by decide) (by decide)) (by omega)
    rw [hrax] at hbool
    exact .instr rfl hbool
  | @keep loc target operand code root source depth inner goal origin same ih =>
    intro hnode m s hm hroom
    rw [Node.evaluate_keep goal origin same]
    exact ih hnode.operand m s hm hroom
  | noArguments =>
    intro _ _ m s hm _
    exact ⟨.refl hm, fun _ _ => rfl, List.nil_prefix⟩
  | @argument taken reg free arg rest code others depth first later ihFirst ihLater =>
    intro hargs hregs m s hm hroom
    simp only [Counted.erase_append, Counted.erase_cons, Counted.erase_pushes, Counted.erase_pops,
      List.length_append, List.length_cons, List.length_map, List.length_reverse] at hroom ⊢
    refine Agrees.seq (argument_agrees framed first hregs (ihFirst (hargs arg (by simp))) hm ?_)
      fun m₁ word s₁ hfirst => ?_
    · omega
    · refine (ihLater (fun arg harg => hargs arg (by simp [harg])) (by simpa using hregs) m₁ s₁
        hfirst.1.represents ?_).returns fun m₂ words s₂ hlater => ?_
      · rw [hfirst.1.stack_eq]
        omega
      · refine ⟨hfirst.1.trans hlater.toReaches, fun r hr => ?_, ?_⟩
        · rw [hlater.kept r (List.mem_append_left _ hr), hfirst.2.2 r hr]
        · -- for the later arguments the register is one of those in use
          rw [List.map_cons, hlater.kept reg (by simp), hfirst.2.1]
          exact (List.prefix_cons_inj _).mpr hlater.loaded

end Lowering

end ParenC
