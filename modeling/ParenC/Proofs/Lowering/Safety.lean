/-
Generating code meets no defect.

For nodes that were read and checked without findings, and whose variables have places, the code
of an expression leaves one more value on the stack than it found, and the code of a statement
leaves as many.  The only thing that can stand in the way is a feature that the backend lacks, and
it does just if the node asks for more than there is.
-/
import ParenC.Proofs.Lowering.Demand
import ParenC.Proofs.Lowering.Frame

namespace ParenC

namespace Lowering

/-! ## Runs that succeed just if there is code -/

/-- One action after the other. -/
lemma Emitting.bind_run {α β : Type} (act : Emitting α) (next : α → Emitting β) (depth : Nat) :
    (act >>= next) depth = match act depth with
      | .ok (a, depth') => next a depth'
      | .error obstacle => .error obstacle := by
  simp only [Bind.bind, StateT.bind, Except.bind]
  rcases act depth with obstacle | ⟨a, depth'⟩ <;> rfl

/-- There is a result just if it is `possible`; otherwise the backend is at its limits. -/
def Permits {α : Type} (result : Lowered α) (possible : Prop) : Prop :=
  match result with
  | .ok _ => possible
  | .error (.limit _ _) => ¬ possible
  | .error (.defect _) => False

namespace Permits

variable {α β : Type} {result : Lowered α} {possible possible' : Prop}

lemma congr (h : Permits result possible) (hiff : possible ↔ possible') :
    Permits result possible' := by
  rwa [← propext hiff]

lemma bind {next : α → Lowered β} (h : Permits result possible)
    (hnext : ∀ a, Permits (next a) possible') :
    Permits (result >>= next) (possible ∧ possible') := by
  cases result with
  | ok a => exact (hnext a).congr (and_iff_right h).symm
  | error obstacle =>
    cases obstacle with
    | limit loc limit => exact fun hboth => h hboth.1
    | defect defect => exact h

/-- Putting the result into another form. -/
lemma map {f : α → β} (h : Permits result possible) :
    Permits (result >>= fun a => .ok (f a)) possible :=
  (h.bind fun a => show Permits (.ok (f a)) True from trivial).congr (by simp)

/-- Where no defect is met, all depends on whether there is a result. -/
lemma of_safe (h : ∀ defect, result ≠ .error (.defect defect)) :
    Permits result (∃ a, result = .ok a) := by
  cases result with
  | ok a => exact ⟨a, rfl⟩
  | error obstacle =>
    cases obstacle with
    | limit loc limit =>
      rintro ⟨a, ha⟩
      cases ha
    | defect defect => exact h defect rfl

lemma safe (h : Permits result possible) (defect : Defect) : result ≠ .error (.defect defect) := by
  rintro rfl
  exact h

end Permits

/-- Started with `depth` values on the stack, the action succeeds just if it is `possible`, and
leaves `depth'` values there; otherwise the backend is at its limits. -/
def Manages {α : Type} (act : Emitting α) (depth : Nat) (possible : Prop) (depth' : Nat) : Prop :=
  match act depth with
  | .ok (_, after) => possible ∧ after = depth'
  | .error (.limit _ _) => ¬ possible
  | .error (.defect _) => False

namespace Manages

variable {α β : Type} {act : Emitting α} {next : α → Emitting β} {depth mid depth' : Nat}
  {possible possible' : Prop}

lemma pure {a : α} : Manages (Pure.pure a) depth True depth := ⟨trivial, rfl⟩

lemma congr (h : Manages act depth possible depth') (hiff : possible ↔ possible') :
    Manages act depth possible' depth' := by
  rwa [← propext hiff]

lemma bind (h : Manages act depth possible mid)
    (hnext : ∀ a, Manages (next a) mid possible' depth') :
    Manages (act >>= next) depth (possible ∧ possible') depth' := by
  unfold Manages at h ⊢
  rw [Emitting.bind_run]
  rcases hact : act depth with (⟨loc, limit⟩ | defect) | ⟨a, after⟩
  · rw [hact] at h
    exact fun hboth => h hboth.1
  · rw [hact] at h
    exact h
  · rw [hact] at h
    obtain ⟨hpossible, rfl⟩ := h
    have hrest := hnext a
    unfold Manages at hrest
    dsimp only
    rcases hcase : next a after with (⟨loc, limit⟩ | defect) | ⟨b, last⟩
    · rw [hcase] at hrest
      exact fun hboth => hrest hboth.2
    · rw [hcase] at hrest
      exact hrest
    · rw [hcase] at hrest
      exact ⟨⟨hpossible, hrest.1⟩, hrest.2⟩

/-- Going on after an action that always succeeds. -/
lemma after (h : Manages act depth True mid)
    (hnext : ∀ a, Manages (next a) mid possible depth') :
    Manages (act >>= next) depth possible depth' :=
  (h.bind hnext).congr (by simp)

/-- Putting the result into another form. -/
lemma map {f : α → β} (h : Manages act depth possible depth') :
    Manages (act >>= fun a => Pure.pure (f a)) depth possible depth' :=
  (h.bind fun _ => .pure).congr (by simp)

/-- Going on with a value that is there. -/
lemma known {x : Lowered α} {a : α} (hx : x = .ok a)
    (h : Manages (next a) depth possible depth') :
    Manages ((liftM x : Emitting α) >>= next) depth possible depth' := by
  rw [hx]
  exact h

/-- Asking for a value that may be beyond the backend. -/
lemma lift {x : Lowered α} (h : Permits x possible) :
    Manages (liftM x : Emitting α) depth possible depth := by
  cases x with
  | ok a => exact ⟨h, rfl⟩
  | error obstacle => cases obstacle <;> exact h

/-- What a run says once the number of values is forgotten. -/
lemma permits (h : Manages act depth possible depth') : Permits (act.run' depth) possible := by
  unfold Manages at h
  simp only [StateT.run', Functor.map, Except.map]
  rcases hcase : act depth with (⟨loc, limit⟩ | defect) | ⟨a, after⟩
  · rw [hcase] at h
    exact h
  · rw [hcase] at h
    exact h
  · rw [hcase] at h
    exact h.1

end Manages

variable {depth : Nat}

lemma push_manages {src : Operand} : Manages (push src) depth True (depth + 1) := ⟨trivial, rfl⟩

lemma pop_manages {dst : Reg} : Manages (pop dst) (depth + 1) True depth := ⟨trivial, rfl⟩

lemma pushAll_manages (regs : List Reg) :
    Manages (pushAll regs) depth True (depth + regs.length) := by
  induction regs generalizing depth with
  | nil => exact .pure
  | cons reg rest ih =>
    rw [List.length_cons, Nat.add_comm rest.length, ← Nat.add_assoc]
    exact push_manages.after fun _ => ih.map

lemma popAll_manages (regs : List Reg) :
    Manages (popAll regs) (depth + regs.length) True depth := by
  induction regs with
  | nil => exact .pure
  | cons reg rest ih => exact pop_manages.after fun _ => ih.map

lemma literal_manages {value : IntegerValue} :
    Manages (literal value) depth True (depth + 1) := by
  unfold literal
  split
  · exact push_manages
  · exact push_manages.map

lemma arithmetic_manages {unsigned : Bool} {op : ArithOp} :
    Manages (arithmetic unsigned op) depth True (depth + 1) := by
  cases op <;> exact push_manages.map

lemma comparison_manages {unsigned : Bool} {op : CompareOp} :
    Manages (comparison unsigned op) depth True (depth + 1) := push_manages.map

lemma callCode_manages {name : String} {returnsBool : Bool} :
    Manages (callCode name returnsBool) depth True (depth + 1) := ⟨trivial, rfl⟩

lemma toBool_manages : Manages toBool (depth + 1) True (depth + 1) := ⟨trivial, rfl⟩

/-! ## Expressions -/

/-- Tables from which code for the body of `owner` can be generated. -/
structure Ready (tables : Tables) (owner : Option SymbolId) : Prop where
  /-- No declaration is pending. -/
  complete : tables.Complete
  /-- The variables of the function have places. -/
  placed : ∀ {id}, tables.symbols.HasVariable owner id → ∃ symbol offset,
    tables.symbols.entries[id.index]? = some symbol ∧ symbol.offset = .ok offset
  /-- The parameters of every function fit into registers. -/
  signatures : ∀ {i : Nat} {symbol params prototyped external},
    tables.symbols.entries[i]? = some symbol →
    symbol.kind = .function params prototyped external →
    ∀ param ∈ params, tables.types.isScalar param.type = .ok true

/-- The parameters of every function fit into registers. -/
def Signed (tables : Tables) : Prop :=
  ∀ {i : Nat} {symbol params prototyped external},
    tables.symbols.entries[i]? = some symbol →
    symbol.kind = .function params prototyped external →
    ∀ param ∈ params, tables.types.isScalar param.type = .ok true

variable {tables : Tables} {owner : Option SymbolId}

lemma Ready.signed (ready : Ready tables owner) : Signed tables := @Ready.signatures _ _ ready

lemma width_safe (complete : tables.Complete) (loc : Location) {type : TypeId}
    (h : tables.types.Has type) (defect : Defect) :
    width tables.types loc type ≠ .error (.defect defect) := by
  obtain ⟨root, info, hd⟩ := complete.sound.types.denotes h
  obtain ⟨text, htext⟩ := complete.sound.types.describe_ok h
  simp only [width, hd.deepShape, htext, promised, bind, Except.bind]
  split <;> simp [pure, Except.pure, throw, throwThe, MonadExceptOf.throw]

lemma slot_safe (ready : Ready tables owner) (loc : Location) {id : SymbolId}
    (h : tables.symbols.HasVariable owner id) (defect : Defect) :
    slot tables loc id ≠ .error (.defect defect) := by
  obtain ⟨symbol, offset, hget, hoffset⟩ := ready.placed h
  obtain ⟨type, -, htype, hhas⟩ := ready.complete.type hget
  have hsymbol := SymbolTable.get_eq_ok_iff.mpr hget
  have hwidth := width_safe ready.complete loc hhas defect
  simp only [slot, hsymbol, hoffset, htype, promised, bind, Except.bind]
  cases hcase : width tables.types loc type with
  | ok w => simp [pure, Except.pure]
  | error obstacle =>
    rw [hcase] at hwidth
    simpa using hwidth

/-- Something of a type with values is an expression. -/
lemma isExpression_of_type {node : Node} {type : TypeId}
    (htype : node.type tables.symbols = .ok type) (hvoid : type ≠ Builtin.void.id) :
    node.isExpression = true := by
  by_contra h
  rw [Bool.not_eq_true] at h
  rw [Node.type_of_not_isExpression h] at htype
  cases htype
  exact hvoid rfl

lemma mem_of_mapM_eq_ok {α β ε : Type} {f : α → Except ε β} {xs : List α} {ys : List β}
    (h : xs.mapM f = .ok ys) {x : α} (hx : x ∈ xs) {y : β} (hy : f x = .ok y) : y ∈ ys := by
  induction xs generalizing ys with
  | nil => simp at hx
  | cons head rest ih =>
    rw [List.mapM_cons] at h
    cases hhead : f head with
    | error e => simp [hhead, bind, Except.bind] at h
    | ok first =>
      cases hrest : rest.mapM f with
      | error e => simp [hhead, hrest, bind, Except.bind] at h
      | ok others =>
        simp only [hhead, hrest, bind, Except.bind, pure, Except.pure, Except.ok.injEq] at h
        subst h
        rcases List.mem_cons.mp hx with rfl | hx
        · rw [hhead] at hy
          cases hy
          exact List.mem_cons_self
        · exact List.mem_cons_of_mem _ (ih hrest hx)

lemma ne_void_of_isScalar (sound : tables.types.Sound) {type : TypeId}
    (h : tables.types.isScalar type = .ok true) : type ≠ Builtin.void.id := by
  rintro rfl
  simp [TypeTable.isScalar, (sound.denotes_builtin .void).deepShape, Builtin.info,
    Builtin.isScalar, bind, Except.bind, pure, Except.pure] at h

/-- The arguments of a call have values. -/
lemma isExpression_of_arg (complete : tables.Complete) (signed : Signed tables) {loc : Location}
    {callee : SymbolId} {args : List Node}
    (h : (Node.call loc (some callee) args).Checked tables owner) :
    ∀ arg ∈ args, arg.isExpression = true := by
  obtain ⟨symbol, params, prototyped, external, hget, hkind⟩ :=
    (h.valid.self callee rfl).exists_function
  have hsymbol := SymbolTable.get_eq_ok_iff.mpr hget
  intro arg harg
  obtain ⟨type, htype, -⟩ :=
    Node.type_ok complete arg (h.valid.part (by simpa [Node.parts] using harg))
  refine isExpression_of_type htype ?_
  have hrule := h.rule callee rfl symbol hsymbol params prototyped external hkind
  cases prototyped with
  | false =>
    rintro rfl
    exact hrule arg harg htype
  | true =>
    have hmem : type ∈ params.map (·.type) :=
      mem_of_mapM_eq_ok hrule harg htype
    obtain ⟨param, hparam, rfl⟩ := List.mem_map.mp hmem
    exact ne_void_of_isScalar complete.sound.types
      (signed hget hkind param hparam)

/-- The place of a variable is known. -/
lemma storage_safe (ready : Ready tables owner) {node : Node} (h : node.Checked tables owner)
    (hdeclared : ∀ id ∈ node.declared, tables.symbols.HasVariable owner id)
    (hstorage : node.isStorage = true) (defect : Defect) :
    storage tables node ≠ .error (.defect defect) := by
  cases node with
  | varRef loc symbol? =>
    obtain ⟨id, rfl, hvar⟩ := h.fits.named
    exact slot_safe ready loc hvar defect
  | varDecl loc symbol? =>
    obtain ⟨id, rfl⟩ := Option.ne_none_iff_exists'.mp h.fits.named
    exact slot_safe ready loc (hdeclared id (by simp [Node.declared])) defect
  | _ => simp [Node.isStorage] at hstorage

/-- Whether an operator works on unsigned values is known. -/
lemma isUnsigned_ok (complete : tables.Complete) {lhs : Node} (h : lhs.AllValid tables) :
    ∃ unsigned, promised (isUnsigned tables lhs) = .ok unsigned := by
  obtain ⟨type, htype, hhas⟩ := Node.type_ok complete lhs h
  obtain ⟨root, info, hd⟩ := complete.sound.types.denotes hhas
  simp [isUnsigned, htype, hd.isUnsigned, promised, bind, Except.bind]

/-- Both operands of an operator are expressions. -/
lemma isExpression_of_operand {loc : Location} {op : BinOp} {lhs rhs : Node}
    (h : (Node.binary loc op lhs rhs).Checked tables owner) :
    lhs.isExpression = true ∧ rhs.isExpression = true := by
  obtain ⟨type, hleft, hright, hvoid, -⟩ := h.rule
  exact ⟨isExpression_of_type hleft hvoid, isExpression_of_type hright hvoid⟩

/-- The operand of a cast is an expression. -/
lemma isExpression_of_castOperand (complete : tables.Complete) {loc : Location} {target : TypeId}
    {operand : Node} (h : (Node.cast loc target operand).Checked tables owner) :
    operand.isExpression = true := by
  obtain ⟨-, source, info, hdeep, hget, hshape⟩ := h.rule
  obtain ⟨type, htype, -⟩ := Node.type_ok complete operand (h.valid.part (by simp [Node.parts]))
  refine isExpression_of_type htype ?_
  rintro rfl
  have hvoid := complete.sound.types.denotes_builtin .void
  simp only [Node.deepType, htype, bind, Except.bind, hvoid.resolve, Except.ok.injEq] at hdeep
  subst hdeep
  rw [hvoid.get] at hget
  cases hget
  exact hshape rfl

/-- Whether a variable in the body of `owner` can be loaded is up to `loads`. -/
def Storing (tables : Tables) (owner : Option SymbolId) (loads : Node → Prop) : Prop :=
  ∀ {node : Node}, node.Checked tables owner →
    (∀ id ∈ node.declared, tables.symbols.HasVariable owner id) → node.isStorage = true →
    Permits (storage tables node) (loads node)

/-- A variable can be loaded if there is a slot for it. -/
lemma Ready.storing (ready : Ready tables owner) :
    Storing tables owner fun node => ∃ slot, storage tables node = .ok slot := by
  intro node h hdeclared hstorage
  exact .of_safe (storage_safe ready h hdeclared hstorage)

variable {loads : Node → Prop}

mutual

/-- There is code for an expression just if it can be read. -/
theorem value_manages (ready : Ready tables owner) (storing : Storing tables owner loads)
    (node : Node) {depth : Nat} (h : node.Checked tables owner)
    (hdeclared : ∀ id ∈ node.declared, tables.symbols.HasVariable owner id)
    (hexpr : node.isExpression = true) :
    Manages (value tables node) depth (node.Readable loads) (depth + 1) := by
  match node with
  | .integer loc v =>
    refine literal_manages.congr ?_
    rw [h.readable_iff rfl]
    simp [Node.arguments, Node.operands, Node.statementParts, Node.target?]
  | .boolean loc b =>
    refine push_manages.congr ?_
    rw [h.readable_iff rfl]
    simp [Node.arguments, Node.operands, Node.statementParts, Node.target?]
  | .varRef loc symbol? =>
    rw [propext (Node.readable_iff_loads rfl)]
    unfold value
    exact ((Manages.lift (storing h hdeclared rfl)).bind fun _ => push_manages.map).congr (by simp)
  | .varDecl loc symbol? =>
    rw [propext (Node.readable_iff_loads rfl)]
    unfold value
    exact ((Manages.lift (storing h hdeclared rfl)).bind fun _ => push_manages.map).congr (by simp)
  | .binary loc op lhs rhs =>
    obtain ⟨hleftExpr, hrightExpr⟩ := isExpression_of_operand h
    have hleft := h.part (show lhs ∈ (Node.binary loc op lhs rhs).parts by simp [Node.parts])
    have hright := h.part (show rhs ∈ (Node.binary loc op lhs rhs).parts by simp [Node.parts])
    simp only [Node.declared, List.mem_append] at hdeclared
    -- the right operand is computed first, so that the left one lies above it
    have hrhs : Manages (value tables rhs) depth (rhs.Readable loads) (depth + 1) :=
      value_manages ready storing rhs hright (fun id hid => hdeclared id (Or.inr hid)) hrightExpr
    have hlhs : Manages (value tables lhs) (depth + 1) (lhs.Readable loads) (depth + 1 + 1) :=
      value_manages ready storing lhs hleft (fun id hid => hdeclared id (Or.inl hid)) hleftExpr
    obtain ⟨unsigned, hunsigned⟩ := isUnsigned_ok ready.complete hleft.valid
    match op with
    | .assign =>
      have htarget := storing hleft (fun id hid => hdeclared id (Or.inl hid)) (h.target lhs rfl)
      unfold value
      refine (hrhs.bind fun _ => pop_manages.after fun _ =>
        (Manages.lift htarget).bind fun _ => push_manages.map).congr ?_
      rw [h.readable_iff rfl]
      simp [Node.arguments, Node.operands, Node.statementParts, Node.target?]
    | .arith op =>
      unfold value
      refine (hrhs.bind fun _ => hlhs.bind fun _ => (popAll_manages [.rax, .rdi]).after fun _ =>
        .known hunsigned arithmetic_manages.map).congr ?_
      rw [h.readable_iff rfl]
      simp [Node.arguments, Node.operands, Node.statementParts, Node.target?, and_comm]
    | .compare op =>
      unfold value
      refine (hrhs.bind fun _ => hlhs.bind fun _ => (popAll_manages [.rax, .rdi]).after fun _ =>
        .known hunsigned comparison_manages.map).congr ?_
      rw [h.readable_iff rfl]
      simp [Node.arguments, Node.operands, Node.statementParts, Node.target?, and_comm]
  | .call loc callee? args =>
    obtain ⟨callee, rfl⟩ := Option.ne_none_iff_exists'.mp h.fits.named
    have hargs : ∀ arg ∈ args, arg.Checked tables owner := fun arg harg => h.part harg
    obtain ⟨symbol, hget, -⟩ := h.valid.self callee rfl
    obtain ⟨type, -, htype, hhas⟩ := ready.complete.type hget
    obtain ⟨root, info, hd⟩ := ready.complete.sound.types.denotes hhas
    have hsymbol : promised (tables.symbols.get callee) = .ok symbol := by
      rw [SymbolTable.get_eq_ok_iff.mpr hget]
      rfl
    have hresult : promised (do tables.types.resolve (← symbol.type)) = .ok root := by
      simp [htype, hd.resolve, promised, bind, Except.bind]
    unfold value
    refine ((arguments_manages ready storing args [] Reg.arguments hargs hdeclared
      (isExpression_of_arg ready.complete ready.signed h)).bind fun _ => .known hsymbol
        (.known hresult callCode_manages.map)).congr ?_
    rw [h.readable_iff rfl]
    simp [Node.arguments, Node.operands, Node.statementParts, Node.target?]
  | .cast loc target operand =>
    have hoperand := h.part (show operand ∈ (Node.cast loc target operand).parts by
      simp [Node.parts])
    obtain ⟨root, info, hd⟩ := ready.complete.sound.types.denotes h.valid.self
    obtain ⟨type, htype, hhas⟩ := Node.type_ok ready.complete operand hoperand.valid
    obtain ⟨source, info', hd'⟩ := ready.complete.sound.types.denotes hhas
    have hgoal : promised (tables.types.resolve target) = .ok root := by
      simp [hd.resolve, promised]
    have hsource : promised (operand.deepType tables) = .ok source := by
      simp [Node.deepType, htype, hd'.resolve, promised, bind, Except.bind]
    unfold value
    have hfinish : ∀ code, Manages (if root = Builtin.bool.id && source ≠ Builtin.bool.id
        then (do return code ++ (← toBool)) else return code) (depth + 1) True (depth + 1) := by
      intro code
      split
      · exact toBool_manages.map
      · exact .pure
    refine ((value_manages ready storing operand hoperand hdeclared
      (isExpression_of_castOperand ready.complete h)).bind fun code => .known hgoal
        (.known hsource (hfinish code))).congr ?_
    rw [h.readable_iff rfl]
    simp [Node.arguments, Node.operands, Node.statementParts, Node.target?]

/-- There is code for arguments just if there are registers for them and they can be read. -/
theorem arguments_manages (ready : Ready tables owner) (storing : Storing tables owner loads)
    (args : List Node) (used free : List Reg) {depth : Nat}
    (h : ∀ arg ∈ args, arg.Checked tables owner)
    (hdeclared : ∀ id ∈ Node.declaredAll args, tables.symbols.HasVariable owner id)
    (hexpr : ∀ arg ∈ args, arg.isExpression = true) :
    Manages (arguments tables used free args) depth
      (args.length ≤ free.length ∧ ∀ arg ∈ args, arg.Readable loads) depth := by
  match args, free with
  | [], _ =>
    refine Manages.pure.congr ?_
    simp
  | arg :: rest, [] =>
    show ¬ _
    simp
  | arg :: rest, reg :: free =>
    simp only [Node.declaredAll_cons, List.mem_append] at hdeclared
    have hfirst : ∀ {depth : Nat}, Manages (value tables arg) depth (arg.Readable loads)
        (depth + 1) :=
      value_manages ready storing arg (h arg (by simp)) (fun id hid => hdeclared id (Or.inl hid))
        (hexpr arg (by simp))
    have hrest : Manages (arguments tables (used ++ [reg]) free rest) depth
        (rest.length ≤ free.length ∧ ∀ arg ∈ rest, arg.Readable loads) depth :=
      arguments_manages ready storing rest (used ++ [reg]) free (fun n hn => h n (by simp [hn]))
        (fun id hid => hdeclared id (Or.inr hid)) fun n hn => hexpr n (by simp [hn])
    -- unless the argument is a leaf, registers in use are saved around its code
    have hrestore : Manages (popAll (if arg.isLeaf then [] else used).reverse)
        (depth + (if arg.isLeaf then [] else used).length) True depth := by
      rw [← List.length_reverse]
      exact popAll_manages _
    unfold arguments
    refine ((pushAll_manages _).after fun _ => hfirst.bind fun _ => pop_manages.after fun _ =>
      hrestore.after fun _ => hrest.map).congr ?_
    simp only [List.length_cons, Nat.add_le_add_iff_right, List.forall_mem_cons]
    grind

end

/-! ## Statements -/

lemma evaluate_manages (ready : Ready tables owner) (storing : Storing tables owner loads)
    {node : Node} (h : node.Checked tables owner)
    (hdeclared : ∀ id ∈ node.declared, tables.symbols.HasVariable owner id)
    (hexpr : node.isExpression = true) :
    Manages (evaluate tables node) depth (node.Readable loads) depth :=
  ((value_manages ready storing node h hdeclared hexpr).bind fun _ => pop_manages.map).congr
    (by simp)

/-- An expression whose value nobody needs, and which declares nothing. -/
lemma discarded_manages (ready : Ready tables owner) (storing : Storing tables owner loads)
    {node : Node} {next : Nat} (h : node.Checked tables owner)
    (hdeclared : ∀ id ∈ node.declared, tables.symbols.HasVariable owner id)
    (hexpr : node.isExpression = true) (hdeclaration : node.isDeclaration = false) :
    Manages (do return (⟨plain (← evaluate tables node), [], next⟩ : Code)) depth
      (node.Runnable loads) depth := by
  refine (evaluate_manages ready storing h hdeclared hexpr).map.congr ?_
  simp [Node.Readable, Node.Runnable, hdeclaration]

lemma skipUnless_manages (ready : Ready tables owner) (storing : Storing tables owner loads)
    {cond : Node} {target : Nat} (h : cond.Checked tables owner)
    (hdeclared : ∀ id ∈ cond.declared, tables.symbols.HasVariable owner id)
    (htype : cond.type tables.symbols = .ok Builtin.bool.id) :
    Manages (skipUnless tables cond target) depth (cond.Readable loads) depth := by
  have hexpr := isExpression_of_type htype (by decide)
  have htest : Manages (test tables cond) depth (cond.Readable loads) depth :=
    (evaluate_manages ready storing h hdeclared hexpr).map
  exact htest.map

lemma assign_manages (ready : Ready tables owner) (storing : Storing tables owner loads)
    {loc : Location} {lhs rhs : Node}
    (h : (Node.binary loc .assign lhs rhs).Checked tables owner)
    (hdeclared : ∀ id ∈ lhs.declared ++ rhs.declared, tables.symbols.HasVariable owner id) :
    Manages (assign tables lhs rhs) depth (rhs.Readable loads ∧ loads lhs) depth := by
  have hleft := h.part (show lhs ∈ (Node.binary loc .assign lhs rhs).parts by simp [Node.parts])
  have hright := h.part (show rhs ∈ (Node.binary loc .assign lhs rhs).parts by simp [Node.parts])
  have htarget := storing hleft (fun id hid => hdeclared id (List.mem_append_left _ hid))
    (h.target lhs rfl)
  exact (evaluate_manages ready storing hright
    (fun id hid => hdeclared id (List.mem_append_right _ hid)) (isExpression_of_operand h).2).bind
      fun _ => (Manages.lift htarget).map

mutual

/-- There is code for a statement just if it can be run. -/
theorem statement_manages (ready : Ready tables owner) (storing : Storing tables owner loads)
    (node : Node) {next depth : Nat} (h : node.Checked tables owner)
    (hdeclared : ∀ id ∈ node.declared, tables.symbols.HasVariable owner id)
    (hfunction : node.isFunction = false) :
    Manages (statement tables next node) depth (node.Runnable loads) depth := by
  match node with
  | .block loc body =>
    unfold statement
    refine (statements_manages ready storing body (fun n hn => h.part hn) hdeclared
      h.fits.flat).congr ?_
    rw [h.runnable_iff rfl]
    simp [Node.arguments, Node.operands, Node.statementParts, Node.target?]
  | .binary loc .assign lhs rhs =>
    unfold statement
    refine (assign_manages ready storing h hdeclared).map.congr ?_
    rw [h.runnable_iff rfl]
    simp [Node.arguments, Node.operands, Node.statementParts, Node.target?]
  | .ifThen loc cond body | .whileLoop loc cond body =>
    have hparts : ∀ part ∈ cond :: body, part.Checked tables owner := fun part hpart => h.part hpart
    simp only [Node.declared, List.mem_append] at hdeclared
    unfold statement
    refine ((skipUnless_manages ready storing (hparts cond (by simp))
      (fun id hid => hdeclared id (Or.inl hid)) h.rule).bind fun _ =>
        (statements_manages ready storing body (fun n hn => hparts n (by simp [hn]))
          (fun id hid => hdeclared id (Or.inr hid)) h.fits.flat).map).congr ?_
    rw [h.runnable_iff rfl]
    simp [Node.arguments, Node.operands, Node.statementParts, Node.target?]
  | .ifElse loc cond thenBody elseBody =>
    have hparts : ∀ part ∈ cond :: (thenBody ++ elseBody), part.Checked tables owner :=
      fun part hpart => h.part hpart
    have hflat := h.fits.flat
    simp only [Node.statementParts, List.mem_append] at hflat
    simp only [Node.declared, List.mem_append] at hdeclared
    unfold statement
    refine ((skipUnless_manages ready storing (hparts cond (by simp))
      (fun id hid => hdeclared id (Or.inl (Or.inl hid))) h.rule).bind fun _ =>
        (statements_manages ready storing thenBody (fun n hn => hparts n (by simp [hn]))
          (fun id hid => hdeclared id (Or.inl (Or.inr hid)))
          fun n hn => hflat n (Or.inl hn)).bind fun _ =>
        (statements_manages ready storing elseBody (fun n hn => hparts n (by simp [hn]))
          (fun id hid => hdeclared id (Or.inr hid)) fun n hn => hflat n (Or.inr hn)).map).congr ?_
    rw [h.runnable_iff rfl]
    simp [Node.arguments, Node.operands, Node.statementParts, Node.target?, or_imp, forall_and]
  | .forLoop loc init cond step body =>
    have hparts : ∀ part ∈ init :: cond :: step :: body, part.Checked tables owner :=
      fun part hpart => h.part hpart
    have hflat := h.fits.flat
    simp only [Node.statementParts, List.mem_cons] at hflat
    simp only [Node.declared, List.mem_append] at hdeclared
    unfold statement
    refine ((statement_manages ready storing init (hparts init (by simp))
      (fun id hid => hdeclared id (Or.inl (Or.inl (Or.inl hid)))) (hflat init (Or.inl rfl))).bind
        fun _ => (skipUnless_manages ready storing (hparts cond (by simp))
          (fun id hid => hdeclared id (Or.inl (Or.inl (Or.inr hid)))) h.rule).bind fun _ =>
        (statements_manages ready storing body (fun n hn => hparts n (by simp [hn]))
          (fun id hid => hdeclared id (Or.inr hid))
          fun n hn => hflat n (Or.inr (Or.inr hn))).bind fun _ =>
        (statement_manages ready storing step (hparts step (by simp))
          (fun id hid => hdeclared id (Or.inl (Or.inr hid)))
          (hflat step (Or.inr (Or.inl rfl)))).map).congr ?_
    rw [h.runnable_iff rfl]
    simp only [Node.arguments, Node.operands, Node.statementParts, Node.target?,
      List.forall_mem_cons]
    grind
  | .returnVoid .. | .typedefDecl .. | .empty _ =>
    refine Manages.pure.congr ?_
    rw [h.runnable_iff rfl]
    simp [Node.arguments, Node.operands, Node.statementParts, Node.target?]
  | .returnValue loc result function =>
    have hresult := h.part (show result ∈ (Node.returnValue loc result function).parts by
      simp [Node.parts])
    have hiff : result.Readable loads ↔
        (Node.returnValue loc result function).Runnable loads := by
      rw [h.runnable_iff rfl]
      simpa [Node.arguments, Node.operands, Node.statementParts, Node.target?] using
        Node.Readable.runnable
    unfold statement
    split
    · rename_i hexpr
      exact (evaluate_manages ready storing hresult hdeclared hexpr).map.congr hiff
    · rename_i hexpr
      -- what is no expression is no variable either
      have hstorage : result.isStorage = false := by
        cases result <;> first | rfl | simp [Node.isExpression] at hexpr
      refine (statement_manages ready storing result hresult hdeclared (h.fits.flat result (by
        simp [Node.statementParts]))).map.congr (Iff.trans ?_ hiff)
      simp [Node.Readable, Node.Runnable, hstorage]
  | .externDecl loc symbol? =>
    obtain ⟨id, rfl⟩ := Option.ne_none_iff_exists'.mp h.fits.named
    obtain ⟨symbol, hget, -⟩ := h.valid.self id rfl
    have hname : Permits (promised (functionName tables.symbols loc (some id))) True := by
      simp [functionName, SymbolTable.get_eq_ok_iff.mpr hget, promised, bind, Except.bind, pure,
        Except.pure, Permits]
    unfold statement
    refine (Manages.lift hname).map.congr ?_
    rw [h.runnable_iff rfl]
    simp [Node.arguments, Node.operands, Node.statementParts, Node.target?]
  | .varDecl loc symbol? =>
    refine Manages.pure.congr (iff_of_true trivial ⟨?_, Node.feasible_of_isStorage rfl⟩)
    simp [Node.isDeclaration]
  | .integer .. | .boolean .. | .varRef .. | .binary _ (.arith _) .. | .binary _ (.compare _) ..
  | .call .. | .cast .. => exact discarded_manages ready storing h hdeclared rfl rfl

theorem statements_manages (ready : Ready tables owner) (storing : Storing tables owner loads)
    (nodes : List Node) {next depth : Nat} (h : ∀ node ∈ nodes, node.Checked tables owner)
    (hdeclared : ∀ id ∈ Node.declaredAll nodes, tables.symbols.HasVariable owner id)
    (hfunction : ∀ node ∈ nodes, node.isFunction = false) :
    Manages (statements tables next nodes) depth (∀ node ∈ nodes, node.Runnable loads) depth := by
  match nodes with
  | [] => exact Manages.pure.congr (by simp)
  | node :: rest =>
    simp only [Node.declaredAll_cons, List.mem_append] at hdeclared
    unfold statements
    have hfirst : Manages (statement tables next node) depth (node.Runnable loads) depth :=
      statement_manages ready storing node (h node (by simp))
        (fun id hid => hdeclared id (Or.inl hid)) (hfunction node (by simp))
    refine (hfirst.bind fun _ => (statements_manages ready storing rest
      (fun n hn => h n (by simp [hn])) (fun id hid => hdeclared id (Or.inr hid))
        fun n hn => hfunction n (by simp [hn])).map).congr ?_
    simp

end

lemma bodyCode_manages (ready : Ready tables owner) (storing : Storing tables owner loads)
    {nodes : List Node} (next : Nat) (h : ∀ node ∈ nodes, node.Checked tables owner)
    (hdeclared : ∀ id ∈ Node.declaredAll nodes, tables.symbols.HasVariable owner id)
    (hfunction : ∀ node ∈ nodes, node.isFunction = false) :
    Manages (bodyCode tables next nodes) 0 (∀ node ∈ nodes, node.Runnable loads) 0 := by
  induction nodes generalizing next with
  | nil => exact Manages.pure.congr (by simp)
  | cons node rest ih =>
    simp only [Node.declaredAll_cons, List.mem_append] at hdeclared
    have hfirst : Manages (statement tables next node) 0 (node.Runnable loads) 0 :=
      statement_manages ready storing node (h node (by simp))
        (fun id hid => hdeclared id (Or.inl hid)) (hfunction node (by simp))
    refine (hfirst.bind fun first => ?_).congr List.forall_mem_cons.symm
    show Manages (do return first.append (← bodyCode tables first.next rest)) 0 _ 0
    exact (ih first.next (fun n hn => h n (by simp [hn])) (fun id hid => hdeclared id (Or.inr hid))
      fun n hn => hfunction n (by simp [hn])).map

end Lowering

end ParenC
