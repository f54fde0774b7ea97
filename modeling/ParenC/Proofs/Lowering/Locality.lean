/-
What the code of a function sees of the tables.

Types, names and signatures are the same wherever variables lie.  Of the places themselves the code
of a function looks at those of its own variables only, because a node mentions no others.  So it is
the same code for all tables that agree on these, and if there is none, the same thing stands in the
way.
-/
import ParenC.Proofs.Lowering.Correctness

namespace ParenC.Lowering

/-- The tables agree on everything but the places of variables, and on the variables of `owner` they
agree in full. -/
structure SharesFrame (owner : Option SymbolId) (tables tables' : Tables) : Prop where
  /-- The types are the same. -/
  types : tables'.types = tables.types
  /-- The symbols are the same but for places. -/
  alike : tables.symbols.Alike tables'.symbols
  /-- The variables of the function are the same. -/
  own : ∀ {id : SymbolId}, tables.symbols.HasVariable owner id →
    tables'.symbols.entries[id.index]? = tables.symbols.entries[id.index]?

variable {owner : Option SymbolId} {tables tables' : Tables}

/-- Functions have the same names in both tables. -/
lemma functionName_alike {symbols symbols' : SymbolTable} (h : symbols.Alike symbols')
    (loc : Location) (symbol? : Option SymbolId) :
    functionName symbols' loc symbol? = functionName symbols loc symbol? := by
  cases symbol? with
  | none => rfl
  | some id =>
    refine h.symm.get_bind id fun heq => ?_
    rw [Symbol.name_eq heq]

section

variable (shares : SharesFrame owner tables tables')

include shares

/-! ## Variables and types -/

lemma slot_local (loc : Location) {id : SymbolId} (h : tables.symbols.HasVariable owner id) :
    slot tables' loc id = slot tables loc id := by
  have hget : tables'.symbols.get id = tables.symbols.get id := by
    rw [SymbolTable.get, SymbolTable.get, shares.own h]
  rw [slot, slot, hget, shares.types]

lemma storage_local {node : Node} (h : node.Usable tables owner) :
    storage tables' node = storage tables node := by
  cases node with
  | varRef loc symbol? =>
    obtain ⟨id, rfl, hvariable⟩ := h.checked.fits.named
    exact slot_local shares loc hvariable
  | varDecl loc symbol? =>
    obtain ⟨id, rfl⟩ := Option.ne_none_iff_exists'.mp h.checked.fits.named
    exact slot_local shares loc (h.declared id (by simp [Node.declared]))
  | _ => rfl

lemma isUnsigned_local (lhs : Node) : isUnsigned tables' lhs = isUnsigned tables lhs := by
  rw [isUnsigned, isUnsigned, Node.type_eq shares.alike, shares.types]

lemma deepType_local (node : Node) : node.deepType tables' = node.deepType tables := by
  rw [Node.deepType, Node.deepType, Node.type_eq shares.alike, shares.types]

/-- What code makes of a symbol without a look at its place is the same for both tables. -/
lemma get_local {β : Type} (id : SymbolId) {next : Symbol → Emitting β}
    (hnext : ∀ {a b : Symbol}, a.unplaced = b.unplaced → next a = next b) :
    (liftM (promised (tables'.symbols.get id)) >>= next : Emitting β) =
      liftM (promised (tables.symbols.get id)) >>= next := by
  cases hget : tables.symbols.get id with
  | error defect => rw [shares.alike.get_error hget]
  | ok symbol =>
    obtain ⟨symbol', hget', heq⟩ := shares.alike.get hget
    rw [hget']
    exact hnext heq.symm

end

/-! ## Values -/

mutual

/-- The code of an expression, by recursion on the expression. -/
theorem value_local (shares : SharesFrame owner tables tables') (node : Node)
    (h : node.Usable tables owner) : value tables' node = value tables node := by
  have hpart : ∀ part ∈ node.parts, node.isFunction = false → part.Usable tables owner :=
    fun part hmem hfunction => h.part hmem hfunction
  match node with
  | .integer .. | .boolean .. => rfl
  | .varRef .. | .varDecl .. =>
    unfold value
    rw [storage_local shares h]
  | .binary loc .assign lhs rhs =>
    unfold value
    rw [value_local shares rhs (hpart rhs (by simp [Node.parts]) rfl),
      storage_local shares (hpart lhs (by simp [Node.parts]) rfl)]
  | .binary loc (.arith op) lhs rhs | .binary loc (.compare op) lhs rhs =>
    unfold value
    rw [value_local shares rhs (hpart rhs (by simp [Node.parts]) rfl),
      value_local shares lhs (hpart lhs (by simp [Node.parts]) rfl), isUnsigned_local shares]
  | .call loc none args => rfl
  | .call loc (some callee) args =>
    have hargs := arguments_local shares [] Reg.arguments args fun arg harg => hpart arg harg rfl
    simp only [value, hargs, shares.types]
    refine bind_congr fun loading => get_local shares callee fun heq => ?_
    rw [Symbol.type_eq heq, Symbol.name_eq heq]
  | .cast loc target operand =>
    unfold value
    rw [value_local shares operand (hpart operand (by simp [Node.parts]) rfl), shares.types,
      deepType_local shares]
  | .block .. | .externDecl .. | .functionDef .. | .ifThen .. | .ifElse .. | .whileLoop ..
  | .forLoop .. | .returnVoid .. | .returnValue .. | .typedefDecl .. | .empty _ => rfl

/-- The code of arguments, by recursion on the arguments. -/
theorem arguments_local (shares : SharesFrame owner tables tables') (used free : List Reg)
    (args : List Node) (h : ∀ arg ∈ args, arg.Usable tables owner) :
    arguments tables' used free args = arguments tables used free args := by
  match args, free with
  | [], _ => rfl
  | arg :: rest, [] => rfl
  | arg :: rest, reg :: free =>
    have hrest := arguments_local shares (used ++ [reg]) free rest fun other hother =>
      h other (by simp [hother])
    simp only [arguments, value_local shares arg (h arg (by simp)), hrest]

end

/-! ## Statements -/

section

variable (shares : SharesFrame owner tables tables')

include shares

lemma evaluate_local {node : Node} (h : node.Usable tables owner) :
    evaluate tables' node = evaluate tables node := by
  rw [evaluate, evaluate, value_local shares node h]

lemma assign_local {lhs rhs : Node} (hlhs : lhs.Usable tables owner)
    (hrhs : rhs.Usable tables owner) : assign tables' lhs rhs = assign tables lhs rhs := by
  rw [assign, assign, evaluate_local shares hrhs, storage_local shares hlhs]

lemma skipUnless_local {cond : Node} (h : cond.Usable tables owner) (target : Nat) :
    skipUnless tables' cond target = skipUnless tables cond target := by
  rw [skipUnless, skipUnless, test, test, evaluate_local shares h]

end

mutual

/-- The code of a statement, by recursion on the statement. -/
theorem statement_local (shares : SharesFrame owner tables tables') (node : Node)
    (h : node.Usable tables owner) (next : Nat) :
    statement tables' next node = statement tables next node := by
  have hpart : ∀ part ∈ node.parts, node.isFunction = false → part.Usable tables owner :=
    fun part hmem hfunction => h.part hmem hfunction
  match node with
  | .block loc body =>
    exact statements_local shares body (fun part hmem => hpart part hmem rfl) next
  | .binary loc .assign lhs rhs =>
    unfold statement
    rw [assign_local shares (hpart lhs (by simp [Node.parts]) rfl)
      (hpart rhs (by simp [Node.parts]) rfl)]
  | .ifThen loc cond body =>
    have hbody := statements_local shares body fun part hmem =>
      hpart part (by simp [Node.parts, hmem]) rfl
    simp only [statement, skipUnless_local shares (hpart cond (by simp [Node.parts]) rfl), hbody]
  | .ifElse loc cond thenBody elseBody =>
    have hthen := statements_local shares thenBody fun part hmem =>
      hpart part (by simp [Node.parts, hmem]) rfl
    have helse := statements_local shares elseBody fun part hmem =>
      hpart part (by simp [Node.parts, hmem]) rfl
    simp only [statement, skipUnless_local shares (hpart cond (by simp [Node.parts]) rfl), hthen,
      helse]
  | .whileLoop loc cond body =>
    have hbody := statements_local shares body fun part hmem =>
      hpart part (by simp [Node.parts, hmem]) rfl
    simp only [statement, skipUnless_local shares (hpart cond (by simp [Node.parts]) rfl), hbody]
  | .forLoop loc init cond step body =>
    have hinit := statement_local shares init (hpart init (by simp [Node.parts]) rfl)
    have hstep := statement_local shares step (hpart step (by simp [Node.parts]) rfl)
    have hbody := statements_local shares body fun part hmem =>
      hpart part (by simp [Node.parts, hmem]) rfl
    simp only [statement, skipUnless_local shares (hpart cond (by simp [Node.parts]) rfl), hinit,
      hbody, hstep]
  | .returnVoid .. | .varDecl .. | .typedefDecl .. | .empty _ | .functionDef .. => rfl
  | .returnValue loc result function =>
    -- what is returned may be a statement, so both kinds of code are the same
    have hresult := hpart result (by simp [Node.parts]) rfl
    unfold statement
    rw [evaluate_local shares hresult, statement_local shares result hresult]
  | .externDecl loc symbol? =>
    unfold statement
    rw [functionName_alike shares.alike]
  | .integer .. | .boolean .. | .varRef .. | .binary _ (.arith _) _ _ | .binary _ (.compare _) _ _
  | .call .. | .cast .. =>
    unfold statement
    rw [evaluate_local shares h]

/-- The code of statements, one after the other. -/
theorem statements_local (shares : SharesFrame owner tables tables') (nodes : List Node)
    (h : ∀ node ∈ nodes, node.Usable tables owner) (next : Nat) :
    statements tables' next nodes = statements tables next nodes := by
  match nodes with
  | [] => rfl
  | node :: rest =>
    have hrest := statements_local shares rest fun other hother => h other (by simp [hother])
    simp only [statements, statement_local shares node (h node (by simp)), hrest]

end

/-! ## Functions -/

section

variable (shares : SharesFrame owner tables tables')

include shares

lemma bodyCode_local {nodes : List Node} (h : ∀ node ∈ nodes, node.Usable tables owner)
    (next : Nat) : bodyCode tables' next nodes = bodyCode tables next nodes := by
  induction nodes generalizing next with
  | nil => rfl
  | cons node rest ih =>
    have hrest := ih fun other hother => h other (by simp [hother])
    simp only [bodyCode, statement_local shares node (h node (by simp)), hrest]

lemma spill_local (loc : Location) {pairs : List (SymbolId × Reg)}
    (h : ∀ pair ∈ pairs, tables.symbols.HasVariable owner pair.1) :
    spill tables' loc pairs = spill tables loc pairs := by
  induction pairs with
  | nil => rfl
  | cons pair rest ih =>
    rw [spill, spill, slot_local shares loc (h pair (by simp)),
      ih fun other hother => h other (by simp [hother])]

/-- The code of a function depends on the places of its own variables only. -/
theorem Function.code_local {function : Function} (h : Compilable tables owner function)
    (frame next : Nat) : function.code tables' frame next = function.code tables frame next := by
  have hspill : ∀ pair ∈ function.params.zip Reg.arguments,
      tables.symbols.HasVariable owner pair.1 := fun pair hpair =>
    h.mem_variables.mp (List.mem_append_left _ (List.of_mem_zip hpair).1)
  rw [Function.code, Function.code, spill_local shares function.location hspill,
    bodyCode_local shares h.usable_statement]

end

end ParenC.Lowering
