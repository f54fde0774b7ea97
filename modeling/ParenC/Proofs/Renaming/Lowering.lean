/-
Generating code looks at the names of functions only.

Code mentions variables by their places and types by their sizes.  The names in it are those of
functions that are called, declared as defined elsewhere or defined, and these are kept.  So the
same code comes out, or the same feature of the backend is missing at the same place.
-/
import ParenC.Lowering.Unit
import ParenC.Proofs.Renaming.Typing
import ParenC.Proofs.Typing

namespace ParenC

variable {f : String → String} {α α' β β' : Type} {map : α → α'} {map' : β → β'}

/-- What is a function in the table `base` has a name that is kept. -/
def SymbolTable.KeepsNamesOf (f : String → String) (base symbols : SymbolTable) : Prop :=
  ∀ ⦃id⦄, base.HasSort .function id →
    ∃ symbol, symbols.get id = .ok symbol ∧ f symbol.name = symbol.name

namespace SymbolTable

lemma KeepsFunctions.keepsNamesOf {symbols : SymbolTable} (h : symbols.KeepsFunctions f) :
    KeepsNamesOf f symbols symbols := by
  rintro id ⟨symbol, hget, hsort⟩
  exact ⟨symbol, get_eq_ok_iff.mpr hget, h symbol (Array.mem_of_getElem? hget) hsort⟩

/-- A place in the frame is no name. -/
lemma KeepsNamesOf.place {base symbols symbols' : SymbolTable} (h : KeepsNamesOf f base symbols)
    {id : SymbolId} {offset : Nat} (hplace : symbols.modify id (·.place offset) = .ok symbols') :
    KeepsNamesOf f base symbols' := by
  intro id' hfunction
  obtain ⟨symbol, hget, hname⟩ := h hfunction
  unfold modify at hplace
  cases hold : symbols.get id with
  | error defect =>
    rw [hold] at hplace
    cases hplace
  | ok old =>
    rw [hold] at hplace
    cases hplace
    rw [get_eq_ok_iff] at hget hold
    by_cases hid : id.index = id'.index
    · have hsame : old = symbol := by
        rw [hid, hget] at hold
        exact (Option.some.inj hold).symm
      refine ⟨old.place offset, get_eq_ok_iff.mpr ?_, by rw [Symbol.place_name, hsame, hname]⟩
      simp [hid, (Array.getElem?_eq_some_iff.mp hget).1]
    · exact ⟨symbol, get_eq_ok_iff.mpr (by simp [Array.getElem?_setIfInBounds_ne hid, hget]), hname⟩

end SymbolTable

namespace Lowering

/-! ## Code or an obstacle -/

/-- The second outcome is the first one with other names, or the same kind of obstacle stands at the
same place. -/
inductive Repeated (map : α → α') : Lowered α → Lowered α' → Prop
  | ok {a : α} : Repeated map (.ok a) (.ok (map a))
  | limit {loc : Location} {limit limit' : Limit} :
      Repeated map (.error (.limit loc limit)) (.error (.limit loc limit'))
  | defect {d : Defect} {outcome : Lowered α'} : Repeated map (.error (.defect d)) outcome

namespace Repeated

lemma same {x : Lowered α} : Repeated id x x := by
  rcases x with (⟨loc, limit⟩ | defect) | a
  · exact .limit
  · exact .defect
  · exact .ok

lemma bind {x : Lowered α} {x' : Lowered α'} {next : α → Lowered β} {next' : α' → Lowered β'}
    (h : Repeated map x x') (hnext : ∀ a, Repeated map' (next a) (next' (map a))) :
    Repeated map' (x >>= next) (x' >>= next') := by
  cases h with
  | ok => exact hnext _
  | limit => exact .limit
  | defect => exact .defect

lemma promised {x : Except Defect α} {x' : Except Defect α'} (h : AnswersAs map x x') :
    Repeated map (promised x) (promised x') := by
  cases x with
  | ok a =>
    rw [h a rfl]
    exact .ok
  | error d => exact .defect

end Repeated

/-- The same for code that counts the values on the stack. -/
def Repeats (act act' : Emitting α) : Prop := ∀ depth, Repeated id (act depth) (act' depth)

namespace Repeats

lemma same {act : Emitting α} : Repeats act act := fun _ => .same

lemma bind {act act' : Emitting α} {next next' : α → Emitting β} (h : Repeats act act')
    (hnext : ∀ a, Repeats (next a) (next' a)) : Repeats (act >>= next) (act' >>= next') :=
  fun depth => (h depth).bind fun pair => hnext pair.1 pair.2

lemma lift {x x' : Lowered α} (h : Repeated id x x') :
    Repeats (liftM x : Emitting α) (liftM x') := fun _ => h.bind fun _ => .same

/-- What follows may rely on what the promised value is. -/
lemma promised_bind {x : Except Defect α} {x' : Except Defect α'} {next : α → Emitting β}
    {next' : α' → Emitting β} (h : AnswersAs map x x')
    (hnext : ∀ a, x = .ok a → Repeats (next a) (next' (map a))) :
    Repeats (liftM (Lowering.promised x) >>= next) (liftM (Lowering.promised x') >>= next') := by
  cases x with
  | ok a =>
    rw [h a rfl]
    exact hnext a rfl
  | error d => exact fun _ => .defect

/-- Looking at the number of values on the stack. -/
lemma get {next next' : Nat → Emitting β} (h : ∀ depth, Repeats (next depth) (next' depth)) :
    Repeats (MonadState.get >>= next) (MonadState.get >>= next') := fun depth => h depth depth

lemma ite {c : Prop} [Decidable c] {act₁ act₂ act₁' act₂' : Emitting α} (h₁ : Repeats act₁ act₁')
    (h₂ : Repeats act₂ act₂') :
    Repeats (if c then act₁ else act₂) (if c then act₁' else act₂') := by
  split
  · exact h₁
  · exact h₂

end Repeats

/-! ## Values -/

section Code

variable {tables : Tables}

lemma width_repeated (types : TypeTable) (loc : Location) (type : TypeId) :
    Repeated id (width types loc type) (width (types.rename f) loc type) := by
  refine .bind (.promised (.of_map (types.rename_deepShape type))) fun shape => ?_
  have hlimit : Repeated id
      (do throw (.limit loc (.registerValue (← promised (types.describe type)))) : Lowered Width)
      (do throw (.limit loc (.registerValue (← promised ((types.rename f).describe type))))) := by
    have hdescribe := types.describe_answers (f := f) type
    cases htext : types.describe type with
    | error defect => exact .defect
    | ok text =>
      obtain ⟨text', htext'⟩ := hdescribe text htext
      rw [htext']
      exact .limit
  cases shape with
  | builtin which =>
    cases which with
    | bool | s64 | u64 => exact .same
    | void => exact hlimit
  | struct fields => exact hlimit
  | definition name target => exact hlimit

lemma slot_repeated (loc : Location) (variableId : SymbolId) :
    Repeated id (slot tables loc variableId) (slot (tables.rename f) loc variableId) := by
  refine .bind (.promised (.of_map (tables.symbols.rename_get variableId))) fun symbol => ?_
  refine .bind (.promised symbol.offset_answersAs) fun offset => ?_
  refine .bind (.promised symbol.type_answersAs) fun type => ?_
  exact .bind (width_repeated tables.types loc type) fun width => .same

lemma storage_repeated (node : Node) :
    Repeated id (storage tables node) (storage (tables.rename f) node) := by
  match node with
  | .varRef loc (some id) | .varDecl loc (some id) => exact slot_repeated loc id
  | .varRef loc none | .varDecl loc none => exact .defect
  | .integer .. | .boolean .. | .binary .. | .block .. | .externDecl .. | .functionDef ..
  | .call .. | .ifThen .. | .ifElse .. | .whileLoop .. | .forLoop .. | .cast .. | .returnVoid ..
  | .returnValue .. | .typedefDecl .. | .empty _ => exact .defect

lemma isUnsigned_rename (lhs : Node) :
    isUnsigned (tables.rename f) lhs = isUnsigned tables lhs := by
  have htype : lhs.type (tables.rename f).symbols = lhs.type tables.symbols :=
    lhs.type_rename tables.symbols
  rw [isUnsigned, isUnsigned, htype]
  exact bind_congr fun type => tables.types.rename_isUnsigned type

variable {base : Tables}

mutual

theorem value_repeats (hkept : base.symbols.KeepsNamesOf f tables.symbols) (node : Node)
    (h : node.AllValid base) :
    Repeats (value tables node) (value (tables.rename f) node) := by
  match node with
  | .integer .. | .boolean .. => exact .same
  | .varRef loc symbol? | .varDecl loc symbol? =>
    exact .bind (.lift (storage_repeated _)) fun _ => .same
  | .binary loc .assign lhs rhs =>
    refine .bind (value_repeats hkept rhs (h.part (by simp [Node.parts]))) fun code => ?_
    refine .bind .same fun taken => .bind (.lift (storage_repeated lhs)) fun target => .same
  | .binary loc (.arith op) lhs rhs | .binary loc (.compare op) lhs rhs =>
    refine .bind (value_repeats hkept rhs (h.part (by simp [Node.parts]))) fun right => ?_
    refine .bind (value_repeats hkept lhs (h.part (by simp [Node.parts]))) fun left => ?_
    refine .bind .same fun taken => ?_
    exact .promised_bind (.of_eq (isUnsigned_rename lhs)) fun unsigned _ => .same
  | .call loc none args => exact fun _ => .defect
  | .call loc (some callee) args =>
    refine .bind (arguments_repeats hkept [] Reg.arguments args fun arg harg => h.part harg)
      fun loading => ?_
    refine .promised_bind (.of_map (tables.symbols.rename_get callee)) fun symbol hsymbol => ?_
    -- the name in the code is that of the function
    have hname : (symbol.rename f).name = symbol.name := by
      obtain ⟨symbol', hget, hname⟩ := hkept (h.self callee rfl)
      rw [hsymbol] at hget
      cases hget
      exact hname
    rw [hname]
    refine .promised_bind ?_ fun result _ => .same
    exact .bind symbol.type_answersAs fun type => .of_eq (tables.types.rename_resolve type)
  | .cast loc target operand =>
    refine .bind (value_repeats hkept operand (h.part (by simp [Node.parts]))) fun code => ?_
    refine .promised_bind (.of_eq (tables.types.rename_resolve target)) fun goal _ => ?_
    exact .promised_bind (.of_eq (operand.deepType_rename tables)) fun source _ => .same
  | .block .. | .externDecl .. | .functionDef .. | .ifThen .. | .ifElse .. | .whileLoop ..
  | .forLoop .. | .returnVoid .. | .returnValue .. | .typedefDecl .. | .empty _ =>
    exact fun _ => .defect

theorem arguments_repeats (hkept : base.symbols.KeepsNamesOf f tables.symbols)
    (used free : List Reg) (args : List Node) (h : ∀ arg ∈ args, arg.AllValid base) :
    Repeats (arguments tables used free args) (arguments (tables.rename f) used free args) := by
  match args, free with
  | [], _ => exact .same
  | arg :: rest, [] => exact fun _ => .limit
  | arg :: rest, reg :: free =>
    refine .bind .same fun saving => ?_
    refine .bind (value_repeats hkept arg (h arg (by simp))) fun code => ?_
    refine .bind .same fun taken => .bind .same fun restoring => ?_
    refine .bind (arguments_repeats hkept (used ++ [reg]) free rest fun other hother => ?_)
      fun others => .same
    exact h other (by simp [hother])

end

/-! ## Statements -/

section Statements

variable (hkept : base.symbols.KeepsNamesOf f tables.symbols)

include hkept

lemma evaluate_repeats (node : Node) (h : node.AllValid base) :
    Repeats (evaluate tables node) (evaluate (tables.rename f) node) :=
  .bind (value_repeats hkept node h) fun _ => .same

lemma assign_repeats (lhs rhs : Node) (h : rhs.AllValid base) :
    Repeats (assign tables lhs rhs) (assign (tables.rename f) lhs rhs) :=
  .bind (evaluate_repeats hkept rhs h) fun _ => .bind (.lift (storage_repeated lhs)) fun _ => .same

lemma skipUnless_repeats (cond : Node) (target : Nat) (h : cond.AllValid base) :
    Repeats (skipUnless tables cond target) (skipUnless (tables.rename f) cond target) :=
  .bind (.bind (evaluate_repeats hkept cond h) fun _ => .same) fun _ => .same

lemma functionName_answersAs (loc : Location) {symbol? : Option SymbolId}
    (h : ∀ function ∈ symbol?, base.symbols.HasSort .function function) :
    AnswersAs id (functionName tables.symbols loc symbol?)
      (functionName (tables.rename f).symbols loc symbol?) := by
  cases symbol? with
  | none => exact .error
  | some function =>
    obtain ⟨symbol, hget, hname⟩ := hkept (h function rfl)
    have hget' : (tables.rename f).symbols.get function = .ok (symbol.rename f) := by
      rw [show (tables.rename f).symbols = tables.symbols.rename f from rfl,
        SymbolTable.rename_get, hget]
      rfl
    rw [functionName, functionName, hget, hget']
    exact .pure hname

end Statements

mutual

theorem statement_repeats (hkept : base.symbols.KeepsNamesOf f tables.symbols) (next : Nat)
    (node : Node) (h : node.AllValid base) :
    Repeats (statement tables next node) (statement (tables.rename f) next node) := by
  have hpart : ∀ part ∈ node.parts, part.AllValid base := fun part hmem => h.part hmem
  match node with
  | .block loc body => exact statements_repeats hkept next body hpart
  | .binary loc .assign lhs rhs =>
    exact .bind (assign_repeats hkept lhs rhs (hpart rhs (by simp [Node.parts]))) fun _ => .same
  | .ifThen loc cond body =>
    refine .bind (skipUnless_repeats hkept cond next (hpart cond (by simp [Node.parts])))
      fun test => ?_
    exact .bind (statements_repeats hkept (next + 1) body fun part hmem =>
      hpart part (by simp [Node.parts, hmem])) fun _ => .same
  | .ifElse loc cond thenBody elseBody =>
    refine .bind (skipUnless_repeats hkept cond next (hpart cond (by simp [Node.parts])))
      fun test => ?_
    refine .bind (statements_repeats hkept (next + 1) thenBody fun part hmem =>
      hpart part (by simp [Node.parts, hmem])) fun first => ?_
    exact .bind (statements_repeats hkept (first.next + 1) elseBody fun part hmem =>
      hpart part (by simp [Node.parts, hmem])) fun _ => .same
  | .whileLoop loc cond body =>
    refine .bind (skipUnless_repeats hkept cond (next + 1) (hpart cond (by simp [Node.parts])))
      fun test => ?_
    exact .bind (statements_repeats hkept (next + 2) body fun part hmem =>
      hpart part (by simp [Node.parts, hmem])) fun _ => .same
  | .forLoop loc init cond step body =>
    refine .bind (statement_repeats hkept (next + 2) init (hpart init (by simp [Node.parts])))
      fun init => ?_
    refine .bind (skipUnless_repeats hkept cond (next + 1) (hpart cond (by simp [Node.parts])))
      fun test => ?_
    refine .bind (statements_repeats hkept init.next body fun part hmem =>
      hpart part (by simp [Node.parts, hmem])) fun body => ?_
    exact .bind (statement_repeats hkept body.next step (hpart step (by simp [Node.parts])))
      fun _ => .same
  | .returnVoid .. | .varDecl .. | .typedefDecl .. | .empty _ => exact .same
  | .returnValue loc result function =>
    have hresult := hpart result (by simp [Node.parts])
    refine .ite ?_ ?_
    · exact .bind (evaluate_repeats hkept result hresult) fun _ => .same
    · exact .bind (statement_repeats hkept next result hresult) fun _ => .same
  | .externDecl loc symbol? =>
    exact .promised_bind (functionName_answersAs hkept loc h.self) fun _ _ => .same
  | .functionDef .. => exact fun _ => .defect
  | .integer .. | .boolean .. | .varRef .. | .binary _ (.arith _) _ _ | .binary _ (.compare _) _ _
  | .call .. | .cast .. => exact .bind (evaluate_repeats hkept _ h) fun _ => .same

theorem statements_repeats (hkept : base.symbols.KeepsNamesOf f tables.symbols) (next : Nat)
    (nodes : List Node) (h : ∀ node ∈ nodes, node.AllValid base) :
    Repeats (statements tables next nodes) (statements (tables.rename f) next nodes) := by
  match nodes with
  | [] => exact .same
  | node :: rest =>
    refine .bind (statement_repeats hkept next node (h node (by simp))) fun first => ?_
    exact .bind (statements_repeats hkept first.next rest fun other hother =>
      h other (by simp [hother])) fun _ => .same

end

lemma bodyCode_repeats (hkept : base.symbols.KeepsNamesOf f tables.symbols) (next : Nat)
    (nodes : List Node) (h : ∀ node ∈ nodes, node.AllValid base) :
    Repeats (bodyCode tables next nodes) (bodyCode (tables.rename f) next nodes) := by
  induction nodes generalizing next with
  | nil => exact .same
  | cons node rest ih =>
    refine .bind (statement_repeats hkept next node (h node (by simp))) fun first => ?_
    refine .get fun depth => .ite ?_ ?_
    · exact fun _ => .defect
    · exact .bind (ih first.next fun other hother => h other (by simp [hother])) fun _ => .same

/-! ## Functions and programs -/

lemma spill_repeated (loc : Location) (pairs : List (SymbolId × Reg)) :
    Repeated id (spill tables loc pairs) (spill (tables.rename f) loc pairs) := by
  induction pairs with
  | nil => exact .same
  | cons pair rest ih => exact .bind (slot_repeated loc pair.1) fun _ => .bind ih fun _ => .same

lemma Function.code_repeated (hkept : base.symbols.KeepsNamesOf f tables.symbols)
    (function : Function) (frame next : Nat) (h : ∀ node ∈ function.body, node.AllValid base) :
    Repeated id (function.code tables frame next) (function.code (tables.rename f) frame next) := by
  refine .bind (spill_repeated function.location _) fun spills => .bind ?_ fun body => .same
  exact (bodyCode_repeats hkept next function.body h 0).bind fun _ => .same

end Code

variable {base : Tables}

lemma run_renames {kept : SymbolTable → Prop} {x x' : Lowered α} (h : Repeated id x x') :
    Renames f kept id (run x) (run x') := by
  cases h with
  | ok => exact .pure
  | limit => exact .notImplemented
  | defect => exact .defect

lemma place_renames {used : Nat} {symbolId : SymbolId} :
    Renames f (base.symbols.KeepsNamesOf f) id (place used symbolId) (place used symbolId) := by
  refine .get fun ws ws' h => ?_
  have hget : ws'.symbols.get symbolId = Symbol.rename f <$> ws.symbols.get symbolId := by
    rw [h.symbols_eq, SymbolTable.rename_get]
  have hinfo : ∀ type, ws'.types.get type = TypeInfo.rename f <$> ws.types.get type := by
    intro type
    rw [h.types_eq, TypeTable.rename_get]
  refine .bind (.promised (.bind (.of_map hget) fun symbol => symbol.type_answersAs)) fun type => ?_
  refine .bind (.promised (.of_map (hinfo type))) fun info => ?_
  have hplace : ws'.symbols.modify symbolId (·.place ((used + info.size) % wordCount)) =
      SymbolTable.rename f <$>
        ws.symbols.modify symbolId (·.place ((used + info.size) % wordCount)) := by
    rw [h.symbols_eq]
    exact SymbolTable.rename_modify (fun symbol => symbol.rename_place _) _ _
  refine .promised_bind (.of_map hplace) fun symbols hsymbols => ?_
  exact .bind (.set (h.with_symbols rfl (h.symbols.place hsymbols))) fun _ => .pure

lemma placeAll_renames (used : Nat) (symbols : List SymbolId) :
    Renames f (base.symbols.KeepsNamesOf f) id (placeAll used symbols) (placeAll used symbols) := by
  induction symbols generalizing used with
  | nil => exact .pure
  | cons symbol rest ih => exact .bind place_renames fun used => ih used

lemma addFunction_renames (assembly : Assembly) (function : Function)
    (h : ∀ node ∈ function.body, node.AllValid base) :
    Renames f (base.symbols.KeepsNamesOf f) id (addFunction assembly function)
      (addFunction assembly function) := by
  refine .ite Iff.rfl (.bind (run_renames .same) fun _ => ?_) ?_
  all_goals
    refine .bind (placeAll_renames 0 _) fun used => .get fun ws ws' halike => ?_
    rw [halike.tables]
    refine .bind (run_renames (function.code_repeated halike.symbols _ assembly.labels h))
      fun code => ?_
    exact .bind .log fun _ => .pure

lemma addItems_renames (assembly : Assembly) (items : List Node)
    (h : ∀ item ∈ items, item.AllValid base) :
    Renames f (base.symbols.KeepsNamesOf f) id (addItems assembly items)
      (addItems assembly items) := by
  induction items generalizing assembly with
  | nil => exact .pure
  | cons item rest ih =>
    have hitem := h item (by simp)
    have hrest := fun assembly => ih assembly fun other hother => h other (by simp [hother])
    refine .get fun ws ws' halike => ?_
    rw [halike.tables]
    cases item with
    | externDecl loc symbol? =>
      exact .bind (.promised (functionName_answersAs halike.symbols loc hitem.self))
        fun name => hrest _
    | functionDef loc symbol? params body =>
      refine .bind (.promised (functionName_answersAs halike.symbols loc hitem.self.1))
        fun name => ?_
      exact .bind (addFunction_renames assembly ⟨name, loc, params, body, false⟩
        fun node hnode => hitem.part hnode) fun assembly => hrest assembly
    | _ => exact hrest assembly

/-- Generating the code of a program whose names were replaced. -/
theorem generate_renames (program : Program) (h : ∀ item ∈ program.items, item.AllValid base) :
    Renames f (base.symbols.KeepsNamesOf f) id (generate program) (generate program) := by
  refine .bind (addItems_renames {} program.items h) fun assembly => ?_
  have hstatements : ∀ node ∈ program.statements, node.AllValid base :=
    fun node hnode => h node (List.mem_filter.mp hnode).1
  have hfinish : ∀ assembly : Assembly, Renames f (base.symbols.KeepsNamesOf f) id (do
        CompileM.log (.emitted assembly.textLines.length assembly.labels)
        return assembly) (do
        CompileM.log (.emitted assembly.textLines.length assembly.labels)
        return assembly) := fun assembly => .bind .log fun _ => .pure
  refine .ite Iff.rfl (hfinish assembly) ?_
  exact .bind (addFunction_renames assembly ⟨"main", .start, [], program.statements, true⟩
    hstatements) fun assembly => hfinish assembly

end Lowering

end ParenC
