/-
Code generation fails just at the limits of the backend.

There are registers for six parameters and for six arguments, and a register cannot hold a struct.
For a program that was read and checked without findings, nothing else can go wrong, and only few
places are left where a struct could be read: everywhere else a rule has turned it away.
-/
import ParenC.Proofs.Lowering.Feasible
import ParenC.Proofs.Reading.Making

namespace ParenC

open Lowering

/-! ## Accepted programs -/

namespace TypeTable

variable {table : TypeTable} {id : TypeId}

lemma Scalar.not_composite (h : table.Scalar id) : ¬ table.Composite id := by
  rintro ⟨fields, hfields⟩
  obtain ⟨which, hwhich, -⟩ := h
  cases hwhich.unique hfields

lemma Scalar.not_void (h : table.Scalar id) : ¬ table.Deep id (.builtin .void) := by
  intro hvoid
  obtain ⟨which, hwhich, hscalar⟩ := h
  cases hwhich.unique hvoid
  cases hscalar

lemma Sound.not_composite_builtin (sound : table.Sound) (which : Builtin) :
    ¬ table.Composite which.id := by
  rintro ⟨fields, hfields⟩
  rw [(sound.denotes_builtin which).deep_iff] at hfields
  cases hfields

end TypeTable

/-- A variable that is declared somewhere has its declaration there. -/
lemma Node.mem_declaredAll {nodes : List Node} {id : SymbolId} (h : id ∈ declaredAll nodes) :
    ∃ loc, varDecl loc (some id) ∈ checkOrderAll nodes := by
  have hnode : ∀ node : Node, id ∈ node.declared →
      ∃ loc, varDecl loc (some id) ∈ node.checkOrder := by
    intro node
    induction node using Node.induction with
    | step node ih =>
      intro hid
      have hfunction : node.isFunction = false := by
        cases node <;> first | rfl | simp [declared] at hid
      rw [declared_eq hfunction, List.mem_append] at hid
      rcases hid with hid | hid
      · cases node with
        | varDecl loc symbol? =>
          obtain rfl : symbol? = some id := by simpa [declares?] using hid
          exact ⟨loc, self_mem_checkOrder _⟩
        | _ => simp [declares?] at hid
      · rw [declaredAll_eq_flatMap, List.mem_flatMap] at hid
        obtain ⟨part, hpart, hid⟩ := hid
        obtain ⟨loc, hloc⟩ := ih part hpart hid
        exact ⟨loc, mem_checkOrder.mpr (Or.inr (mem_checkOrderAll.mpr ⟨part, hpart, hloc⟩))⟩
  rw [declaredAll_eq_flatMap, List.mem_flatMap] at h
  obtain ⟨node, hmem, hid⟩ := h
  obtain ⟨loc, hloc⟩ := hnode node hid
  exact ⟨loc, mem_checkOrderAll.mpr ⟨node, hmem, hloc⟩⟩

lemma Program.definition?_eq_some {symbols : SymbolTable} {item : Node} {unit : Program.Owned} :
    definition? symbols item = some unit ↔ ∃ loc f params body,
      item = .functionDef loc (some f) params body ∧
      unit = (some f, ⟨symbols.nameOf f, loc, params, body, false⟩) := by
  constructor
  · intro h
    unfold definition? at h
    split at h
    · exact ⟨_, _, _, _, rfl, (Option.some.inj h).symm⟩
    · cases h
  · rintro ⟨loc, f, params, body, rfl, rfl⟩
    rfl

/-- A function that a program defines stands at its top level. -/
lemma Program.mem_definitions {program : Program} {symbols : SymbolTable} {unit : Program.Owned} :
    unit ∈ program.definitions symbols ↔ ∃ loc f params body,
      .functionDef loc (some f) params body ∈ program.items ∧
      unit = (some f, ⟨symbols.nameOf f, loc, params, body, false⟩) := by
  rw [Program.definitions, List.mem_filterMap]
  constructor
  · rintro ⟨item, hitem, hdefinition⟩
    obtain ⟨loc, f, params, body, rfl, rfl⟩ := Program.definition?_eq_some.mp hdefinition
    exact ⟨loc, f, params, body, hitem, rfl⟩
  · rintro ⟨loc, f, params, body, hitem, rfl⟩
    exact ⟨_, hitem, rfl⟩

/-- The program was read and checked without findings, and the tables are those of that time. -/
structure Program.Accepted (program : Program) (tables : Tables) : Prop
    extends program.Analyzed tables where
  /-- Symbols are as they should be. -/
  proper : tables.Proper
  /-- Parameters have the types of the signature. -/
  signatures : ∀ {loc f params body},
    .functionDef loc (some f) params body ∈ Node.checkOrderAll program.items →
    tables.symbols.Takes f params
  /-- No statement of a body is the mention of a variable. -/
  bodies : ∀ node ∈ Node.checkOrderAll program.items, ∀ part ∈ node.body, part.isMention = false
  /-- Nor is one of the top level. -/
  mentions : ∀ item ∈ program.items, item.isMention = false
  /-- Where statements stand at the top level, no function is called `main`. -/
  main : program.hasStatements = true →
    (program.definitions tables.symbols).any (·.2.name = "main") = false

namespace Program.Accepted

variable {program : Program} {tables : Tables} {owner : Option SymbolId} {node : Node}

lemma checked_of_holds (h : program.Accepted tables) (hholds : program.Holds owner node) :
    node.Checked tables owner := by
  induction hholds with
  | top hitem => exact h.checked _ hitem
  | inside hholds hpart ih => exact ih.part hpart

/-- A program that defines `main` has no statements at its top level. -/
lemma statements_eq_nil (h : program.Accepted tables)
    (hmain : (program.definitions tables.symbols).any (·.2.name = "main") = true) :
    program.statements = [] := by
  refine List.filter_eq_nil_iff.mpr fun item hitem hstatement => ?_
  rw [h.main (List.any_eq_true.mpr ⟨item, hitem, hstatement⟩)] at hmain
  cases hmain

/-- Every construct of an accepted program is well-typed. -/
lemma wellTyped (h : program.Accepted tables) (hholds : program.Holds owner node) :
    node.WellTyped tables owner := by
  have hchecked := h.checked_of_holds hholds
  rw [Node.wellTyped_iff_accepted h.complete hchecked.valid hchecked.fits.named]
  exact hchecked.accepted node (Node.self_mem_checkOrder node)

/-- What goes into a function and what comes out of it fits into registers. -/
lemma signature (h : program.Accepted tables) {f : SymbolId} {params : List Param}
    {prototyped : Bool} {result : TypeId} (hf : Node.Signature tables f params prototyped result) :
    (∀ param ∈ params, tables.types.Scalar param.type) ∧
      (result = Builtin.void.id ∨ tables.types.Scalar result) := by
  have hsort : tables.symbols.HasSort .function f := by
    obtain ⟨symbol, external, hget, hkind, -⟩ := hf
    exact ⟨symbol, hget, by rw [hkind]; rfl⟩
  obtain ⟨node, hnode, hfunction⟩ := h.functions f hsort
  obtain ⟨owner, hholds⟩ := Program.exists_holds hnode
  have hfits : Node.SignatureFits tables (some f) := by
    have htyped := h.wellTyped hholds
    cases node with
    | functionDef loc symbol? params body =>
      obtain rfl : symbol? = some f := hfunction
      exact htyped
    | externDecl loc symbol? =>
      obtain rfl : symbol? = some f := hfunction
      exact htyped
    | _ => simp [Node.function?] at hfunction
  obtain ⟨_, params', prototyped', result', ⟨⟩, hf', hparams, hresult⟩ := hfits
  obtain ⟨rfl, -, rfl⟩ := hf.unique hf'
  exact ⟨hparams, hresult⟩

/-- Parameters fit into registers. -/
lemma param (h : program.Accepted tables) {loc : Location} {f id : SymbolId}
    {params : List SymbolId} {body : List Node}
    (hfunction : .functionDef loc (some f) params body ∈ Node.checkOrderAll program.items)
    (hid : id ∈ params) : ∃ symbol type, tables.symbols.entries[id.index]? = some symbol ∧
      symbol.type? = some type ∧ tables.types.Scalar type := by
  obtain ⟨function, signature, prototyped, external, hget, hkind, htyped, htakes⟩ :=
    h.signatures hfunction
  obtain ⟨result, hresult⟩ := Option.ne_none_iff_exists'.mp htyped
  obtain ⟨param, hparam, symbol, hsymbol, htype⟩ := htakes id hid
  have hsignature : Node.Signature tables f signature prototyped result :=
    ⟨function, external, hget, hkind, hresult⟩
  exact ⟨symbol, param.type, hsymbol, htype, (h.signature hsignature).1 param hparam⟩

/-- Variables that are declared have values. -/
lemma declared (h : program.Accepted tables) {id : SymbolId}
    (hid : ∃ loc, .varDecl loc (some id) ∈ Node.checkOrderAll program.items) :
    ∃ symbol type, tables.symbols.entries[id.index]? = some symbol ∧ symbol.type? = some type ∧
      ¬ tables.types.Deep type (.builtin .void) := by
  obtain ⟨loc, hdeclared⟩ := hid
  obtain ⟨owner, hholds⟩ := Program.exists_holds hdeclared
  obtain ⟨_, symbol, type, ⟨⟩, hget, htype, hvoid⟩ := h.wellTyped hholds
  exact ⟨symbol, type, hget, htype, hvoid⟩

/-- The variables of a function have values if all that it lists do. -/
lemma valued_of_locals (h : ∀ id ∈ tables.symbols.locals owner, ∃ symbol type,
      tables.symbols.entries[id.index]? = some symbol ∧ symbol.type? = some type ∧
      ¬ tables.types.Deep type (.builtin .void)) : Valued tables owner := by
  intro id symbol type hvar hget htype
  obtain ⟨symbol', type', hget', htype', hvoid⟩ := h id (SymbolTable.mem_locals.mpr hvar)
  rw [hget] at hget'
  cases hget'
  rw [htype] at htype'
  cases htype'
  exact hvoid

lemma settled_definition (h : program.Accepted tables) {unit : Program.Owned}
    (hunit : unit ∈ program.definitions tables.symbols) : Settled tables unit.1 unit.2 := by
  obtain ⟨loc, f, params, body, hitem, rfl⟩ := Program.mem_definitions.mp hunit
  have hmem : .functionDef loc (some f) params body ∈ Node.checkOrderAll program.items :=
    Node.mem_checkOrderAll.mpr ⟨_, hitem, Node.self_mem_checkOrder _⟩
  refine ⟨compilable_of_definition h.toAnalyzed _ hitem, valued_of_locals ?_, ?_⟩
  · intro id hid
    rw [h.frames hmem, List.mem_append] at hid
    rcases hid with hid | hid
    · obtain ⟨symbol, type, hget, htype, hscalar⟩ := h.param hmem hid
      exact ⟨symbol, type, hget, htype, hscalar.not_void⟩
    · obtain ⟨loc', hloc⟩ := Node.mem_declaredAll hid
      refine h.declared ⟨loc', Node.checkOrderAll_trans hmem ?_⟩
      exact Node.mem_checkOrder.mpr (Or.inr hloc)
  · intro id hid loc'
    obtain ⟨symbol, type, hget, htype, hscalar⟩ := h.param hmem hid
    refine Node.not_isStruct_of_type ?_ hscalar.not_composite
    simp [Node.HasType, Node.type, Node.symbolType, SymbolTable.get_eq_ok_iff.mpr hget, htype, bind,
      Except.bind, pure, Except.pure]

lemma settled_start (h : program.Accepted tables) :
    Settled tables program.start.1 program.start.2 := by
  refine ⟨compilable_of_start h.toAnalyzed, valued_of_locals ?_, by simp [Program.start]⟩
  intro id hid
  rw [show program.start.1 = none from rfl, h.globals] at hid
  exact h.declared (Node.mem_declaredAll hid)

/-- The variables of each function are settled before code is generated. -/
lemma settled (h : program.Accepted tables) :
    ∀ unit ∈ program.functions tables.symbols, Settled tables unit.1 unit.2 := by
  intro unit hunit
  rcases List.mem_append.mp hunit with hunit | hunit
  · exact h.settled_definition hunit
  · split at hunit
    · simp at hunit
    · rw [List.mem_singleton.mp hunit]
      exact h.settled_start

/-! ### Limits in the tree -/

/-- Structs are not assigned to. -/
lemma loadable_target (h : program.Accepted tables) (hholds : program.Holds owner node) :
    ∀ target ∈ node.target?, target.Loadable tables := by
  have hchecked := h.checked_of_holds hholds
  cases node with
  | binary loc op lhs rhs =>
    cases op with
    | assign =>
      rintro target ⟨⟩
      exact (not_isStruct_of_operand h.complete hchecked).1
    | arith | compare => simp [Node.target?]
  | _ => simp [Node.target?]

/-- Functions stand at the top level only. -/
lemma mem_items_of_isFunction (h : program.Accepted tables)
    (hnode : node ∈ Node.checkOrderAll program.items) (hfunction : node.isFunction = true) :
    node ∈ program.items := by
  have signed : Signed tables := signed_of_analyzed h.toAnalyzed
  obtain ⟨item, hitem, hbelow⟩ := Node.mem_checkOrderAll.mp hnode
  rcases Node.mem_checkOrder.mp hbelow with rfl | hbelow
  · exact hitem
  · obtain ⟨part, hpart, hbelow⟩ := Node.mem_checkOrderAll.mp hbelow
    have hchecked := h.checked item hitem
    have hnone := isFunction_of_below h.complete signed (hchecked.part hpart)
      (isFunction_of_part h.complete signed hchecked hpart) node hbelow
    rw [hfunction] at hnone
    cases hnone

/-- No variable is read at the top level. -/
lemma not_isStruct_of_item (h : program.Accepted tables) {item : Node}
    (hitem : item ∈ program.items) (hdeclaration : item.isDeclaration = false) :
    ¬ item.IsStruct tables := by
  refine Node.not_isStruct ?_
  have hmention := h.mentions item hitem
  cases item <;> simp_all [Node.isMention, Node.isDeclaration, Node.isStorage]

lemma feasible_functionDef {loc : Location} {f : Option SymbolId} {params : List SymbolId}
    {body : List Node} : (Node.functionDef loc f params body).Feasible (Node.Loadable tables) ↔
      ∀ part ∈ body, part.Runnable (Node.Loadable tables) := by
  rw [Node.feasible_iff_parts (by simp [Node.target?])]
  simp [Node.arguments, Node.operands, Node.statementParts, Node.target?]

/-- There is code for all functions just if there is for all constructs of the top level and no
function has too many parameters. -/
lemma feasible_iff_items (h : program.Accepted tables) :
    (∀ unit ∈ program.functions tables.symbols, unit.2.Feasible tables) ↔
      (∀ {loc f params body}, .functionDef loc f params body ∈ program.items →
        params.length ≤ Reg.arguments.length) ∧
      ∀ item ∈ program.items, item.Feasible (Node.Loadable tables) := by
  constructor
  · intro hall
    -- each function of the top level is among the functions
    have hfunction : ∀ {loc f params body}, .functionDef loc f params body ∈ program.items →
        params.length ≤ Reg.arguments.length ∧
          ∀ part ∈ body, part.Runnable (Node.Loadable tables) := by
      intro loc f? params body hitem
      obtain ⟨f, rfl⟩ := Option.ne_none_iff_exists'.mp (h.checked _ hitem).fits.named
      exact hall _ (List.mem_append_left _
        (Program.mem_definitions.mpr ⟨loc, f, params, body, hitem, rfl⟩))
    refine ⟨fun hitem => (hfunction hitem).1, fun item hitem => ?_⟩
    by_cases hstatement : item.isStatement = true
    · -- then the start of the program is among the functions
      have hmain := h.main (List.any_eq_true.mpr ⟨item, hitem, hstatement⟩)
      have hstart := hall program.start (List.mem_append_right _ (by simp [hmain]))
      exact (hstart.2 item (List.mem_filter.mpr ⟨hitem, hstatement⟩)).2
    · cases item with
      | functionDef loc f params body => exact feasible_functionDef.mpr (hfunction hitem).2
      | externDecl | typedefDecl =>
        rw [Node.feasible_iff_parts (by simp [Node.target?])]
        simp [Node.arguments, Node.operands, Node.statementParts, Node.target?]
      | _ => simp [Node.isStatement] at hstatement
  · rintro ⟨hparams, hitems⟩ unit hunit
    rcases List.mem_append.mp hunit with hunit | hunit
    · obtain ⟨loc, f, params, body, hitem, rfl⟩ := Program.mem_definitions.mp hunit
      exact ⟨hparams hitem, feasible_functionDef.mp (hitems _ hitem)⟩
    · split at hunit
      · simp at hunit
      · rw [List.mem_singleton.mp hunit]
        refine ⟨by simp [Program.start], fun item hstatement => ?_⟩
        have hitem := (List.mem_filter.mp hstatement).1
        exact ⟨fun hdeclaration _ => h.not_isStruct_of_item hitem hdeclaration, hitems item hitem⟩

end Program.Accepted

/-! ## Where structs are read -/

/-- The value of the node is computed in the program: in a construct, or as a statement of the top
level. -/
inductive Program.Evaluates (program : Program) : Option Node → Node → Prop
  | top {item : Node} (hitem : item ∈ program.items) (hstatement : item.isStatement = true)
      (hdeclaration : item.isDeclaration = false) : Evaluates program none item
  | inside {owner : Option SymbolId} {node part : Node} (hholds : program.Holds owner node)
      (hpart : part ∈ node.evaluated) : Evaluates program (some node) part

/-- The place is an argument of a function that is defined elsewhere and was declared without
parameters, or a mere mention at the start or in the step of a loop. -/
inductive Node.Exposes (symbols : SymbolTable) : Node → Node → Prop
  | argument {loc : Location} {f : SymbolId} {args : List Node} {arg : Node} {symbol : Symbol}
      {params : List Param} (harg : arg ∈ args) (hget : symbols.entries[f.index]? = some symbol)
      (hkind : symbol.kind = .function params false true) :
      Exposes symbols (.call loc (some f) args) arg
  | init {loc : Location} {init cond step : Node} {body : List Node}
      (hmention : init.isMention = true) :
      Exposes symbols (.forLoop loc init cond step body) init
  | step {loc : Location} {init cond step : Node} {body : List Node}
      (hmention : step.isMention = true) :
      Exposes symbols (.forLoop loc init cond step body) step

/-- What stands at such a place is evaluated. -/
lemma Node.Exposes.mem_evaluated {symbols : SymbolTable} {node part : Node}
    (h : node.Exposes symbols part) : part ∈ node.evaluated := by
  have hmentioned : ∀ {part : Node}, part.isMention = true → part.isDeclaration = false := by
    intro part hmention
    cases part <;> simp_all [isMention, isDeclaration]
  cases h with
  | argument harg => exact List.mem_append_left _ harg
  | init hmention | step hmention =>
    refine List.mem_append_right _ (List.mem_filter.mpr ⟨?_, by simp [hmentioned hmention]⟩)
    simp [statementParts]

namespace Program.Accepted

variable {program : Program} {tables : Tables} {owner : Option SymbolId} {node part : Node}

/-- The operands of a construct are no structs, but for those arguments that no rule looks at. -/
lemma operand_cases (h : program.Accepted tables) (hholds : program.Holds owner node)
    (hpart : part ∈ node.operands) :
    ¬ part.IsStruct tables ∨ node.Exposes tables.symbols part := by
  have htyped := h.wellTyped hholds
  have hcond : ∀ {cond : Node}, cond.HasType tables Builtin.bool.id → ¬ cond.IsStruct tables :=
    fun htype => Node.not_isStruct_of_type htype
      (h.complete.sound.types.not_composite_builtin .bool)
  cases node with
  | binary loc op lhs rhs =>
    obtain ⟨hleft, hright⟩ :=
      not_isStruct_of_operand h.complete (h.checked_of_holds hholds)
    refine Or.inl ?_
    cases op <;> simp only [Node.operands, List.mem_cons, List.not_mem_nil, or_false] at hpart <;>
      grind
  | call loc callee? args =>
    obtain ⟨f, params, prototyped, result, rfl, hsignature, hargs⟩ := htyped
    cases prototyped with
    | true =>
      -- the argument has the type of a parameter, which fits into a register
      obtain ⟨type, htype, -⟩ := Node.type_ok h.complete part
        ((h.checked_of_holds hholds).valid.part hpart)
      have hmem := mem_of_mapM_eq_ok (Node.types_eq_ok_iff.mpr hargs) hpart htype
      obtain ⟨param, hparam, rfl⟩ := List.mem_map.mp hmem
      exact Or.inl (Node.not_isStruct_of_type htype
        ((h.signature hsignature).1 param hparam).not_composite)
    | false =>
      obtain ⟨symbol, external, hget, hkind, -⟩ := hsignature
      obtain rfl := (h.proper hget).prototyped hkind
      exact Or.inr (.argument hpart hget hkind)
  | ifThen loc cond body | whileLoop loc cond body =>
    obtain rfl := List.mem_singleton.mp hpart
    exact Or.inl (hcond htyped)
  | ifElse loc cond thenBody elseBody =>
    obtain rfl := List.mem_singleton.mp hpart
    exact Or.inl (hcond htyped)
  | forLoop loc init cond step body =>
    obtain rfl := List.mem_singleton.mp hpart
    exact Or.inl (hcond htyped)
  | cast loc target operand =>
    obtain rfl := List.mem_singleton.mp hpart
    obtain ⟨-, type, htype, hscalar⟩ := htyped
    exact Or.inl (Node.not_isStruct_of_type htype hscalar.not_composite)
  | returnValue loc value function =>
    obtain rfl := List.mem_singleton.mp hpart
    obtain ⟨type, htype, f, params, prototyped, -, hsignature⟩ := htyped
    refine Or.inl (Node.not_isStruct_of_type htype ?_)
    rcases (h.signature hsignature).2 with rfl | hscalar
    · exact h.complete.sound.types.not_composite_builtin .void
    · exact hscalar.not_composite
  | _ => simp [Node.operands] at hpart

/-- A statement that is a struct is the start or the step of a loop. -/
lemma statement_cases (h : program.Accepted tables) (hholds : program.Holds owner node)
    (hpart : part ∈ node.statementParts) (hdeclaration : part.isDeclaration = false) :
    ¬ part.IsStruct tables ∨ node.Exposes tables.symbols part := by
  have hmention : part.isMention = true ∨ part.isStorage = false := by
    cases part <;> simp_all [Node.isMention, Node.isDeclaration, Node.isStorage]
  rcases hmention with hmention | hstorage
  · have hbody := h.bodies node hholds.mem_checkOrderAll part
    rw [hmention] at hbody
    cases node with
    | forLoop loc init cond step body =>
      simp only [Node.statementParts, List.mem_cons] at hpart
      rcases hpart with rfl | rfl | hpart
      · exact Or.inr (.init hmention)
      · exact Or.inr (.step hmention)
      · cases hbody hpart
    -- what is returned is an operand as well
    | returnValue loc value function => exact h.operand_cases hholds hpart
    | block | functionDef | ifThen | ifElse | whileLoop => cases hbody hpart
    | _ => simp [Node.statementParts] at hpart
  · exact Or.inl (Node.not_isStruct hstorage)

/-- The structs that are read are those that stand where no rule looks at them. -/
lemma evaluates_iff_exposes (h : program.Accepted tables) (hstruct : part.IsStruct tables)
    {place : Option Node} : program.Evaluates place part ↔ ∃ owner node, place = some node ∧
      program.Holds owner node ∧ node.Exposes tables.symbols part := by
  constructor
  · intro hevaluates
    cases hevaluates with
    | top hitem hstatement hdeclaration =>
      exact absurd hstruct (h.not_isStruct_of_item hitem hdeclaration)
    | inside hholds hpart =>
      refine ⟨_, _, rfl, hholds, ?_⟩
      rcases List.mem_append.mp hpart with hpart | hpart
      · exact (h.operand_cases hholds hpart).resolve_left (not_not.mpr hstruct)
      · obtain ⟨hpart, hdeclaration⟩ := List.mem_filter.mp hpart
        exact (h.statement_cases hholds hpart (by simpa using hdeclaration)).resolve_left
          (not_not.mpr hstruct)
  · rintro ⟨owner, node, rfl, hholds, hexposes⟩
    exact .inside hholds hexposes.mem_evaluated

end Program.Accepted

/-! ## Programs -/

/-- A phase that ends leaves no finding. -/
lemma endPhase_quiet {phase : Phase} {ws ws' : Workspace}
    (h : CompileM.endPhase phase ws = .ok () ws') : ws'.Quiet := by
  have hquiet : ws.Quiet := (endPhase_does.run h).2.1
  unfold Workspace.Quiet at hquiet ⊢
  simp only [CompileM.endPhase, Journal.endPhase, Journal.hasFindings, bind, EStateM.bind,
    CompileM.get_run, hquiet] at h
  cases h
  exact hquiet

/-- Analysis reads the tokens with fresh tables and finds nothing wrong; checking does not change the
tables. -/
lemma reads_of_analyze {file source : String} {program : Program} {ws : Workspace}
    (h : analyze source (.initial file) = .ok program ws) : ∃ tokens ws₀ ws₁ ws₂,
      CompileM.tokenize source (.initial file) = .ok tokens ws₀ ∧ ws₁.toTables = {} ∧
      Reading.program tokens ws₁ = .ok program ws₂ ∧ ws₂.Quiet ∧
      ws.toTables = ws₂.toTables ∧ ws.Quiet := by
  unfold analyze at h
  obtain ⟨tokens, ws₀, htokens, h⟩ := CompileM.bind_eq_ok.mp h
  obtain ⟨_, _, hget, h⟩ := CompileM.bind_eq_ok.mp h
  cases hget
  obtain ⟨_, ws₁, hlog, h⟩ := CompileM.bind_eq_ok.mp h
  obtain ⟨tree, ws₂, hprogram, h⟩ := CompileM.bind_eq_ok.mp h
  obtain ⟨_, ws₃, hparsed, h⟩ := CompileM.bind_eq_ok.mp h
  obtain ⟨_, ws₄, hchecked, h⟩ := CompileM.bind_eq_ok.mp h
  obtain ⟨_, ws₅, htyped, h⟩ := CompileM.bind_eq_ok.mp h
  obtain ⟨rfl, rfl⟩ := CompileM.pure_eq_ok.mp h
  have hfresh : ws₁.toTables = {} :=
    (Reading.log_does.run hlog).2.1.trans (tokenize_does.run htokens).2
  have sound : ws₁.toTables.Sound := hfresh ▸ Tables.sound_initial
  have hglobal : ws₁.symbols.enclosing = [] := congrArg (·.symbols.enclosing) hfresh
  obtain ⟨hgrows, hread⟩ := (Reading.program_does tokens sound hglobal).run hprogram
  obtain ⟨hquiet, htables₃⟩ := (endPhase_does.run hparsed).2
  -- neither checking nor the end of a phase touches the tables
  have htables : ws₅.toTables = ws₂.toTables := by
    have complete : ws₃.toTables.Complete :=
      htables₃ ▸ Tables.complete_of_read hfresh hgrows hread
    have hvalid : ∀ node ∈ Node.checkOrderAll tree.items, node.AllValid ws₃.toTables := by
      intro node hnode n hn
      rw [htables₃]
      exact hread.valid n (Node.checkOrderAll_trans hnode hn)
    have htables₄ := ((Typing.checkAll_does complete hvalid).run hchecked).2.1
    exact ((endPhase_does.run htyped).2.2.trans htables₄).trans htables₃
  exact ⟨tokens, ws₀, ws₁, ws₂, htokens, hfresh, hprogram, hquiet, htables, endPhase_quiet htyped⟩

/-- A program that analysis lets through is accepted, and no finding is left. -/
lemma Program.Accepted.of_analyze {file source : String} {program : Program} {ws : Workspace}
    (h : analyze source (.initial file) = .ok program ws) :
    program.Accepted ws.toTables ∧ ws.Quiet := by
  have hanalyzed := ((analyze_does file source).run h).2
  obtain ⟨tokens, ws₀, ws₁, ws₂, -, hfresh, hprogram, hquiet₂, htables, hquiet⟩ :=
    reads_of_analyze h
  obtain ⟨hleads, -, hmade, hmentions, hmain⟩ := (Reading.program_records tokens).run hprogram
  obtain ⟨changes, hchanges⟩ := hleads.history
  refine ⟨⟨hanalyzed, ?_, ?_, hmade.bodies, hmentions, ?_⟩, hquiet⟩
  · rw [htables]
    exact hchanges.proper (hfresh ▸ Tables.proper_initial)
  · rw [htables]
    exact hmade.signatures
  · intro hstatements
    rw [List.any_eq_false]
    intro unit hunit
    obtain ⟨loc, f, params, body, hitem, rfl⟩ := Program.mem_definitions.mp hunit
    obtain ⟨symbol, hget, -⟩ := (hanalyzed.checked _ hitem).valid.self.1 f rfl
    have hname := hmain hquiet₂ hstatements _ hitem
    rw [← congrArg Tables.symbols htables] at hname
    simpa [Reading.isEntryPoint, SymbolTable.get_eq_ok_iff.mpr hget, SymbolTable.nameOf, hget,
      bind, Except.bind, pure, Except.pure] using hname

/-- The program asks for more than the backend has: more than six parameters or arguments, or a
struct as a value. -/
def Program.Excessive (program : Program) (tables : Tables) : Prop :=
  (∃ owner loc f params body,
    program.Holds owner (.functionDef loc f params body) ∧ 6 < params.length) ∨
  (∃ owner loc callee args, program.Holds owner (.call loc callee args) ∧ 6 < args.length) ∨
  ∃ place node, program.Evaluates place node ∧ node.IsStruct tables

/-- There is code for all functions unless the program is excessive. -/
lemma Program.Accepted.feasible_iff {program : Program} {tables : Tables}
    (h : program.Accepted tables) :
    (∀ unit ∈ program.functions tables.symbols, unit.2.Feasible tables) ↔
      ¬ program.Excessive tables := by
  rw [h.feasible_iff_items]
  constructor
  · rintro ⟨hparams, hitems⟩
    -- every construct of the program is below one of the top level
    have hlimits : ∀ {owner node}, program.Holds owner node →
        node.WithinLimits (Node.Loadable tables) := by
      intro owner node hholds
      obtain ⟨item, hitem, hnode⟩ := Node.mem_checkOrderAll.mp hholds.mem_checkOrderAll
      exact hitems item hitem node hnode
    rintro (⟨owner, loc, f, params, body, hholds, hmany⟩ |
      ⟨owner, loc, callee, args, hholds, hmany⟩ | ⟨place, node, hevaluates, hstruct⟩)
    · -- a function at any depth stands at the top level in fact
      have hitem := h.mem_items_of_isFunction hholds.mem_checkOrderAll rfl
      exact absurd (hparams hitem) (Nat.not_le_of_lt hmany)
    · exact absurd (hlimits hholds).1 (Nat.not_le_of_lt hmany)
    · cases hevaluates with
      | top hitem hstatement hdeclaration =>
        exact h.not_isStruct_of_item hitem hdeclaration hstruct
      | inside hholds hpart => exact (hlimits hholds).2.1 node hpart hstruct.1 hstruct
  · intro hnot
    refine ⟨fun hitem => Nat.le_of_not_lt fun hmany => hnot ?_, fun item hitem node hnode => ?_⟩
    · exact Or.inl ⟨_, _, _, _, _, .top hitem, hmany⟩
    · obtain ⟨owner, hholds⟩ :=
        Program.exists_holds (Node.mem_checkOrderAll.mpr ⟨item, hitem, hnode⟩)
      refine ⟨Nat.le_of_not_lt fun hmany => hnot ?_, fun part hpart _ hstruct => hnot ?_, ?_⟩
      · cases node with
        | call loc callee args => exact Or.inr (Or.inl ⟨_, _, _, _, hholds, hmany⟩)
        | _ => simp [Node.arguments] at hmany
      · exact Or.inr (Or.inr ⟨_, _, .inside hholds hpart, hstruct⟩)
      · exact h.loadable_target hholds

/-- Generating code for a program that analysis lets through fails for want of an implementation only,
and there are no findings to report with it. -/
lemma Program.Accepted.failure_eq {program : Program} {ws ws' : Workspace} {failure : Failure}
    (h : program.Accepted ws.toTables) (hquiet : ws.Quiet)
    (hfails : generate program ws = .error failure ws') : ∃ loc feature,
      failure = .error (.notImplemented ws.journal.file loc feature []) := by
  have hrun := generate_attempts h.toAnalyzed h.settled
  unfold Attempts at hrun
  rw [hfails, hquiet] at hrun
  exact hrun.2

/-- Generating code for a program that analysis lets through fails just if a function has more than
six parameters, a call has more than six arguments, or a struct is read; and that happens just to
arguments of functions without known parameters, and to variables that are mentioned at the start
or in the step of a loop.  The failure is for want of an implementation, and there are no findings
to report with it. -/
theorem generate_fails_iff {file source : String} {program : Program} {ws : Workspace}
    (h : analyze source (.initial file) = .ok program ws) :
    ((∃ failure ws', generate program ws = .error failure ws') ↔
      program.Excessive ws.toTables) ∧
    (∀ {place part}, part.IsStruct ws.toTables → (program.Evaluates place part ↔
      ∃ owner node, place = some node ∧ program.Holds owner node ∧
        node.Exposes ws.symbols part)) ∧
    ∀ {failure ws'}, generate program ws = .error failure ws' → ∃ loc feature,
      failure = .error (.notImplemented ws.journal.file loc feature []) := by
  obtain ⟨haccepted, hquiet⟩ := Program.Accepted.of_analyze h
  have hrun := generate_attempts haccepted.toAnalyzed haccepted.settled
  rw [haccepted.feasible_iff] at hrun
  unfold Attempts at hrun
  refine ⟨?_, fun hstruct => haccepted.evaluates_iff_exposes hstruct, ?_⟩
  · rcases hgenerate : generate program ws with ⟨assembly, ws'⟩ | ⟨failure, ws'⟩
    · rw [hgenerate] at hrun
      simp [hrun.1]
    · rw [hgenerate] at hrun
      exact iff_of_true ⟨failure, ws', rfl⟩ (not_not.mp hrun.1)
  · exact haccepted.failure_eq hquiet

/-- A struct is handed to a function without known parameters, and stands at the start and in the
step of a loop. -/
theorem generate_fails_iff_struct : ∃ program ws failure ws' loc feature,
    analyze "(typedef t (struct a: u64)) (exfun g) (let t x) (for x true x (g 1 x))"
      (.initial "struct") = .ok program ws ∧
    generate program ws = .error failure ws' ∧ program.Excessive ws.toTables ∧
    failure = .error (.notImplemented ws.journal.file loc feature []) := by
  let source := "(typedef t (struct a: u64)) (exfun g) (let t x) (for x true x (g 1 x))"
  have hruns : (analyze source).Succeeds (.initial "struct") ∧
      ¬ (compile source).Succeeds (.initial "struct") := by
    decide +kernel
  obtain ⟨⟨program, ws, hanalyze⟩, hrefused⟩ := hruns
  obtain ⟨hiff, -, hfailure⟩ := generate_fails_iff hanalyze
  rcases hgenerate : generate program ws with ⟨assembly, ws'⟩ | ⟨failure, ws'⟩
  · exact absurd ⟨assembly, ws', CompileM.bind_eq_ok.mpr ⟨program, ws, hanalyze, hgenerate⟩⟩
      hrefused
  · obtain ⟨loc, feature, hlimit⟩ := hfailure hgenerate
    exact ⟨program, ws, failure, ws', loc, feature, hanalyze, hgenerate,
      hiff.mp ⟨failure, ws', hgenerate⟩, hlimit⟩

end ParenC
