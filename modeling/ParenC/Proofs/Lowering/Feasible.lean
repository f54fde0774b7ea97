/-
For which functions there is code.

The variables of a program that was checked have values, so all but the structs fit into registers.
What stands in the way of code for a function is then said in terms of the program: its parameters,
the calls in its body, and the structs that are read there.  A program has code just if each of its
functions has, and otherwise generating it fails for want of a feature.
-/
import ParenC.Proofs.Lowering.Layout
import ParenC.Proofs.Typing.Judgement

namespace ParenC

/-! ## Structs -/

namespace Node

variable {tables : Tables} {node : Node}

/-- The node stands for a variable that holds a struct. -/
def IsStruct (tables : Tables) (node : Node) : Prop :=
  node.isStorage = true ∧ ∃ type, node.HasType tables type ∧ tables.types.Composite type

/-- The node stands for no struct, so that its value can be loaded. -/
def Loadable (tables : Tables) (node : Node) : Prop := ¬ node.IsStruct tables

/-- What is no variable is no struct. -/
lemma not_isStruct (h : node.isStorage = false) : ¬ node.IsStruct tables := by
  rintro ⟨hstorage, -⟩
  simp [h] at hstorage

/-- A node whose type is no struct. -/
lemma not_isStruct_of_type {type : TypeId} (htype : node.HasType tables type)
    (h : ¬ tables.types.Composite type) : ¬ node.IsStruct tables := by
  rintro ⟨-, type', htype', hcomposite⟩
  rw [HasType, htype] at htype'
  cases htype'
  exact h hcomposite

lemma isStruct_iff {type : TypeId} (h : node.isStorage = true) (htype : node.HasType tables type) :
    node.IsStruct tables ↔ tables.types.Composite type :=
  ⟨fun hstruct => by_contra fun hnot => not_isStruct_of_type htype hnot hstruct,
    fun hcomposite => ⟨h, type, htype, hcomposite⟩⟩

end Node

namespace Lowering

/-! ## Variables -/

variable {tables : Tables} {owner : Option SymbolId}

/-- The variables of a function have types with values. -/
def Valued (tables : Tables) (owner : Option SymbolId) : Prop :=
  ∀ id symbol type, tables.symbols.HasVariable owner id →
    tables.symbols.entries[id.index]? = some symbol → symbol.type? = some type →
    ¬ tables.types.Deep type (.builtin .void)

/-- A value fits into a register unless it is a struct. -/
lemma width_permits (sound : tables.types.Sound) (loc : Location) {type : TypeId}
    (h : tables.types.Has type) (hvalue : ¬ tables.types.Deep type (.builtin .void)) :
    Permits (width tables.types loc type) (¬ tables.types.Composite type) := by
  obtain ⟨root, info, hd⟩ := sound.denotes h
  obtain ⟨text, htext⟩ := sound.describe_ok h
  rw [hd.deep_iff] at hvalue
  simp only [TypeTable.Composite, hd.deep_iff, width, hd.deepShape, htext, promised, bind,
    Except.bind]
  cases hshape : info.shape with
  | definition name target => exact absurd hshape (hd.concrete name target)
  | struct fields =>
    show ¬ ¬ ∃ fields', Shape.struct fields = .struct fields'
    exact not_not.mpr ⟨fields, rfl⟩
  | builtin which =>
    have hscalar : ¬ ∃ fields, Shape.builtin which = .struct fields := by simp
    cases which with
    | void => exact absurd hshape hvalue
    | bool | s64 | u64 => exact hscalar

lemma slot_permits (ready : Ready tables owner) (valued : Valued tables owner) (loc : Location)
    {id : SymbolId} {type : TypeId} (h : tables.symbols.HasVariable owner id)
    (htype : Node.symbolType tables.symbols (some id) = .ok type) :
    Permits (slot tables loc id) (¬ tables.types.Composite type) := by
  obtain ⟨symbol, offset, hget, hoffset⟩ := ready.placed h
  obtain ⟨type', htype?, htype', hhas⟩ := ready.complete.type hget
  have hsymbol := SymbolTable.get_eq_ok_iff.mpr hget
  obtain rfl : type' = type := by
    simpa [Node.symbolType, hsymbol, htype?, bind, Except.bind, pure, Except.pure] using htype
  have hwidth := width_permits ready.complete.sound.types loc hhas
    (valued id symbol type' h hget htype?)
  simp only [slot, hsymbol, hoffset, htype', promised, bind, Except.bind]
  cases hcase : width tables.types loc type' with
  | ok w =>
    rw [hcase] at hwidth
    exact hwidth
  | error obstacle =>
    rw [hcase] at hwidth
    cases obstacle <;> exact hwidth

/-- A variable that has values can be loaded unless it holds a struct. -/
lemma Valued.storing (valued : Valued tables owner) (ready : Ready tables owner) :
    Storing tables owner (Node.Loadable tables) := by
  intro node h hdeclared hstorage
  obtain ⟨type, htype, -⟩ := Node.type_ok ready.complete node h.valid
  have hiff : ¬ tables.types.Composite type ↔ node.Loadable tables :=
    not_congr (Node.isStruct_iff hstorage htype).symm
  cases node with
  | varRef loc symbol? =>
    obtain ⟨id, rfl, hvar⟩ := h.fits.named
    exact (slot_permits ready valued loc hvar htype).congr hiff
  | varDecl loc symbol? =>
    obtain ⟨id, rfl⟩ := Option.ne_none_iff_exists'.mp h.fits.named
    have hvar := hdeclared id (by simp [Node.declared])
    exact (slot_permits ready valued loc hvar htype).congr hiff
  | _ => simp [Node.isStorage] at hstorage

/-- The operands of an operator are no structs. -/
lemma not_isStruct_of_operand (complete : tables.Complete) {loc : Location} {op : BinOp}
    {lhs rhs : Node} (h : (Node.binary loc op lhs rhs).Checked tables owner) :
    ¬ lhs.IsStruct tables ∧ ¬ rhs.IsStruct tables := by
  obtain ⟨type, hleft, hright, -, hstruct, -⟩ := h.rule
  obtain ⟨type', htype', hhas⟩ := Node.type_ok complete lhs (h.valid.part (by simp [Node.parts]))
  rw [hleft] at htype'
  cases htype'
  have hcomposite := (complete.sound.types.isStruct_iff hhas).mp hstruct
  exact ⟨Node.not_isStruct_of_type hleft hcomposite, Node.not_isStruct_of_type hright hcomposite⟩

/-! ## Functions -/

/-- There is code for a function: registers for its parameters, and code for its body. -/
def Function.Feasible (tables : Tables) (function : Function) : Prop :=
  function.params.length ≤ Reg.arguments.length ∧
    ∀ node ∈ function.body, node.Runnable (Node.Loadable tables)

/-- The function can be compiled as far as its variables go: they have values, and its parameters
fit into registers. -/
structure Settled (tables : Tables) (owner : Option SymbolId) (function : Function) : Prop
    extends Compilable tables owner function where
  /-- Variables have values. -/
  valued : Valued tables owner
  /-- Parameters are no structs. -/
  params : ∀ id ∈ function.params, ∀ {loc : Location},
    (Node.varRef loc (some id)).Loadable tables

/-- There is code for a function just if its body can be run. -/
lemma Settled.code_permits {function : Function} (h : Settled tables owner function)
    (ready : Ready tables owner) {frame next : Nat} : Permits (function.code tables frame next)
      (∀ node ∈ function.body, node.Runnable (Node.Loadable tables)) := by
  refine (Lowering.code_permits ready (h.valued.storing ready) h.toCompilable).congr ?_
  exact and_iff_right fun pair hpair => h.params pair.1 (List.of_mem_zip hpair).1

/-! ### Other places -/

namespace Repositioned

variable {tables' : Tables}

lemma loadable_eq (h : Repositioned tables tables') :
    Node.Loadable tables' = Node.Loadable tables := by
  have htype : ∀ node type, Node.HasType tables' node type ↔ node.HasType tables type :=
    fun node type => ⟨Node.type_congr h.alike.symm node, Node.type_congr h.alike node⟩
  funext node
  simp only [Node.Loadable, Node.IsStruct, htype, h.types]

/-- Whether there is code for a function does not depend on places. -/
lemma feasible_iff (h : Repositioned tables tables') {function : Function} :
    function.Feasible tables' ↔ function.Feasible tables := by
  rw [Function.Feasible, h.loadable_eq, Function.Feasible]

lemma settled (h : Repositioned tables tables') {function : Function}
    (hfunction : Settled tables owner function) : Settled tables' owner function where
  toCompilable := h.compilable hfunction.toCompilable
  valued := by
    intro id symbol' type hvar hget' htype
    obtain ⟨symbol, hget, heq⟩ := h.alike.symm.entry hget'
    rw [h.types]
    refine hfunction.valued id symbol type ?_ hget (by rw [← Symbol.type?_eq heq]; exact htype)
    have hmem := SymbolTable.mem_locals.mpr hvar
    rw [← h.alike.locals] at hmem
    exact SymbolTable.mem_locals.mp hmem
  params := by
    rw [h.loadable_eq]
    exact hfunction.params

end Repositioned

/-! ## Runs that fail on a limit -/

/-- Run on `ws`, the action succeeds just if it is `possible`, keeps the findings, and establishes
`post`; otherwise it fails on a feature that the backend lacks. -/
def Attempts {α : Type} (act : CompileM α) (ws : Workspace) (possible : Prop)
    (post : α → Workspace → Prop) : Prop :=
  match act ws with
  | .ok a ws' => possible ∧ (ws'.journal.file = ws.journal.file ∧
    ws'.journal.diagnostics = ws.journal.diagnostics) ∧ post a ws'
  | .error failure _ => ¬ possible ∧ ∃ loc feature, failure =
    .error (.notImplemented ws.journal.file loc feature ws.journal.diagnostics.toList)

namespace Attempts

variable {α β : Type} {ws ws' : Workspace} {act : CompileM α} {next : α → CompileM β}
  {possible possible' : Prop} {post : α → Workspace → Prop} {post' : β → Workspace → Prop}

lemma of_ok {a : α} (hrun : act ws = .ok a ws')
    (hjournal : ws'.journal.file = ws.journal.file ∧
      ws'.journal.diagnostics = ws.journal.diagnostics) (hpost : post a ws') :
    Attempts act ws True post := by
  rw [Attempts, hrun]
  exact ⟨trivial, hjournal, hpost⟩

lemma congr (h : Attempts act ws possible post) (hiff : possible ↔ possible') :
    Attempts act ws possible' post := by
  rwa [← propext hiff]

lemma bind (h : Attempts act ws possible post)
    (hnext : ∀ a ws', act ws = .ok a ws' → post a ws' → Attempts (next a) ws' possible' post') :
    Attempts (act >>= next) ws (possible ∧ possible') post' := by
  unfold Attempts at h ⊢
  simp only [Bind.bind, EStateM.bind]
  rcases hact : act ws with ⟨a, ws₁⟩ | ⟨failure, ws₁⟩
  · rw [hact] at h
    obtain ⟨hpossible, ⟨hfile, hdiagnostics⟩, hpost⟩ := h
    have h' := hnext a ws₁ hact hpost
    unfold Attempts at h'
    rcases hrun : next a ws₁ with ⟨b, ws₂⟩ | ⟨failure, ws₂⟩
    · rw [hrun] at h'
      obtain ⟨hpossible', ⟨hfile', hdiagnostics'⟩, hpost'⟩ := h'
      simp only [hrun]
      exact ⟨⟨hpossible, hpossible'⟩, ⟨hfile'.trans hfile, hdiagnostics'.trans hdiagnostics⟩,
        hpost'⟩
    · rw [hrun, hfile, hdiagnostics] at h'
      simp only [hrun]
      exact ⟨fun hboth => h'.1 hboth.2, h'.2⟩
  · rw [hact] at h
    exact ⟨fun hboth => h.1 hboth.1, h.2⟩

/-- Going on after a run that is known. -/
lemma ok_bind {a : α} (hrun : act ws = .ok a ws')
    (hjournal : ws'.journal = ws.journal) (h : Attempts (next a) ws' possible post') :
    Attempts (act >>= next) ws possible post' := by
  have hfirst : Attempts act ws True fun a' ws'' => a' = a ∧ ws'' = ws' :=
    .of_ok hrun ⟨congrArg Journal.file hjournal, congrArg Journal.diagnostics hjournal⟩ ⟨rfl, rfl⟩
  have hboth : Attempts (act >>= next) ws (True ∧ possible) post' := by
    refine hfirst.bind ?_
    rintro _ _ - ⟨rfl, rfl⟩
    exact h
  exact hboth.congr (by simp)

lemma get {next : Workspace → CompileM β} (h : Attempts (next ws) ws possible post') :
    Attempts (MonadState.get >>= next) ws possible post' := h

lemma promised_bind {x : Except Defect α} {a : α} (hx : x = .ok a)
    (h : Attempts (next a) ws possible post') :
    Attempts (CompileM.promised x >>= next) ws possible post' := by
  rw [hx]
  exact h

/-- Going on with code, if there is some. -/
lemma run {x : Lowered α} (h : Permits x possible) :
    Attempts (Lowering.run x) ws possible fun a ws' => x = .ok a ∧ ws' = ws := by
  cases x with
  | ok a => exact ⟨h, ⟨rfl, rfl⟩, rfl, rfl⟩
  | error obstacle =>
    cases obstacle with
    | limit loc limit => exact ⟨h, loc, limit.feature, rfl⟩
    | defect defect => exact h.elim

end Attempts

/-! ## Programs -/

variable {program : Program} {ws : Workspace}

lemma addFunction_attempts (assembly : Assembly) {function : Function}
    (complete : ws.toTables.Complete) (signed : Signed ws.toTables)
    (h : Settled ws.toTables owner function) :
    Attempts (addFunction assembly function) ws (function.Feasible ws.toTables)
      fun _ ws' => Repositioned ws.toTables ws'.toTables := by
  obtain ⟨used, symbols, hrun, hsame, hready, -⟩ := placeAll_ready complete signed h.toCompilable
  have hcode : ∀ {frame : Nat}, Permits (function.code ⟨ws.types, symbols⟩ frame assembly.labels)
      (∀ node ∈ function.body, node.Runnable (Node.Loadable ⟨ws.types, symbols⟩)) :=
    (hsame.settled h).code_permits hready
  rw [← propext hsame.feasible_iff]
  unfold addFunction
  by_cases hmany : function.params.length > Reg.arguments.length
  · rw [if_pos hmany]
    exact ⟨fun hfeasible => absurd hfeasible.1 (Nat.not_le_of_lt hmany), _, _, rfl⟩
  · rw [if_neg hmany]
    have hiff : (∀ node ∈ function.body, node.Runnable (Node.Loadable ⟨ws.types, symbols⟩)) ∧
        True ↔ function.Feasible ⟨ws.types, symbols⟩ := by
      simp only [Function.Feasible, Nat.le_of_not_lt hmany, true_and, and_true]
    rw [← propext hiff]
    refine .ok_bind hrun rfl (.get ((Attempts.run hcode).bind ?_))
    rintro code _ - ⟨-, rfl⟩
    exact .of_ok rfl ⟨rfl, rfl⟩ hsame

lemma addItems_attempts (h : program.Analyzed tables)
    (hsettled : ∀ unit ∈ program.definitions tables.symbols, Settled tables unit.1 unit.2)
    {assembly : Assembly} {items : List Node} (hitems : ∀ item ∈ items, item ∈ program.items)
    (hsame : Repositioned tables ws.toTables) :
    Attempts (addItems assembly items) ws
      (∀ unit ∈ items.filterMap (Program.definition? tables.symbols), unit.2.Feasible tables)
      fun _ ws' => Repositioned tables ws'.toTables := by
  induction items generalizing ws assembly with
  | nil => exact Attempts.congr (.of_ok rfl ⟨rfl, rfl⟩ hsame) (by simp)
  | cons item rest ih =>
    have hrest : ∀ item ∈ rest, item ∈ program.items := fun n hn => hitems n (by simp [hn])
    have hchecked := h.checked item (hitems item (by simp))
    -- Items other than functions need no code.
    have hskip : ∀ assembly' : Assembly, Program.definition? tables.symbols item = none →
        Attempts (addItems assembly' rest) ws
          (∀ unit ∈ (item :: rest).filterMap (Program.definition? tables.symbols),
            unit.2.Feasible tables) fun _ ws' => Repositioned tables ws'.toTables := by
      intro assembly' hnone
      rw [List.filterMap_cons_none hnone]
      exact ih hrest hsame
    unfold addItems
    refine .get ?_
    cases item with
    | externDecl loc symbol? =>
      obtain ⟨id, rfl⟩ := Option.ne_none_iff_exists'.mp hchecked.fits.named
      refine .promised_bind (hsame.functionName (hchecked.valid.self id rfl)) ?_
      exact hskip _ rfl
    | functionDef loc symbol? params body =>
      obtain ⟨f, rfl⟩ := Option.ne_none_iff_exists'.mp hchecked.fits.named
      refine .promised_bind (hsame.functionName (hchecked.valid.self.1 f rfl)) ?_
      have hunit := hsettled _ (List.mem_filterMap.mpr
        ⟨.functionDef loc (some f) params body, hitems _ (by simp), rfl⟩)
      have hfirst := addFunction_attempts assembly (hsame.complete h.complete)
        (hsame.signed (signed_of_analyzed h)) (hsame.settled hunit)
      refine (hfirst.bind fun assembly₁ ws₁ _ hsame₁ => ih hrest (hsame.trans hsame₁)).congr ?_
      rw [hsame.feasible_iff]
      simp only [List.filterMap_cons, Program.definition?, List.forall_mem_cons]
    | _ => exact hskip assembly rfl

/-- There is code for a program just if there is for each of its functions. -/
theorem generate_attempts (h : program.Analyzed ws.toTables)
    (hsettled : ∀ unit ∈ program.functions ws.symbols, Settled ws.toTables unit.1 unit.2) :
    Attempts (generate program) ws
      (∀ unit ∈ program.functions ws.symbols, unit.2.Feasible ws.toTables) fun _ _ => True := by
  have hdefinitions : ∀ unit ∈ program.definitions ws.symbols, Settled ws.toTables unit.1 unit.2 :=
    fun unit hunit => hsettled unit (List.mem_append_left _ hunit)
  have hiff : ((∀ unit ∈ program.definitions ws.symbols, unit.2.Feasible ws.toTables) ∧
      ((program.definitions ws.symbols).any (·.2.name = "main") = false →
        program.start.2.Feasible ws.toTables)) ↔
      ∀ unit ∈ program.functions ws.symbols, unit.2.Feasible ws.toTables := by
    rw [Program.functions, List.forall_mem_append]
    cases hmain : (program.definitions ws.symbols).any (·.2.name = "main") <;> simp
  rw [← propext hiff]
  refine (addItems_attempts h hdefinitions (fun _ hitem => hitem) (.refl _)).bind ?_
  intro assembly ws₁ hrun hsame
  obtain ⟨-, routines, hroutines, hall⟩ :=
    (addItems_safe h (fun _ hitem => hitem) (.refl _)).run hrun
  -- whether a start has to be added is the same question of the routines and of the functions
  have hmain : assembly.routines.any (·.name = "main") =
      (program.definitions ws.symbols).any (·.2.name = "main") := by
    rw [hroutines, List.nil_append]
    exact any_name_eq hall "main"
  have hfinish : ∀ (assembly' : Assembly) (ws' : Workspace), Attempts (do
      CompileM.log (.emitted assembly'.textLines.length assembly'.labels)
      return assembly') ws' True fun _ _ => True :=
    fun _ _ => .of_ok rfl ⟨rfl, rfl⟩ trivial
  by_cases hany : assembly.routines.any (·.name = "main") = true
  · rw [if_pos hany]
    rw [hmain] at hany
    exact (hfinish assembly ws₁).congr (by simp [hany])
  · rw [if_neg hany]
    rw [hmain, Bool.not_eq_true] at hany
    have hstart := hsettled program.start (List.mem_append_right _ (by simp [hany]))
    have hadd := addFunction_attempts assembly (hsame.complete h.complete)
      (hsame.signed (signed_of_analyzed h)) (hsame.settled hstart)
    refine (hadd.bind fun assembly₁ ws₂ _ _ => hfinish assembly₁ ws₂).congr ?_
    simp [hsame.feasible_iff, hany]

end Lowering

end ParenC
