/-
Generating code again.

Generating code gives every variable its place in the symbol table, and it finds there whatever
places an earlier run has left.  It makes no difference: a function has its variables placed before
its code looks at them, and its code looks at no others.  So every run comes to the same end, with
the same assembly or for want of the same feature, and runs that succeed leave the same tables,
because every variable is one of a function for which there is code.  A run that fails may have
placed some of the variables; like every other one it changes nothing else.
-/
import ParenC.Proofs.Lowering.Linking
import ParenC.Proofs.Lowering.Locality
import ParenC.Proofs.Reading.Introduction

namespace ParenC

open CompileM Lowering

/-! ## What code generation changes -/

/-- The workspaces differ at most in the places of variables and in the log. -/
structure Workspace.Repositioned (ws ws' : Workspace) : Prop
    extends Lowering.Repositioned ws.toTables ws'.toTables where
  /-- The file is the same. -/
  file : ws'.journal.file = ws.journal.file
  /-- The findings stay. -/
  diagnostics : ws'.journal.diagnostics = ws.journal.diagnostics

namespace Workspace.Repositioned

variable {ws ws₁ ws₂ : Workspace}

lemma refl (ws : Workspace) : ws.Repositioned ws := ⟨.refl _, rfl, rfl⟩

lemma symm (h : ws.Repositioned ws₁) : ws₁.Repositioned ws :=
  ⟨h.toRepositioned.symm, h.file.symm, h.diagnostics.symm⟩

lemma trans (h₁ : ws.Repositioned ws₁) (h₂ : ws₁.Repositioned ws₂) : ws.Repositioned ws₂ :=
  ⟨h₁.toRepositioned.trans h₂.toRepositioned, h₂.file.trans h₁.file,
    h₂.diagnostics.trans h₁.diagnostics⟩

end Workspace.Repositioned

/-- A variable may be placed anew. -/
lemma SymbolTable.modify_place {symbols symbols' : SymbolTable} {id : SymbolId} {offset : Nat}
    (h : symbols.modify id (·.place offset) = .ok symbols') :
    symbols.Alike symbols' ∧ symbols'.scopes = symbols.scopes := by
  unfold modify at h
  cases hget : symbols.get id with
  | error defect =>
    rw [hget] at h
    cases h
  | ok symbol =>
    rw [hget] at h
    cases h
    exact ⟨(alike_replace (get_eq_ok_iff.mp hget) (Symbol.unplaced_place symbol offset)).symm, rfl⟩

namespace Lowering

variable {ws ws' : Workspace} {α β : Type}

/-- Run on `ws`, the action changes at most places and the log, be it that it succeeds or fails. -/
def Rearranges (act : CompileM α) (ws : Workspace) : Prop := ws.Repositioned (act.leaves ws)

namespace Rearranges

lemma pure {a : α} : Rearranges (Pure.pure a) ws := .refl ws

lemma bind {act : CompileM α} {next : α → CompileM β} (h : Rearranges act ws)
    (hnext : ∀ a ws', Rearranges (next a) ws') : Rearranges (act >>= next) ws := by
  unfold Rearranges leaves at h ⊢
  simp only [Bind.bind, EStateM.bind]
  rcases hact : act ws with ⟨a, ws'⟩ | ⟨failure, ws'⟩
  · rw [hact] at h
    exact h.trans (hnext a ws')
  · rw [hact] at h
    exact h

lemma get {next : Workspace → CompileM β} (h : Rearranges (next ws) ws) :
    Rearranges (MonadState.get >>= next) ws := h

/-- What follows may rely on what the promised value is. -/
lemma promised {x : Except Defect α} {next : α → CompileM β}
    (hnext : ∀ a, x = .ok a → Rearranges (next a) ws) :
    Rearranges (CompileM.promised x >>= next) ws := by
  cases x with
  | error defect => exact .refl ws
  | ok a => exact hnext a rfl

lemma log {event : ParenC.Event} : Rearranges (CompileM.log event) ws := ⟨.refl _, rfl, rfl⟩

lemma run {x : Lowered α} : Rearranges (run x) ws := by
  rcases x with (⟨loc, limit⟩ | defect) | a <;> exact .refl ws

/-- If an action comes to the same on two workspaces, and so does what follows, on workspaces that
differ as little, then both together come to the same. -/
lemma outcome_bind {act : CompileM α} {next : α → CompileM β} (h : ∀ ws, Rearranges act ws)
    (hsame : ws.Repositioned ws') (hact : act.outcome ws' = act.outcome ws)
    (hnext : ∀ a ws₁ ws₁', ws.Repositioned ws₁ → ws₁.Repositioned ws₁' →
      (next a).outcome ws₁' = (next a).outcome ws₁) :
    (act >>= next).outcome ws' = (act >>= next).outcome ws := by
  refine outcome_bind_congr hact fun a ws₁ ws₁' hrun hrun' => ?_
  have hfirst : ws.Repositioned ws₁ := by simpa [Rearranges, leaves, hrun] using h ws
  have hsecond : ws'.Repositioned ws₁' := by simpa [Rearranges, leaves, hrun'] using h ws'
  exact hnext a ws₁ ws₁' hfirst ((hfirst.symm.trans hsame).trans hsecond)

end Rearranges

lemma place_rearranges (used : Nat) (id : SymbolId) : Rearranges (place used id) ws := by
  refine .get (.promised fun type _ => .promised fun info _ => .promised fun symbols hsymbols => ?_)
  obtain ⟨halike, hscopes⟩ := SymbolTable.modify_place hsymbols
  exact ⟨⟨rfl, halike, hscopes⟩, rfl, rfl⟩

lemma placeAll_rearranges (used : Nat) (ids : List SymbolId) :
    Rearranges (placeAll used ids) ws := by
  induction ids generalizing used ws with
  | nil => exact .pure
  | cons id rest ih => exact (place_rearranges used id).bind fun used _ => ih used

lemma addFunction_rearranges (assembly : Assembly) (function : Function) :
    Rearranges (addFunction assembly function) ws := by
  unfold addFunction
  split
  all_goals
    try refine Rearranges.run.bind fun _ ws' => ?_
    refine (placeAll_rearranges 0 _).bind fun used ws' => .get ?_
    exact Rearranges.run.bind fun code ws' => Rearranges.log.bind fun _ ws' => .pure

lemma addItems_rearranges (assembly : Assembly) (items : List Node) :
    Rearranges (addItems assembly items) ws := by
  induction items generalizing assembly ws with
  | nil => exact .pure
  | cons item rest ih =>
    unfold addItems
    refine .get ?_
    cases item with
    | externDecl loc symbol? => exact .promised fun name _ => ih _
    | functionDef loc symbol? params body =>
      exact .promised fun name _ => (addFunction_rearranges assembly _).bind fun assembly _ => ih assembly
    | _ => exact ih assembly

/-- Generating code changes nothing in the tables but the places of variables, whatever the program
and the tables are, and be it that there is code or not. -/
theorem generate_rearranges (program : Program) (ws : Workspace) :
    Rearranges (generate program) ws := by
  refine (addItems_rearranges {} program.items).bind fun assembly ws' => ?_
  have hfinish : ∀ (assembly : Assembly) (ws : Workspace), Rearranges (do
      CompileM.log (.emitted assembly.textLines.length assembly.labels)
      return assembly) ws := fun assembly ws => Rearranges.log.bind fun _ _ => .pure
  split
  · exact hfinish assembly ws'
  · exact (addFunction_rearranges assembly _).bind hfinish

/-! ## The same code -/

variable {tables : Tables} {owner : Option SymbolId} {program : Program}

lemma Repositioned.analyzed {tables' : Tables} (h : Repositioned tables tables')
    (hprogram : program.Analyzed tables) : program.Analyzed tables' where
  complete := h.complete hprogram.complete
  checked item hitem := by
    rw [h.eq]
    exact (hprogram.checked item hitem).congr h.alike
  functions f hf := hprogram.functions f (h.alike.symm.hasSort hf)
  globals := (h.alike.locals none).symm.trans hprogram.globals
  frames hitem := (h.alike.locals _).symm.trans (hprogram.frames hitem)

/-- When the frame of a function is laid out, it does not matter what places there were before. -/
lemma sharesFrame_of_laid {tables' : Tables} (hsame : Repositioned tables tables') {used used' : Nat}
    (hlaid : tables.Laid 0 (tables.symbols.locals owner) used)
    (hlaid' : tables'.Laid 0 (tables'.symbols.locals owner) used') :
    used' = used ∧ SharesFrame owner tables tables' := by
  have hlocals := hsame.alike.locals owner
  have hsizes : tables'.sizeOf = tables.sizeOf := funext (Tables.sizeOf_congr hsame)
  rw [← hlocals] at hlaid'
  refine ⟨?_, hsame.types, hsame.alike, ?_⟩
  · rw [hlaid.stop_eq, hlaid'.stop_eq, hsizes]
  · intro id hid
    obtain ⟨i, hget⟩ := List.mem_iff_getElem?.mp (SymbolTable.mem_locals.mpr hid)
    exact (hlaid.lies hget).symbol_eq hsame.alike (hsizes ▸ hlaid'.lies hget)

lemma run_outcome {x : Lowered α} (h : ws.Repositioned ws') :
    (run x).outcome ws' = (run x).outcome ws := by
  rcases x with (⟨loc, limit⟩ | defect) | a
  · show Except.error (Failure.error (ws'.journal.notImplemented loc limit.feature)) =
      .error (.error (ws.journal.notImplemented loc limit.feature))
    rw [Journal.notImplemented, h.file, h.diagnostics]
    rfl
  · rfl
  · rfl

/-- Adding a function comes to the same wherever its variables lie before. -/
lemma addFunction_outcome (assembly : Assembly) {function : Function}
    (complete : ws.toTables.Complete) (signed : Signed ws.toTables)
    (h : Compilable ws.toTables owner function) (hsame : ws.Repositioned ws') :
    (addFunction assembly function).outcome ws' = (addFunction assembly function).outcome ws := by
  have h' : Compilable ws'.toTables owner function := hsame.compilable h
  obtain ⟨used, symbols, hrun, hplaced, -, hlaid⟩ := placeAll_ready complete signed h
  obtain ⟨used', symbols', hrun', hplaced', -, hlaid'⟩ :=
    placeAll_ready (hsame.complete complete) (hsame.signed signed) h'
  have hboth : Repositioned ⟨ws.types, symbols⟩ ⟨ws'.types, symbols'⟩ :=
    (hplaced.symm.trans hsame.toRepositioned).trans hplaced'
  have hcompilable := hplaced.compilable h
  rw [← hcompilable.locals] at hlaid
  rw [← (hplaced'.compilable h').locals] at hlaid'
  obtain ⟨rfl, hshares⟩ := sharesFrame_of_laid hboth hlaid hlaid'
  unfold addFunction
  by_cases hmany : function.params.length > Reg.arguments.length
  · rw [if_pos hmany]
    exact outcome_bind_congr (run_outcome hsame) fun _ _ _ hrun _ => by cases hrun
  · rw [if_neg hmany]
    refine (outcome_ok_bind hrun').trans (Eq.trans ?_ (outcome_ok_bind hrun).symm)
    refine (outcome_get_bind _ _).trans (Eq.trans ?_ (outcome_get_bind _ _).symm)
    -- what is left looks at the tables in which the frame is laid out
    rw [Function.code_local hshares hcompilable]
    exact outcome_bind_congr (run_outcome ⟨hboth, hsame.file, hsame.diagnostics⟩)
      fun code _ _ _ _ => rfl

/-- Adding items comes to the same, by induction on the items. -/
lemma addItems_outcome (h : program.Analyzed tables) (assembly : Assembly) {items : List Node}
    (hitems : ∀ item ∈ items, item ∈ program.items) (hbase : Repositioned tables ws.toTables)
    (hsame : ws.Repositioned ws') :
    (addItems assembly items).outcome ws' = (addItems assembly items).outcome ws := by
  induction items generalizing assembly ws ws' with
  | nil => rfl
  | cons item rest ih =>
    have hrest : ∀ item ∈ rest, item ∈ program.items := fun n hn => hitems n (by simp [hn])
    -- an item without a frame leaves both tables alone
    have hskip := fun assembly => ih assembly hrest hbase hsame
    unfold addItems
    refine (outcome_get_bind _ _).trans (Eq.trans ?_ (outcome_get_bind _ _).symm)
    cases item with
    | externDecl loc symbol? =>
      dsimp only
      rw [functionName_alike hsame.alike]
      cases functionName ws.symbols loc symbol? with
      | error defect => rfl
      | ok name => exact hskip _
    | functionDef loc symbol? params body =>
      dsimp only
      rw [functionName_alike hsame.alike]
      have hitem := hitems (.functionDef loc symbol? params body) (by simp)
      obtain ⟨f, rfl⟩ := Option.ne_none_iff_exists'.mp (h.checked _ hitem).fits.named
      cases functionName ws.symbols loc (some f) with
      | error defect => rfl
      | ok name =>
        let function : Function := ⟨name, loc, params, body, false⟩
        show (addFunction assembly function >>= (addItems · rest)).outcome ws' =
          (addFunction assembly function >>= (addItems · rest)).outcome ws
        refine Rearranges.outcome_bind (fun _ => addFunction_rearranges assembly _) hsame ?_ ?_
        · exact addFunction_outcome assembly (hbase.complete h.complete)
            (hbase.signed (signed_of_analyzed h))
            (hbase.compilable (compilable_of_definition h name hitem)) hsame
        · intro assembly ws₁ ws₁' hfirst hsecond
          exact ih assembly hrest (hbase.trans hfirst.toRepositioned) hsecond
    | _ => exact hskip assembly

/-- Generating code comes to the same wherever variables lie before. -/
theorem generate_outcome (h : program.Analyzed ws.toTables) (hsame : ws.Repositioned ws') :
    (generate program).outcome ws' = (generate program).outcome ws := by
  refine Rearranges.outcome_bind (fun _ => addItems_rearranges {} program.items) hsame
    (addItems_outcome h {} (fun _ hitem => hitem) (.refl _) hsame) ?_
  intro assembly ws₁ ws₁' hfirst hsecond
  by_cases hmain : assembly.routines.any (·.name = "main") = true
  · rw [if_pos hmain]
    rfl
  · rw [if_neg hmain]
    refine Rearranges.outcome_bind (fun _ => addFunction_rearranges assembly _) hsecond ?_
      fun assembly _ _ _ _ => rfl
    exact addFunction_outcome assembly (hfirst.complete h.complete)
      (hfirst.signed (signed_of_analyzed h)) (hfirst.compilable (compilable_of_start h)) hsecond

/-! ## The same tables -/

/-- Tables in which the frames of all variables are laid out are the same if they differ at most in
places. -/
lemma Repositioned.eq_of_frames {tables' : Tables} (hsame : Repositioned tables tables')
    (hframes : ∀ id, tables.symbols.HasSort .localVar id → ∃ owner,
      tables.symbols.HasVariable owner id ∧ tables.HasFrame owner ∧ tables'.HasFrame owner) :
    tables' = tables := by
  have hentries : tables'.symbols.entries = tables.symbols.entries := by
    refine Array.ext_getElem? fun i => ?_
    cases hget : tables.symbols.entries[i]? with
    | none =>
      have halike := hsame.alike i
      rw [hget, Option.map_none, eq_comm, Option.map_eq_none_iff] at halike
      exact halike
    | some symbol =>
      by_cases hsort : symbol.kind.sort = .localVar
      · obtain ⟨owner, hvariable, ⟨used, hlaid⟩, ⟨used', hlaid'⟩⟩ := hframes ⟨i⟩ ⟨symbol, hget, hsort⟩
        exact ((sharesFrame_of_laid hsame hlaid hlaid').2.own hvariable).trans hget
      · obtain ⟨symbol', hget', heq⟩ := hsame.alike.entry hget
        have hsort' : symbol'.kind.sort ≠ .localVar := Symbol.sort_eq heq ▸ hsort
        rw [hget', ← Symbol.unplaced_of_sort_ne hsort', ← heq, Symbol.unplaced_of_sort_ne hsort]
  obtain ⟨hscope, henclosing⟩ := List.cons.inj hsame.scopes
  rcases tables with ⟨types, ⟨entries, scope, enclosing⟩⟩
  rcases tables' with ⟨types', ⟨entries', scope', enclosing'⟩⟩
  simp only [Tables.mk.injEq, SymbolTable.mk.injEq]
  exact ⟨hsame.types, hentries, hscope, henclosing⟩

end Lowering

namespace Program

variable {program : Program} {file source : String} {ws : Workspace} {tables : Tables}
  {owner : Option SymbolId} {node : Node}

/-- Functions keep their names when variables are placed. -/
lemma functions_congr {symbols symbols' : SymbolTable} (h : symbols.Alike symbols') :
    program.functions symbols' = program.functions symbols := by
  have hdefinition : definition? symbols' = definition? symbols := by
    funext item
    unfold definition?
    split
    · rw [h.nameOf]
    · rfl
  rw [functions, functions, definitions, definitions, hdefinition]

/-- Every symbol is introduced by a node. -/
lemma mem_introducedAll (h : analyze source (.initial file) = .ok program ws) {id : SymbolId}
    (hid : id.index < ws.symbols.size) : id ∈ Node.introducedAll program.items := by
  obtain ⟨body, loc, ws₀, ws₁, ws₂, -, hfresh, -, htables, hafter, hwrites⟩ := writes_of_analyze h
  have hdeclared := (hwrites.walk hafter).declared.2
  have hstart : (Reading.scoping ws₁).count = 0 := by
    simp only [Reading.scoping, congrArg Tables.symbols hfresh]
    rfl
  have hend : (Reading.scoping ws₂).count = ws.symbols.size := by
    rw [congrArg Tables.symbols htables]
    rfl
  rw [hstart, hend] at hdeclared
  refine (Node.declarations_marksAll ws.toTables program.items).subset ?_
  show id ∈ (program.marks ws.toTables).filterMap Mark.declared?
  rw [hdeclared]
  refine List.mem_map.mpr ⟨id.index, ?_, rfl⟩
  simpa using hid

/-- Variables belong to the function around their declaration. -/
lemma belongsTo (h : analyze source (.initial file) = .ok program ws)
    (hholds : program.Holds owner node) : node.BelongsTo ws.symbols owner := by
  obtain ⟨tokens, ws₀, ws₁, ws₂, -, hfresh, hprogram, hquiet, htables, -⟩ := reads_of_analyze h
  have sound : ws₁.toTables.Sound := hfresh ▸ Tables.sound_initial
  have hglobal : ws₁.symbols.enclosing = [] := congrArg (·.symbols.enclosing) hfresh
  obtain ⟨-, hread⟩ := (Reading.program_does tokens sound hglobal).run hprogram
  rw [congrArg Tables.symbols htables]
  exact hholds.belongsTo (hread.clean hquiet)

/-- The function around a construct is one that the program defines. -/
lemma Accepted.owner_cases (h : program.Accepted tables) (hholds : program.Holds owner node) :
    owner = none ∨ ∃ unit ∈ program.definitions tables.symbols, unit.1 = owner := by
  induction hholds with
  | top hitem => exact .inl rfl
  | @inside owner node part hholds hpart ih =>
    cases hfunction : node.isFunction with
    | false =>
      have hframe : node.frame owner = owner := by
        cases node with
        | functionDef => simp [Node.isFunction] at hfunction
        | _ => rfl
      rw [hframe]
      exact ih
    | true =>
      cases node with
      | functionDef loc symbol? params body =>
        obtain ⟨f, rfl⟩ := Option.ne_none_iff_exists'.mp (h.checked_of_holds hholds).fits.named
        have hitem := h.mem_items_of_isFunction hholds.mem_checkOrderAll hfunction
        exact .inr ⟨_, mem_definitions.mpr ⟨loc, f, params, body, hitem, rfl⟩, rfl⟩
      | _ => simp [Node.isFunction] at hfunction

/-- Every variable is one of a function for which code is generated. -/
lemma exists_frame (h : analyze source (.initial file) = .ok program ws) {id : SymbolId}
    (hid : ws.symbols.HasSort .localVar id) :
    ∃ unit ∈ program.functions ws.symbols, ws.symbols.HasVariable unit.1 id := by
  have haccepted := (Accepted.of_analyze h).1
  have hdefined : ∀ {owner}, (∃ unit ∈ program.definitions ws.symbols, unit.1 = owner) →
      ws.symbols.HasVariable owner id →
      ∃ unit ∈ program.functions ws.symbols, ws.symbols.HasVariable unit.1 id := by
    rintro _ ⟨unit, hunit, rfl⟩ hvariable
    exact ⟨unit, mem_functions.mpr (.inl hunit), hvariable⟩
  have hsorts : ∀ {sort}, ws.symbols.HasSort sort id → sort = .localVar := by
    rintro sort ⟨symbol, hget, rfl⟩
    obtain ⟨symbol', hget', hsort⟩ := hid
    rw [hget] at hget'
    cases hget'
    exact hsort
  obtain ⟨node, hnode, hintroduced⟩ := List.mem_flatMap.mp (mem_introducedAll h hid.lt_size)
  obtain ⟨owner, hholds⟩ := exists_holds hnode
  have hvalid := (haccepted.checked_of_holds hholds).valid.self
  cases node with
  | varDecl loc symbol? =>
    obtain ⟨_, rfl, hvariable⟩ := belongsTo h hholds
    obtain rfl : id = _ := by simpa [Node.introduced] using hintroduced
    rcases haccepted.owner_cases hholds with rfl | howner
    · refine ⟨program.start, mem_functions.mpr (.inr ⟨rfl, fun other hother hname => ?_⟩), hvariable⟩
      -- without statements at the top level there are no variables there
      have hmem := SymbolTable.mem_locals.mpr hvariable
      rw [haccepted.globals, ← declaredAll_statements, haccepted.statements_eq_nil
        (List.any_eq_true.mpr ⟨other, hother, by simp [hname]⟩)] at hmem
      cases hmem
    · exact hdefined howner hvariable
  | functionDef loc symbol? params body =>
    obtain ⟨f, rfl⟩ := Option.ne_none_iff_exists'.mp (haccepted.checked_of_holds hholds).fits.named
    rcases List.mem_append.mp hintroduced with hf | hparam
    · obtain rfl : id = f := by simpa using hf
      cases hsorts (hvalid.1 id rfl)
    · have hitem := haccepted.mem_items_of_isFunction hnode rfl
      refine hdefined ⟨_, mem_definitions.mpr ⟨loc, f, params, body, hitem, rfl⟩, rfl⟩ ?_
      rw [← SymbolTable.mem_locals, haccepted.frames hnode]
      exact List.mem_append_left _ hparam
  | externDecl loc symbol? =>
    obtain rfl : symbol? = some id := by simpa [Node.introduced] using hintroduced
    cases hsorts (hvalid id rfl)
  | typedefDecl loc symbol? =>
    obtain rfl : symbol? = some id := by simpa [Node.introduced] using hintroduced
    cases hsorts (hvalid id rfl)
  | _ => simp [Node.introduced] at hintroduced

/-- Runs that succeed leave the same tables, wherever variables lie before. -/
lemma tables_eq_of_generate (h : analyze source (.initial file) = .ok program ws)
    {ws₁ ws' ws₁' : Workspace} (hsame : ws.Repositioned ws₁) {assembly assembly₁ : Assembly}
    (hrun : generate program ws = .ok assembly ws')
    (hrun₁ : generate program ws₁ = .ok assembly₁ ws₁') : ws₁'.toTables = ws'.toTables := by
  have hanalyzed := (Accepted.of_analyze h).1.toAnalyzed
  obtain ⟨hplaced, hframes⟩ := generate_frames hanalyzed hrun
  obtain ⟨hplaced₁, hframes₁⟩ := generate_frames (hsame.analyzed hanalyzed) hrun₁
  rw [functions_congr hsame.alike] at hframes₁
  refine ((hplaced.symm.trans hsame.toRepositioned).trans hplaced₁).eq_of_frames fun id hid => ?_
  obtain ⟨unit, hunit, hvariable⟩ := exists_frame h (hplaced.alike.symm.hasSort hid)
  exact ⟨unit.1, hplaced.alike.hasVariable hvariable, hframes unit hunit, hframes₁ unit hunit⟩

end Program

/-- Code can be generated any number of times for a program that analysis lets through, and wherever
its variables lie before the first time.  No call changes anything but places, even if it fails.
Every call comes to what it comes to on the tables that analysis left behind: either there is the
same code, and the same tables are left, or the same feature is missing. -/
theorem generate_repeats {file source : String} {program : Program} {ws ws₁ : Workspace}
    (hanalyze : analyze source (.initial file) = .ok program ws) (hplaces : ws.Repositioned ws₁)
    (calls : Nat) :
    let before := (generate program).leaves^[calls] ws₁
    let after := (generate program).leaves before
    ws.Repositioned before ∧ ws.Repositioned after ∧
    (generate program).outcome before = (generate program).outcome ws ∧
    ((∃ assembly, (generate program).outcome ws = .ok assembly ∧
        after.toTables = ((generate program).leaves ws).toTables) ∨
      ∃ loc feature, (generate program).outcome ws =
        .error (.error (.notImplemented ws.journal.file loc feature []))) := by
  obtain ⟨haccepted, hquiet⟩ := Program.Accepted.of_analyze hanalyze
  -- by induction on the calls, none of which changes anything but places
  have hbefore : ws.Repositioned ((generate program).leaves^[calls] ws₁) := by
    induction calls with
    | zero => exact hplaces
    | succ calls ih =>
      rw [Function.iterate_succ_apply']
      exact ih.trans (generate_rearranges program _)
  intro before after
  have hsame := generate_outcome haccepted.toAnalyzed hbefore
  refine ⟨hbefore, hbefore.trans (generate_rearranges program _), hsame, ?_⟩
  cases houtcome : (generate program).outcome ws with
  | ok assembly =>
    rw [houtcome] at hsame
    exact .inl ⟨assembly, rfl, Program.tables_eq_of_generate hanalyze hbefore
      (outcome_eq_ok.mp houtcome) (outcome_eq_ok.mp hsame)⟩
  | error failure =>
    obtain ⟨loc, feature, rfl⟩ := haccepted.failure_eq hquiet (outcome_eq_error.mp houtcome)
    exact .inr ⟨loc, feature, rfl⟩

/-- The third call for a program with variables in a function and outside of it, all of which have
been put in the same place before the first call. -/
theorem generate_repeats_scattered : ∃ program ws ws₁ assembly,
    analyze "(defun f (n: s64) bool (let bool b) (:= b (> n 1)) (return b)) (while (f 2) (let s64 x))"
      (.initial "scattered") = .ok program ws ∧
    ws.Repositioned ws₁ ∧ (∀ symbol ∈ ws₁.symbols.entries,
      symbol.kind.sort = .localVar → symbol.offset = .ok 7) ∧
    (generate program).outcome ((generate program).leaves^[2] ws₁) = .ok assembly ∧
    ((generate program).leaves^[3] ws₁).toTables = ((generate program).leaves ws).toTables := by
  have hcompiles : compiles "scattered"
      "(defun f (n: s64) bool (let bool b) (:= b (> n 1)) (return b)) (while (f 2) (let s64 x))"
      = true := by
    decide +kernel
  obtain ⟨program, ws, assembly, ws', hanalyze, hgenerate⟩ := runs_of_compiles hcompiles
  -- all variables at offset 7
  let symbols : SymbolTable :=
    { ws.symbols with entries := ws.symbols.entries.map (·.place 7) }
  have hplaces : ws.Repositioned { ws with symbols } := by
    refine ⟨⟨rfl, fun i => ?_, rfl⟩, rfl, rfl⟩
    simp [symbols, Function.comp_def, Symbol.unplaced_place]
  obtain ⟨-, -, hsame, hcases⟩ := generate_repeats hanalyze hplaces 2
  have houtcome : (generate program).outcome ws = .ok assembly := by
    rw [outcome, hgenerate]
  refine ⟨program, ws, _, assembly, hanalyze, hplaces, ?_, hsame.trans houtcome, ?_⟩
  · intro placed hplaced hsort
    obtain ⟨symbol, -, rfl⟩ := Array.mem_map.mp hplaced
    cases hkind : symbol.kind <;> simp_all [Symbol.place, Symbol.offset, SymbolKind.sort]
  · rcases hcases with ⟨-, -, htables⟩ | ⟨loc, feature, hfails⟩
    · rw [Function.iterate_succ_apply']
      exact htables
    · rw [houtcome] at hfails
      cases hfails

end ParenC
