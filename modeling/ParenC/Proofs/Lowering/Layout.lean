/-
The frames of the routines of a program.

The variables of a function are its parameters and whatever is declared anywhere in its body.  The
frame holds each of them once, in the order of their declarations and without gaps.  All this is
said of the tables at the end of code generation, when the frames of all functions are laid out: a
later frame leaves the earlier ones alone.
-/
import Mathlib.Algebra.GroupWithZero.Nat
import Mathlib.Data.List.Perm.Basic
import ParenC.Proofs.Lowering.Correctness

namespace ParenC

open Lowering

/-! ## Declarations anywhere in a body -/

namespace Node

/-- The variable that the node itself declares. -/
def declares? : Node → Option SymbolId
  | varDecl _ symbol? => symbol?
  | _ => none

lemma checkOrder_perm (node : Node) : node.checkOrder.Perm (node :: checkOrderAll node.parts) := by
  cases node with
  | forLoop loc init cond step body =>
    simp only [checkOrder, parts, checkOrderAll, List.append_assoc, List.singleton_append]
    exact (List.Perm.append_left _ (List.Perm.append_left _ List.perm_middle)).trans
      ((List.Perm.append_left _ List.perm_middle).trans List.perm_middle)
  | block loc body | functionDef loc symbol? params body => exact List.Perm.refl _
  | ifThen loc cond body | whileLoop loc cond body =>
    simp only [checkOrder, parts, checkOrderAll, List.append_assoc, List.singleton_append]
    exact List.perm_middle
  | ifElse loc cond thenBody elseBody =>
    simp only [checkOrder, parts, checkOrderAll, checkOrderAll_append, List.append_assoc,
      List.singleton_append]
    exact List.perm_middle
  | binary | call | cast | returnValue =>
    simp only [checkOrder, parts, checkOrderAll, List.append_nil]
    exact List.perm_append_singleton _ _
  | integer | boolean | varDecl | varRef | externDecl | returnVoid | typedefDecl | empty =>
    exact List.Perm.refl _

/-- A node declares a variable itself, or its parts do. -/
lemma declared_eq {node : Node} (h : node.isFunction = false) :
    node.declared = node.declares?.toList ++ declaredAll node.parts := by
  cases node with
  | functionDef => simp [isFunction] at h
  | _ => simp [declared, declares?, parts]

lemma filterMap_cons_declares? (node : Node) (nodes : List Node) :
    (node :: nodes).filterMap declares? = node.declares?.toList ++ nodes.filterMap declares? := by
  cases h : node.declares? <;> simp [h]

/-- Nothing that is declared below a node is missed or counted twice when its frame is laid out. -/
lemma variables_perm {node : Node} (h : ∀ n ∈ node.checkOrder, n.isFunction = false) :
    (node.checkOrder.filterMap declares?).Perm node.declared := by
  induction node using Node.induction with
  | step node ih =>
    have hparts : ∀ part ∈ node.parts,
        (part.checkOrder.filterMap declares?).Perm part.declared := by
      intro part hpart
      refine ih part hpart fun n hn => h n ?_
      exact mem_checkOrder.mpr (Or.inr (mem_checkOrderAll.mpr ⟨part, hpart, hn⟩))
    refine ((checkOrder_perm node).filterMap declares?).trans ?_
    rw [declared_eq (h node (self_mem_checkOrder node)), filterMap_cons_declares?,
      checkOrderAll_eq_flatMap, declaredAll_eq_flatMap, List.filterMap_flatMap]
    exact List.Perm.append_left _ (List.Perm.flatMap_left _ hparts)

lemma variablesAll_perm {nodes : List Node} (h : ∀ n ∈ checkOrderAll nodes, n.isFunction = false) :
    ((checkOrderAll nodes).filterMap declares?).Perm (declaredAll nodes) := by
  rw [checkOrderAll_eq_flatMap, declaredAll_eq_flatMap, List.filterMap_flatMap]
  refine List.Perm.flatMap_left _ fun node hnode => variables_perm fun n hn => h n ?_
  exact mem_checkOrderAll.mpr ⟨node, hnode, hn⟩

lemma isFunction_of_isExpression {node : Node} (h : node.isExpression = true) :
    node.isFunction = false := by
  cases node with
  | functionDef => simp [isExpression] at h
  | _ => rfl

end Node

namespace Lowering

variable {tables : Tables} {owner : Option SymbolId}

/-- A function has no value, so it can neither be an operand nor stand where a statement does. -/
lemma isFunction_of_part (complete : tables.Complete) (signed : Signed tables) {node part : Node}
    (h : node.Checked tables owner) (hpart : part ∈ node.parts) : part.isFunction = false := by
  have hcond : ∀ {cond : Node}, cond.type tables.symbols = .ok Builtin.bool.id →
      cond.isFunction = false := fun htype =>
    Node.isFunction_of_isExpression (isExpression_of_type htype (by decide))
  have hflat := h.fits.flat
  cases node with
  | binary loc op lhs rhs =>
    obtain ⟨hleft, hright⟩ := isExpression_of_operand h
    rcases List.mem_pair.mp hpart with rfl | rfl
    · exact Node.isFunction_of_isExpression hleft
    · exact Node.isFunction_of_isExpression hright
  | call loc callee? args =>
    obtain ⟨callee, rfl⟩ := Option.ne_none_iff_exists'.mp h.fits.named
    exact Node.isFunction_of_isExpression (isExpression_of_arg complete signed h part hpart)
  | cast loc target operand =>
    obtain rfl := List.mem_singleton.mp hpart
    exact Node.isFunction_of_isExpression (isExpression_of_castOperand complete h)
  | ifThen loc cond body | whileLoop loc cond body =>
    rcases List.mem_cons.mp hpart with rfl | hpart
    · exact hcond h.rule
    · exact hflat part hpart
  | ifElse loc cond thenBody elseBody =>
    rcases List.mem_cons.mp hpart with rfl | hpart
    · exact hcond h.rule
    · exact hflat part hpart
  | forLoop loc init cond step body =>
    simp only [Node.parts, List.mem_cons] at hpart
    simp only [Node.statementParts, List.mem_cons] at hflat
    rcases hpart with rfl | rfl | rfl | hpart
    · exact hflat _ (Or.inl rfl)
    · exact hcond h.rule
    · exact hflat _ (Or.inr (Or.inl rfl))
    · exact hflat part (Or.inr (Or.inr hpart))
  | block | functionDef | returnValue => exact hflat part hpart
  | integer | boolean | varDecl | varRef | externDecl | returnVoid | typedefDecl | empty =>
    simp [Node.parts] at hpart

/-- No function is defined anywhere below a node that is none itself. -/
lemma isFunction_of_below (complete : tables.Complete) (signed : Signed tables) {node : Node}
    (h : node.Checked tables owner) (hfunction : node.isFunction = false) :
    ∀ n ∈ node.checkOrder, n.isFunction = false := by
  induction node using Node.induction with
  | step node ih =>
    intro n hn
    rcases Node.mem_checkOrder.mp hn with rfl | hn
    · exact hfunction
    · obtain ⟨part, hpart, hn⟩ := Node.mem_checkOrderAll.mp hn
      have hframe : node.frame owner = owner := by
        cases node <;> first | rfl | simp [Node.isFunction] at hfunction
      exact ih part hpart (hframe ▸ h.part hpart) (isFunction_of_part complete signed h hpart) n hn

/-- The variables of a function are its parameters and what is declared anywhere in its body. -/
lemma Compilable.variables_perm {function : Function} (ready : Ready tables owner)
    (h : Compilable tables owner function) :
    (function.params ++ (Node.checkOrderAll function.body).filterMap Node.declares?).Perm
      function.variables := by
  refine List.Perm.append_left _ (Node.variablesAll_perm fun n hn => ?_)
  obtain ⟨node, hnode, hn⟩ := Node.mem_checkOrderAll.mp hn
  exact isFunction_of_below ready.complete ready.signed (h.checked node hnode) (h.flat node hnode)
    n hn

end Lowering

/-! ## Sizes and offsets -/

namespace Tables

variable {tables tables' : Tables}

/-- The number of bytes that the declared type of a symbol takes; none if there is no type. -/
def sizeOf (tables : Tables) (id : SymbolId) : Nat :=
  match tables.symbols.entries[id.index]?.bind Symbol.type? with
  | none => 0
  | some type =>
    match tables.types.entries[type.index]? with
    | none => 0
    | some info => info.size

lemma Lies.sizeOf_eq {id : SymbolId} {offset size : Nat} (h : tables.Lies id offset size) :
    tables.sizeOf id = size := by
  obtain ⟨symbol, type, info, hget, htype, hinfo, -, rfl⟩ := h
  simp [sizeOf, hget, htype, TypeTable.get_eq_ok_iff.mp hinfo]

/-- A variable that lies at the same place in tables that are alike is the same. -/
lemma Lies.symbol_eq {id : SymbolId} {offset size size' : Nat} (h : tables.Lies id offset size)
    (halike : tables.symbols.Alike tables'.symbols) (h' : tables'.Lies id offset size') :
    tables'.symbols.entries[id.index]? = tables.symbols.entries[id.index]? := by
  obtain ⟨symbol, type, info, hget, -, -, hoffset, -⟩ := h
  obtain ⟨symbol', type', info', hget', -, -, hoffset', -⟩ := h'
  obtain ⟨other, hother, heq⟩ := halike.entry hget
  rw [hget'] at hother
  cases hother
  rw [hget, hget', Symbol.eq_of_offset heq hoffset hoffset']

/-- Sizes do not look at places. -/
lemma sizeOf_congr (h : Repositioned tables tables') (id : SymbolId) :
    tables'.sizeOf id = tables.sizeOf id := by
  have htype : tables'.symbols.entries[id.index]?.bind Symbol.type? =
      tables.symbols.entries[id.index]?.bind Symbol.type? := by
    cases hget : tables.symbols.entries[id.index]? with
    | none =>
      have := h.alike id.index
      rw [hget, Option.map_none, eq_comm, Option.map_eq_none_iff] at this
      rw [this]
    | some symbol =>
      obtain ⟨symbol', hget', heq⟩ := h.alike.entry hget
      rw [hget', Option.bind_some, Option.bind_some, Symbol.type?_eq heq]
  rw [sizeOf, sizeOf, htype, h.types]

/-- The first of the variables, with its place. -/
lemma Laid.first {used stop : Nat} {id : SymbolId} {rest : List SymbolId}
    (h : tables.Laid used (id :: rest) stop) :
    tables.Lies id ((used + tables.sizeOf id) % wordCount) (tables.sizeOf id) ∧
      tables.Laid (used + tables.sizeOf id) rest stop := by
  obtain ⟨symbol, type, info, hget, htype, hinfo, hoffset, hrest⟩ := h
  have hlies : tables.Lies id ((used + info.size) % wordCount) info.size :=
    ⟨symbol, type, info, hget, htype, hinfo, hoffset, rfl⟩
  rw [hlies.sizeOf_eq]
  exact ⟨hlies, hrest⟩

/-- The offset of a variable is what a word holds of the sum of the sizes up to its own. -/
lemma Laid.lies {used stop : Nat} {ids : List SymbolId} (h : tables.Laid used ids stop) {i : Nat}
    {id : SymbolId} (hid : ids[i]? = some id) :
    tables.Lies id ((used + ((ids.take (i + 1)).map tables.sizeOf).sum) % wordCount)
      (tables.sizeOf id) := by
  induction ids generalizing used i with
  | nil => simp at hid
  | cons first rest ih =>
    obtain ⟨hfirst, hrest⟩ := h.first
    cases i with
    | zero =>
      obtain rfl : first = id := by simpa using hid
      simpa using hfirst
    | succ i =>
      have hlies := ih hrest (by simpa using hid)
      rw [List.take_succ_cons, List.map_cons, List.sum_cons, ← Nat.add_assoc]
      exact hlies

/-- All variables together take the sum of their sizes. -/
lemma Laid.stop_eq {used stop : Nat} {ids : List SymbolId} (h : tables.Laid used ids stop) :
    stop = used + (ids.map tables.sizeOf).sum := by
  induction ids generalizing used with
  | nil => exact h
  | cons first rest ih =>
    rw [ih h.first.2, List.map_cons, List.sum_cons]
    omega

/-- Where variables lie depends on their own entries. -/
lemma Laid.congr {used stop : Nat} {ids : List SymbolId} (h : tables.Laid used ids stop)
    (htypes : tables'.types = tables.types)
    (hsame : ∀ id ∈ ids, tables'.symbols.entries[id.index]? = tables.symbols.entries[id.index]?) :
    tables'.Laid used ids stop := by
  induction ids generalizing used with
  | nil => exact h
  | cons first rest ih =>
    obtain ⟨symbol, type, info, hget, htype, hinfo, hoffset, hrest⟩ := h
    refine ⟨symbol, type, info, ?_, htype, ?_, hoffset,
      ih hrest fun id hid => hsame id (by simp [hid])⟩
    · rw [hsame first (by simp), hget]
    · rw [htypes, hinfo]

/-- The variables of `owner` are laid out one below the other, from the top of the frame on. -/
def HasFrame (tables : Tables) (owner : Option SymbolId) : Prop :=
  ∃ used, tables.Laid 0 (tables.symbols.locals owner) used

end Tables

/-! ## Frames at the end of code generation -/

namespace Lowering

variable {ws ws' : Workspace} {program : Program} {tables : Tables}

/-- A variable belongs to one function. -/
lemma owner_unique {symbol : Symbol} {owner owner' : Option SymbolId}
    (h : symbol.isVariableOf owner = true) (h' : symbol.isVariableOf owner' = true) :
    owner = owner' := by
  unfold Symbol.isVariableOf at h h'
  split at h
  · rename_i hkind
    rw [hkind] at h'
    simp only [decide_eq_true_eq] at h h'
    rw [← h, ← h']
  · simp at h

/-- Code that is there is handed on. -/
lemma run_eq_ok {α : Type} {x : Lowered α} {a : α} (h : run x ws = .ok a ws') :
    x = .ok a ∧ ws = ws' := by
  cases x with
  | error obstacle => cases obstacle <;> cases h
  | ok b =>
    obtain ⟨rfl, rfl⟩ := CompileM.pure_eq_ok.mp h
    exact ⟨rfl, rfl⟩

/-- What adding a function does: its variables are placed, and its routine is added, with labels
from where the counter stands, and so are the functions that it declares as defined elsewhere. -/
lemma addFunction_run {assembly assembly' : Assembly} {function : Function}
    (h : addFunction assembly function ws = .ok assembly' ws') : ∃ used ws₁ code,
      placeAll 0 function.variables ws = .ok used ws₁ ∧ ws'.toTables = ws₁.toTables ∧
      function.code ws₁.toTables (frameSize used) assembly.labels = .ok code ∧
      assembly'.routines = assembly.routines ++ [⟨function.name, code.lines⟩] ∧
      assembly'.labels = code.next ∧ assembly'.externs = assembly.externs ++ code.externs := by
  unfold addFunction at h
  by_cases hmany : function.params.length > Reg.arguments.length
  · rw [if_pos hmany] at h
    cases h
  · rw [if_neg hmany] at h
    obtain ⟨used, ws₁, hplaced, h⟩ := CompileM.bind_eq_ok.mp h
    obtain ⟨_, _, hget, h⟩ := CompileM.bind_eq_ok.mp h
    cases hget
    obtain ⟨code, ws₂, hrun, h⟩ := CompileM.bind_eq_ok.mp h
    obtain ⟨hcode, rfl⟩ := run_eq_ok hrun
    -- what is left is an entry of the log, which is not part of the tables
    cases h
    exact ⟨used, ws₁, code, hplaced, rfl, hcode, rfl, rfl, rfl⟩

/-- Adding a function lays out its frame, and leaves the other ones alone. -/
lemma addFunction_frames {assembly assembly' : Assembly} {owner : Option SymbolId}
    {function : Function} (complete : ws.toTables.Complete)
    (h : Compilable ws.toTables owner function)
    (hrun : addFunction assembly function ws = .ok assembly' ws') :
    Repositioned ws.toTables ws'.toTables ∧ ws'.toTables.HasFrame owner ∧
      ∀ other, ws.toTables.HasFrame other → ws'.toTables.HasFrame other := by
  have hnodup : function.variables.Nodup := h.locals ▸ ws.symbols.locals_nodup owner
  obtain ⟨used, symbols, hplaced, hin, hlaid⟩ := placeAll_run complete
    (fun id hid => (h.mem_variables.mp hid).hasSort) hnodup 0
  obtain ⟨used', ws₁, -, hplaced', htables, -⟩ := addFunction_run hrun
  cases hplaced.symm.trans hplaced'
  have hsame : Repositioned ws.toTables ws'.toTables := by
    rw [htables]
    exact ⟨rfl, hin.alike, hin.scopes⟩
  have hown : ws'.toTables.HasFrame owner := by
    refine ⟨used, ?_⟩
    rw [← hsame.alike.locals owner, h.locals, htables]
    exact hlaid
  refine ⟨hsame, hown, ?_⟩
  rintro other ⟨stop, hother⟩
  by_cases heq : other = owner
  · rw [heq]
    exact hown
  · refine ⟨stop, ?_⟩
    rw [← hsame.alike.locals other, htables]
    refine hother.congr rfl fun id hid => hin.others id.index ?_
    -- a variable of another function is not among those that were placed
    intro hmem
    obtain ⟨placed, hplaced, hindex⟩ := List.mem_map.mp hmem
    obtain ⟨symbol, hget, hvar⟩ := SymbolTable.mem_locals.mp hid
    obtain ⟨symbol', hget', hvar'⟩ := h.mem_variables.mp hplaced
    rw [hindex, hget] at hget'
    cases hget'
    exact heq (owner_unique hvar hvar')

/-- What adding items does, item by item: a function from elsewhere is named in the head, a function
of the program gets its frame and its routine, and the other items are passed over. -/
inductive Adds (tables : Tables) : List Node → Assembly → Workspace → Assembly → Workspace → Prop
  | nil {assembly : Assembly} {ws : Workspace} : Adds tables [] assembly ws assembly ws
  | externDecl {loc : Location} {id : SymbolId} {rest : List Node} {assembly assembly' : Assembly}
      {ws ws' : Workspace} (others : Adds tables rest
        { assembly with externs := assembly.externs ++ [tables.symbols.nameOf id] } ws
        assembly' ws') :
      Adds tables (.externDecl loc (some id) :: rest) assembly ws assembly' ws'
  | functionDef {loc : Location} {f : SymbolId} {params : List SymbolId} {body rest : List Node}
      {assembly assembly₁ assembly' : Assembly} {ws ws₁ ws' : Workspace}
      (add : addFunction assembly ⟨tables.symbols.nameOf f, loc, params, body, false⟩ ws =
        .ok assembly₁ ws₁)
      (same : Repositioned tables ws₁.toTables) (frame : ws₁.toTables.HasFrame (some f))
      (kept : ∀ owner, ws.toTables.HasFrame owner → ws₁.toTables.HasFrame owner)
      (others : Adds tables rest assembly₁ ws₁ assembly' ws') :
      Adds tables (.functionDef loc (some f) params body :: rest) assembly ws assembly' ws'
  | typedefDecl {loc : Location} {symbol? : Option SymbolId} {rest : List Node}
      {assembly assembly' : Assembly} {ws ws' : Workspace}
      (others : Adds tables rest assembly ws assembly' ws') :
      Adds tables (.typedefDecl loc symbol? :: rest) assembly ws assembly' ws'
  | statement {item : Node} {rest : List Node} {assembly assembly' : Assembly} {ws ws' : Workspace}
      (isStatement : item.isStatement = true) (others : Adds tables rest assembly ws assembly' ws') :
      Adds tables (item :: rest) assembly ws assembly' ws'

lemma addItems_adds (h : program.Analyzed tables) {items : List Node}
    (hitems : ∀ item ∈ items, item ∈ program.items) {assembly assembly' : Assembly}
    (hsame : Repositioned tables ws.toTables)
    (hrun : addItems assembly items ws = .ok assembly' ws') :
    Adds tables items assembly ws assembly' ws' := by
  induction items generalizing ws assembly with
  | nil =>
    cases hrun
    exact .nil
  | cons item rest ih =>
    have hrest : ∀ n ∈ rest, n ∈ program.items := fun n hn => hitems n (by simp [hn])
    have hitem := hitems item (by simp)
    have hchecked := h.checked item hitem
    unfold addItems at hrun
    obtain ⟨_, _, hget, hrun⟩ := CompileM.bind_eq_ok.mp hrun
    cases hget
    cases item with
    | externDecl loc symbol? =>
      obtain ⟨id, rfl⟩ := Option.ne_none_iff_exists'.mp hchecked.fits.named
      simp only [hsame.functionName (hchecked.valid.self id rfl)] at hrun
      exact .externDecl (ih hrest hsame hrun)
    | functionDef loc symbol? params body =>
      obtain ⟨f, rfl⟩ := Option.ne_none_iff_exists'.mp hchecked.fits.named
      simp only [hsame.functionName (hchecked.valid.self.1 f rfl)] at hrun
      obtain ⟨_, _, hname, hrun⟩ := CompileM.bind_eq_ok.mp hrun
      cases hname
      obtain ⟨assembly₁, ws₁, hadd, hrun⟩ := CompileM.bind_eq_ok.mp hrun
      obtain ⟨hsame₁, hframe, hkept⟩ := addFunction_frames (hsame.complete h.complete)
        (hsame.compilable (compilable_of_definition h (tables.symbols.nameOf f) hitem)) hadd
      have hsame' := hsame.trans hsame₁
      exact .functionDef hadd hsame' hframe hkept (ih hrest hsame' hrun)
    | typedefDecl loc symbol? => exact .typedefDecl (ih hrest hsame hrun)
    | _ => exact .statement rfl (ih hrest hsame hrun)

lemma definition?_of_isStatement {symbols : SymbolTable} {item : Node}
    (h : item.isStatement = true) : Program.definition? symbols item = none := by
  cases item <;> first | rfl | cases h

/-- Adding items lays out the frame of each function among them, and keeps those that are there. -/
lemma Adds.frames {items : List Node} {assembly assembly' : Assembly}
    (h : Adds tables items assembly ws assembly' ws') (hsame : Repositioned tables ws.toTables) :
    Repositioned tables ws'.toTables ∧
      (∀ owner, ws.toTables.HasFrame owner → ws'.toTables.HasFrame owner) ∧
      ∀ unit ∈ items.filterMap (Program.definition? tables.symbols),
        ws'.toTables.HasFrame unit.1 := by
  induction h with
  | nil => exact ⟨hsame, fun _ hframe => hframe, by simp⟩
  | externDecl others ih | typedefDecl others ih => exact ih hsame
  | functionDef add same frame kept others ih =>
    obtain ⟨hsame', hkept, hframes⟩ := ih same
    refine ⟨hsame', fun owner hframe => hkept owner (kept owner hframe), ?_⟩
    exact List.forall_mem_cons.mpr ⟨hkept _ frame, hframes⟩
  | statement isStatement others ih =>
    rw [List.filterMap_cons_none (definition?_of_isStatement isStatement)]
    exact ih hsame

/-- What is known of a run that succeeded. -/
lemma Safe.run {α : Type} {act : CompileM α} {post : α → Workspace → Prop} {a : α}
    (h : Safe act ws post) (hrun : act ws = .ok a ws') : post a ws' := by
  unfold Safe at h
  rwa [hrun] at h

/-- What generating code does: the items are added, and then the start of the program unless a
function is called `main`. -/
lemma generate_run (h : program.Analyzed ws.toTables) {assembly : Assembly}
    (hrun : generate program ws = .ok assembly ws') : ∃ assembly₁ ws₁,
      Adds ws.toTables program.items {} ws assembly₁ ws₁ ∧
      ((program.definitions ws.symbols).any (·.2.name = "main") = true ∧
          program.functions ws.symbols = program.definitions ws.symbols ∧
          assembly = assembly₁ ∧ ws'.toTables = ws₁.toTables ∨
        (program.definitions ws.symbols).any (·.2.name = "main") = false ∧
          program.functions ws.symbols = program.definitions ws.symbols ++ [program.start] ∧
          ∃ ws₂, addFunction assembly₁ program.start.2 ws₁ = .ok assembly ws₂ ∧
            ws'.toTables = ws₂.toTables) := by
  unfold generate at hrun
  obtain ⟨assembly₁, ws₁, hitems, hrun⟩ := CompileM.bind_eq_ok.mp hrun
  obtain ⟨-, routines, hroutines, hall⟩ :=
    (addItems_safe h (fun _ hitem => hitem) (.refl _)).run hitems
  -- whether a start is added is the same question of the routines and of the functions
  have hmain : assembly₁.routines.any (·.name = "main") =
      (program.definitions ws.symbols).any (·.2.name = "main") := by
    rw [hroutines, List.nil_append]
    exact any_name_eq hall "main"
  refine ⟨assembly₁, ws₁, addItems_adds h (fun _ hitem => hitem) (.refl _) hitems, ?_⟩
  by_cases hany : assembly₁.routines.any (·.name = "main") = true
  · rw [if_pos hany] at hrun
    cases hrun
    rw [hmain] at hany
    exact .inl ⟨hany, by simp [Program.functions, hany], rfl, rfl⟩
  · rw [if_neg hany] at hrun
    obtain ⟨assembly₂, ws₂, hstart, hrun⟩ := CompileM.bind_eq_ok.mp hrun
    cases hrun
    rw [hmain] at hany
    exact .inr ⟨by simpa using hany, by simp [Program.functions, hany], ws₂, hstart, rfl⟩

/-- When code has been generated, the frames of all functions are laid out. -/
theorem generate_frames (h : program.Analyzed ws.toTables) {assembly : Assembly}
    (hrun : generate program ws = .ok assembly ws') :
    Repositioned ws.toTables ws'.toTables ∧
      ∀ unit ∈ program.functions ws.symbols, ws'.toTables.HasFrame unit.1 := by
  obtain ⟨assembly₁, ws₁, hitems, hend⟩ := generate_run h hrun
  obtain ⟨hsame, -, hframes⟩ := hitems.frames (.refl _)
  rcases hend with ⟨-, hunits, -, htables⟩ | ⟨-, hunits, ws₂, hstart, htables⟩
  · rw [hunits, htables]
    exact ⟨hsame, hframes⟩
  · rw [hunits, htables]
    obtain ⟨hsame₂, hown, hkept⟩ := addFunction_frames (hsame.complete h.complete)
      (hsame.compilable (compilable_of_start h)) hstart
    refine ⟨hsame.trans hsame₂, fun unit hunit => ?_⟩
    rcases List.mem_append.mp hunit with hunit | hunit
    · exact hkept _ (hframes unit hunit)
    · rw [List.mem_singleton.mp hunit]
      exact hown

end Lowering

end ParenC
