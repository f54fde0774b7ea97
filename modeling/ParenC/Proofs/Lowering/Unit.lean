/-
The routines of a program.

Each function that a program defines becomes one routine, and so do the statements of the top
level unless a function has taken the name `main`.  `Compiled` says from which tables the code of
a function was generated: its own variables have their places, and nothing else differs from what
analysis left behind.
-/
import Mathlib.Data.List.Forall2
import ParenC.Proofs.Analysis
import ParenC.Proofs.Lowering.Safety

namespace ParenC

/-! ## The functions of a program -/

namespace Program

open Lowering

/-- A function to generate code for, and the owner of its variables. -/
abbrev Owned := Option SymbolId × Function

/-- The function that a construct of the top level defines. -/
def definition? (symbols : SymbolTable) : Node → Option Owned
  | .functionDef loc (some f) params body =>
    some (some f, ⟨symbols.nameOf f, loc, params, body, false⟩)
  | _ => none

/-- The functions that a program defines. -/
def definitions (symbols : SymbolTable) (program : Program) : List Owned :=
  program.items.filterMap (definition? symbols)

/-- What runs when the program starts, if it defines no `main`. -/
def start (program : Program) : Owned := (none, ⟨"main", .start, [], program.statements, true⟩)

/-- All functions for which code is generated. -/
def functions (symbols : SymbolTable) (program : Program) : List Owned :=
  let definitions := program.definitions symbols
  definitions ++ if definitions.any (·.2.name = "main") then [] else [program.start]

end Program

namespace Lowering

/-- The variables in the frame of a function. -/
def Function.variables (function : Function) : List SymbolId :=
  function.params ++ Node.declaredAll function.body

/-- The function can be compiled from `tables` up to places. -/
structure Compilable (tables : Tables) (owner : Option SymbolId) (function : Function) : Prop where
  /-- The body was read and checked without findings. -/
  checked : ∀ node ∈ function.body, node.Checked tables owner
  /-- No function is defined in the body. -/
  flat : ∀ node ∈ function.body, node.isFunction = false
  /-- The variables of the function are known. -/
  locals : tables.symbols.locals owner = function.variables

/-- The code was generated for the function from `tables`, in which its frame is laid out; its
variables take `used` bytes. -/
structure Compiled (tables : Tables) (owner : Option SymbolId) (function : Function)
    (used next : Nat) (code : Code) : Prop extends Compilable tables owner function where
  /-- The tables are in order. -/
  ready : Ready tables owner
  /-- The variables have places. -/
  laid : tables.Laid 0 function.variables used
  /-- There is a register for each parameter. -/
  fits : function.params.length ≤ Reg.arguments.length
  /-- The code itself. -/
  code : function.code tables (frameSize used) next = .ok code

lemma Compilable.congr {types : TypeTable} {symbols symbols' : SymbolTable}
    {owner : Option SymbolId} {function : Function} (alike : symbols.Alike symbols')
    (h : Compilable ⟨types, symbols⟩ owner function) :
    Compilable ⟨types, symbols'⟩ owner function where
  checked node hnode := (h.checked node hnode).congr alike
  flat := h.flat
  locals := (alike.locals owner).symm.trans h.locals

/-- The variables in the frame of a function are those of its owner. -/
lemma Compilable.mem_variables {tables : Tables} {owner : Option SymbolId} {function : Function}
    (h : Compilable tables owner function) {id : SymbolId} :
    id ∈ function.variables ↔ tables.symbols.HasVariable owner id := by
  rw [← h.locals]
  exact SymbolTable.mem_locals

/-! ## Runs without defects -/

/-- Run on `ws`, the action meets no defect, and `post` holds of its result if there is one. -/
def Safe {α : Type} (act : CompileM α) (ws : Workspace) (post : α → Workspace → Prop) : Prop :=
  match act ws with
  | .ok a ws' => post a ws'
  | .error (.error _) _ => True
  | .error (.defect _) _ => False

namespace Safe

variable {α β : Type} {ws : Workspace} {post : α → Workspace → Prop}

lemma of_ok {act : CompileM α} {a : α} {ws' : Workspace} (hrun : act ws = .ok a ws')
    (hpost : post a ws') : Safe act ws post := by
  unfold Safe
  rw [hrun]
  exact hpost

lemma pure {a : α} (h : post a ws) : Safe (Pure.pure a) ws post := h

/-- Going on after a run that is known. -/
lemma ok_bind {act : CompileM α} {next : α → CompileM β} {post' : β → Workspace → Prop} {a : α}
    {ws' : Workspace} (hrun : act ws = .ok a ws') (h : Safe (next a) ws' post') :
    Safe (act >>= next) ws post' := by
  have hbind : (act >>= next) ws = next a ws' := by
    simp only [Bind.bind, EStateM.bind, hrun]
  unfold Safe
  rw [hbind]
  exact h

lemma bind {act : CompileM α} {next : α → CompileM β} {post' : β → Workspace → Prop}
    (h : Safe act ws post) (hnext : ∀ a ws', post a ws' → Safe (next a) ws' post') :
    Safe (act >>= next) ws post' := by
  unfold Safe at h
  rcases hact : act ws with ⟨a, ws'⟩ | ⟨e, ws'⟩
  · rw [hact] at h
    exact ok_bind hact (hnext a ws' h)
  · rw [hact] at h
    have hrun : (act >>= next) ws = .error e ws' := by
      simp only [Bind.bind, EStateM.bind, hact]
    unfold Safe
    rw [hrun]
    cases e with
    | error e => trivial
    | defect d => exact h

lemma get {next : Workspace → CompileM β} {post' : β → Workspace → Prop}
    (h : Safe (next ws) ws post') : Safe (MonadState.get >>= next) ws post' := h

lemma promised_bind {x : Except Defect α} {a : α} {next : α → CompileM β}
    {post' : β → Workspace → Prop} (hx : x = .ok a) (h : Safe (next a) ws post') :
    Safe (CompileM.promised x >>= next) ws post' := by
  rw [hx]
  exact h

lemma imp {act : CompileM α} {post' : α → Workspace → Prop} (h : Safe act ws post)
    (himp : ∀ a ws', post a ws' → post' a ws') : Safe act ws post' := by
  unfold Safe at h ⊢
  split at h
  · exact himp _ _ h
  · trivial
  · exact h

/-- Going on with code that may be beyond the backend. -/
lemma run_bind {x : Lowered α} {next : α → CompileM β} {post' : β → Workspace → Prop}
    (hx : ∀ defect, x ≠ .error (.defect defect))
    (hnext : ∀ a, x = .ok a → Safe (next a) ws post') :
    Safe (run x >>= next) ws post' := by
  cases hcase : x with
  | ok a => exact hnext a hcase
  | error obstacle =>
    cases obstacle with
    | limit loc limit => trivial
    | defect defect => exact absurd hcase (hx defect)

end Safe

/-! ## Code for functions -/

section

variable {tables : Tables} {owner : Option SymbolId} {loads : Node → Prop} {function : Function}

/-- A mention of a variable needs nothing but the variable. -/
lemma checked_varRef {loc : Location} {id : SymbolId} (h : tables.symbols.HasVariable owner id) :
    (Node.varRef loc (some id)).Checked tables owner where
  valid := by
    intro n hn
    obtain rfl := List.mem_singleton.mp hn
    rintro _ ⟨⟩
    exact h.hasSort
  accepted := by
    intro n hn
    obtain rfl := List.mem_singleton.mp hn
    exact ⟨trivial, rfl⟩
  fits := .intro ⟨id, rfl, h⟩ (by simp [Node.statementParts]) (by simp [Node.parts])

/-- There is code that stores the parameters just if each of them can be loaded. -/
lemma spill_permits (storing : Storing tables owner loads) {loc : Location}
    {pairs : List (SymbolId × Reg)}
    (h : ∀ pair ∈ pairs, tables.symbols.HasVariable owner pair.1) :
    Permits (spill tables loc pairs) (∀ pair ∈ pairs, loads (.varRef loc (some pair.1))) := by
  induction pairs with
  | nil => exact fun pair hpair => absurd hpair (by simp)
  | cons pair rest ih =>
    obtain ⟨param, reg⟩ := pair
    have hslot : Permits (slot tables loc param) (loads (.varRef loc (some param))) :=
      storing (checked_varRef (h (param, reg) (by simp))) (by simp [Node.declared]) rfl
    refine (hslot.bind fun _ => (ih fun pair hpair => h pair (by simp [hpair])).map).congr ?_
    simp only [List.forall_mem_cons]

/-- There is code for a function just if its parameters can be loaded and its body can be run. -/
lemma code_permits (ready : Ready tables owner) (storing : Storing tables owner loads)
    (h : Compilable tables owner function) {frame next : Nat} :
    Permits (function.code tables frame next)
      ((∀ pair ∈ function.params.zip Reg.arguments,
        loads (.varRef function.location (some pair.1))) ∧
      ∀ node ∈ function.body, node.Runnable loads) := by
  have hparam : ∀ pair ∈ function.params.zip Reg.arguments,
      tables.symbols.HasVariable owner pair.1 := fun pair hpair =>
    h.mem_variables.mp (List.mem_append_left _ (List.of_mem_zip hpair).1)
  have hbody := bodyCode_manages ready storing next h.checked
    (fun id hid => h.mem_variables.mp (List.mem_append_right _ hid)) h.flat
  exact (spill_permits storing hparam).bind fun _ => hbody.permits.map

lemma code_safe (ready : Ready tables owner) (h : Compilable tables owner function)
    {frame next : Nat} (defect : Defect) :
    function.code tables frame next ≠ .error (.defect defect) :=
  (code_permits ready ready.storing h).safe defect

end

/-- The tables of `tables'` are those of `tables` with other places. -/
structure Repositioned (tables tables' : Tables) : Prop where
  /-- The types stay. -/
  types : tables'.types = tables.types
  /-- The symbols stay but for their places. -/
  alike : tables.symbols.Alike tables'.symbols
  /-- The scopes stay. -/
  scopes : tables'.symbols.scopes = tables.symbols.scopes

namespace Repositioned

variable {tables tables' tables'' : Tables}

lemma refl (tables : Tables) : Repositioned tables tables := ⟨rfl, .refl _, rfl⟩

lemma trans (h₁ : Repositioned tables tables') (h₂ : Repositioned tables' tables'') :
    Repositioned tables tables'' :=
  ⟨h₂.types.trans h₁.types, h₁.alike.trans h₂.alike, h₂.scopes.trans h₁.scopes⟩

lemma symm (h : Repositioned tables tables') : Repositioned tables' tables :=
  ⟨h.types.symm, h.alike.symm, h.scopes.symm⟩

lemma eq (h : Repositioned tables tables') : tables' = ⟨tables.types, tables'.symbols⟩ := by
  rw [← h.types]

lemma complete (h : Repositioned tables tables') (complete : tables.Complete) :
    tables'.Complete := by
  rw [h.eq]
  exact complete.congr h.alike h.scopes

lemma compilable (h : Repositioned tables tables') {owner : Option SymbolId}
    {function : Function} (hfunction : Compilable tables owner function) :
    Compilable tables' owner function := by
  rw [h.eq]
  exact hfunction.congr h.alike

/-- Functions keep their names. -/
lemma functionName (h : Repositioned tables tables') {loc : Location} {id : SymbolId}
    (hid : tables.symbols.HasSort .function id) :
    Lowering.functionName tables'.symbols loc (some id) = .ok (tables.symbols.nameOf id) := by
  obtain ⟨symbol, hget, -⟩ := hid
  obtain ⟨symbol', hget', heq⟩ := h.alike.entry hget
  simp [Lowering.functionName, SymbolTable.nameOf, SymbolTable.get_eq_ok_iff.mpr hget', hget,
    Symbol.name_eq heq, bind, Except.bind, pure, Except.pure]

end Repositioned

lemma Repositioned.signed {tables tables' : Tables} (h : Repositioned tables tables')
    (hsigned : Signed tables) : Signed tables' := by
  intro i symbol params prototyped external hget hkind
  obtain ⟨old, hold, heq⟩ := h.alike.symm.entry hget
  rw [h.types]
  exact hsigned hold (Symbol.kind_eq_of_function heq hkind)

/-- The routine is the code of the function, generated from tables that differ from `tables` in
places only. -/
def IsCodeOf (tables : Tables) (unit : Program.Owned) (routine : Routine) : Prop :=
  ∃ placed used next code, Repositioned tables placed ∧
    Compiled placed unit.1 unit.2 used next code ∧ routine = ⟨unit.2.name, code.lines⟩

lemma IsCodeOf.of_repositioned {tables tables' : Tables} (h : Repositioned tables tables')
    {unit : Program.Owned} {routine : Routine} (hcode : IsCodeOf tables' unit routine) :
    IsCodeOf tables unit routine := by
  obtain ⟨placed, used, next, code, hplaced, hrest⟩ := hcode
  exact ⟨placed, used, next, code, h.trans hplaced, hrest⟩

/-- When the frame of a function is laid out, code for its body can be generated. -/
lemma placeAll_ready {ws : Workspace} {owner : Option SymbolId} {function : Function}
    (complete : ws.toTables.Complete) (signed : Signed ws.toTables)
    (h : Compilable ws.toTables owner function) : ∃ used symbols,
      placeAll 0 function.variables ws = .ok (used % wordCount) { ws with symbols } ∧
      Repositioned ws.toTables ⟨ws.types, symbols⟩ ∧ Ready ⟨ws.types, symbols⟩ owner ∧
      (⟨ws.types, symbols⟩ : Tables).Laid 0 function.variables used := by
  have hvariable : ∀ id ∈ function.variables, ws.symbols.HasSort .localVar id :=
    fun id hid => (h.mem_variables.mp hid).hasSort
  have hnodup : function.variables.Nodup := h.locals ▸ ws.symbols.locals_nodup owner
  obtain ⟨used, symbols, hrun, hplaced, hlaid⟩ := placeAll_run complete hvariable hnodup 0
  have hsame : Repositioned ws.toTables ⟨ws.types, symbols⟩ := ⟨rfl, hplaced.alike, hplaced.scopes⟩
  refine ⟨used, symbols, hrun, hsame, ⟨hsame.complete complete, ?_, hsame.signed signed⟩, hlaid⟩
  intro id hid
  exact hlaid.offset ((hsame.compilable h).mem_variables.mpr hid)

/-- Adding a function meets no defect, and adds one routine. -/
lemma addFunction_safe {ws : Workspace} {assembly : Assembly} {owner : Option SymbolId}
    {function : Function} (complete : ws.toTables.Complete) (signed : Signed ws.toTables)
    (h : Compilable ws.toTables owner function) :
    Safe (addFunction assembly function) ws fun assembly' ws' =>
      Repositioned ws.toTables ws'.toTables ∧ ∃ routine,
        IsCodeOf ws.toTables (owner, function) routine ∧
        assembly'.routines = assembly.routines ++ [routine] := by
  obtain ⟨used, symbols, hrun, hsame, hready, hlaid⟩ := placeAll_ready complete signed h
  have hcompilable := hsame.compilable h
  unfold addFunction
  split
  · trivial
  · rename_i hfits
    refine .ok_bind hrun ?_
    rw [frameSize_mod]
    refine .get (.run_bind (code_safe hready hcompilable) fun code hcode => ?_)
    refine .of_ok rfl ⟨hsame, ⟨function.name, code.lines⟩, ?_, rfl⟩
    exact ⟨⟨ws.types, symbols⟩, used, assembly.labels, code, hsame,
      ⟨hcompilable, hready, hlaid, Nat.le_of_not_lt hfits, hcode⟩, rfl⟩

/-! ## Code for programs -/

variable {program : Program} {tables : Tables}

/-- The signatures of an analyzed program were checked where the functions are declared. -/
lemma signed_of_analyzed (h : program.Analyzed tables) : Signed tables := by
  intro i symbol params prototyped external hget hkind
  have hhas : tables.symbols.HasSort .function ⟨i⟩ := ⟨symbol, hget, by rw [hkind]; rfl⟩
  obtain ⟨node, hnode, hfunction⟩ := h.functions ⟨i⟩ hhas
  obtain ⟨item, hitem, hnode⟩ := Node.mem_checkOrderAll.mp hnode
  have hrule := ((h.checked item hitem).accepted node hnode).rule
  have hsymbol : tables.symbols.get ⟨i⟩ = .ok symbol := SymbolTable.get_eq_ok_iff.mpr hget
  cases node with
  | functionDef loc symbol? params' body =>
    exact (hrule ⟨i⟩ hfunction symbol hsymbol params prototyped external hkind).1
  | externDecl loc symbol? =>
    exact (hrule ⟨i⟩ hfunction symbol hsymbol params prototyped external hkind).1
  | _ => simp [Node.function?] at hfunction

/-- A function of the top level can be compiled. -/
lemma compilable_of_definition (h : program.Analyzed tables) {loc : Location} {f : SymbolId}
    {params : List SymbolId} {body : List Node} (name : String)
    (hitem : .functionDef loc (some f) params body ∈ program.items) :
    Compilable tables (some f) ⟨name, loc, params, body, false⟩ where
  checked _ hnode := (h.checked _ hitem).part hnode
  flat := (h.checked _ hitem).fits.flat
  locals := h.frames (Node.mem_checkOrderAll.mpr ⟨_, hitem, Node.self_mem_checkOrder _⟩)

/-- What is no statement declares nothing. -/
lemma declaredAll_statements (program : Program) :
    Node.declaredAll program.statements = Node.declaredAll program.items := by
  unfold Program.statements
  induction program.items with
  | nil => rfl
  | cons item rest ih =>
    by_cases hitem : item.isStatement = true
    · rw [List.filter_cons_of_pos hitem, Node.declaredAll_cons, Node.declaredAll_cons, ih]
    · rw [List.filter_cons_of_neg hitem, Node.declaredAll_cons, ih]
      cases item <;> first | rfl | simp [Node.isStatement] at hitem

/-- So can the statements of the top level. -/
lemma compilable_of_start (h : program.Analyzed tables) :
    Compilable tables program.start.1 program.start.2 where
  checked node hnode := h.checked node (List.mem_filter.mp hnode).1
  flat node hnode := by
    have := (List.mem_filter.mp hnode).2
    cases node <;> first | rfl | simp [Node.isStatement] at this
  locals := by
    simp only [Program.start, Function.variables, List.nil_append]
    rw [h.globals, declaredAll_statements]

/-- Adding the items of a program meets no defect, and adds one routine for each function. -/
lemma addItems_safe (h : program.Analyzed tables) {ws : Workspace} {assembly : Assembly}
    {items : List Node} (hitems : ∀ item ∈ items, item ∈ program.items)
    (hsame : Repositioned tables ws.toTables) :
    Safe (addItems assembly items) ws fun assembly' ws' => Repositioned tables ws'.toTables ∧
      ∃ routines, assembly'.routines = assembly.routines ++ routines ∧
        List.Forall₂ (IsCodeOf tables) (items.filterMap (Program.definition? tables.symbols))
          routines := by
  induction items generalizing ws assembly with
  | nil => exact .pure ⟨hsame, [], by simp, .nil⟩
  | cons item rest ih =>
    have hrest : ∀ item ∈ rest, item ∈ program.items := fun n hn => hitems n (by simp [hn])
    have hchecked := h.checked item (hitems item (by simp))
    -- Items other than functions add no routine.
    have hskip : ∀ assembly' : Assembly, assembly'.routines = assembly.routines →
        Program.definition? tables.symbols item = none →
        Safe (addItems assembly' rest) ws fun assembly' ws' =>
          Repositioned tables ws'.toTables ∧ ∃ routines,
            assembly'.routines = assembly.routines ++ routines ∧ List.Forall₂ (IsCodeOf tables)
              ((item :: rest).filterMap (Program.definition? tables.symbols)) routines := by
      intro assembly' hroutines hnone
      rw [List.filterMap_cons_none hnone, ← hroutines]
      exact ih hrest hsame
    unfold addItems
    refine .get ?_
    cases item with
    | externDecl loc symbol? =>
      obtain ⟨id, rfl⟩ := Option.ne_none_iff_exists'.mp hchecked.fits.named
      refine .promised_bind (hsame.functionName (hchecked.valid.self id rfl)) ?_
      exact hskip _ rfl rfl
    | functionDef loc symbol? params body =>
      obtain ⟨f, rfl⟩ := Option.ne_none_iff_exists'.mp hchecked.fits.named
      refine .promised_bind (hsame.functionName (hchecked.valid.self.1 f rfl)) ?_
      have hitem := hitems (.functionDef loc (some f) params body) (by simp)
      have hcompilable := hsame.compilable
        (compilable_of_definition h (tables.symbols.nameOf f) hitem)
      refine .bind (addFunction_safe (hsame.complete h.complete)
        (hsame.signed (signed_of_analyzed h)) hcompilable) ?_
      rintro assembly₁ ws₁ ⟨hsame₁, routine, hcode, hroutines₁⟩
      refine (ih hrest (hsame.trans hsame₁)).imp ?_
      rintro assembly₂ ws₂ ⟨hsame₂, routines, hroutines₂, hall⟩
      refine ⟨hsame₂, routine :: routines, ?_, ?_⟩
      · rw [hroutines₂, hroutines₁, List.append_assoc, List.singleton_append]
      · simp only [List.filterMap_cons, Program.definition?]
        exact .cons (hcode.of_repositioned hsame) hall
    | _ => exact hskip assembly rfl rfl

/-- A routine has the name of its function. -/
lemma any_name_eq {units : List Program.Owned} {routines : List Routine}
    (h : List.Forall₂ (IsCodeOf tables) units routines) (name : String) :
    routines.any (·.name = name) = units.any (·.2.name = name) := by
  induction h with
  | nil => rfl
  | @cons unit routine units routines hcode hall ih =>
    obtain ⟨-, -, -, -, -, -, rfl⟩ := hcode
    simp only [List.any_cons, ih]

/-- Generating code for an analyzed program meets no defect, and makes one routine for each of its
functions. -/
theorem generate_safe {ws : Workspace} (h : program.Analyzed ws.toTables) :
    Safe (generate program) ws fun assembly _ =>
      List.Forall₂ (IsCodeOf ws.toTables) (program.functions ws.symbols) assembly.routines := by
  refine (addItems_safe h (fun _ hitem => hitem) (.refl _)).bind ?_
  rintro assembly ws₁ ⟨hsame, routines, hroutines, hall⟩
  rw [show ({} : Assembly).routines = [] from rfl, List.nil_append] at hroutines
  subst hroutines
  have hmain := any_name_eq hall "main"
  -- what is left is an entry of the log, which changes no routine
  have hfinish : ∀ (assembly' : Assembly) (ws' : Workspace),
      List.Forall₂ (IsCodeOf ws.toTables) (program.functions ws.symbols) assembly'.routines →
      Safe (do CompileM.log (.emitted assembly'.textLines.length assembly'.labels)
               return assembly') ws' fun assembly _ =>
        List.Forall₂ (IsCodeOf ws.toTables) (program.functions ws.symbols) assembly.routines :=
    fun assembly' ws' h => h
  split
  · rename_i hany
    refine hfinish assembly ws₁ ?_
    rw [hmain] at hany
    simpa [Program.functions, Program.definitions, hany] using hall
  · rename_i hany
    refine (addFunction_safe (hsame.complete h.complete) (hsame.signed (signed_of_analyzed h))
      (hsame.compilable (compilable_of_start h))).bind ?_
    rintro assembly₁ ws₂ ⟨-, routine, hcode, hroutines⟩
    refine hfinish assembly₁ ws₂ ?_
    rw [hmain] at hany
    rw [hroutines]
    simp only [Program.functions, Program.definitions, hany]
    exact List.rel_append hall (.cons (hcode.of_repositioned hsame) .nil)

end Lowering

end ParenC
