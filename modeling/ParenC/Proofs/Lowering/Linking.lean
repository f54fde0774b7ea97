/-
Which function a call reaches.

Scopes keep functions of the same name apart, but a call in assembly has nothing but the name: it
reaches the routine with that name if the program has one.  Functions are only defined in the global
scope, so no two routines share a name, and a call of a function that the program defines reaches
it.  A function from elsewhere can be declared in any scope.  If its name is that of a routine, the
call is checked against the declaration and reaches the routine.
-/
import Mathlib.Data.List.Lattice
import Mathlib.Data.List.Nodup
import Mathlib.Data.List.Pairwise
import ParenC.Proofs.Lowering.Limits
import ParenC.Proofs.Lowering.Routine

namespace ParenC

open Lowering

/-! ## Regions in the text of a program -/

namespace Mark

/-- The marks end the regions that they begin, and no others. -/
def Balanced (marks : List Mark) : Prop := ∀ depth, depthAfter depth marks = some depth

namespace Balanced

variable {mark : Mark} {marks xs ys : List Mark}

lemma nil : Balanced [] := fun _ => rfl

lemma append (hxs : Balanced xs) (hys : Balanced ys) : Balanced (xs ++ ys) := by
  intro depth
  have hfirst := hxs depth
  unfold depthAfter at hfirst
  rw [depthAfter, List.foldlM_append, hfirst]
  exact hys depth

lemma cons (hmark : ∀ depth, depthStep depth mark = some depth) (h : Balanced marks) :
    Balanced (mark :: marks) := by
  intro depth
  rw [depthAfter, List.foldlM_cons, hmark depth]
  exact h depth

lemma word {kind : TokenKind} {text : String} (h : Balanced marks) :
    Balanced (.word kind text :: marks) := cons (fun _ => rfl) h

lemma keyword {text : String} (h : Balanced marks) : Balanced (.keyword text :: marks) := word h

lemma mention {name : String} {meaning : Meaning} (h : Balanced marks) :
    Balanced (.mention name meaning :: marks) := cons (fun _ => rfl) h

lemma declare {name : String} {id : SymbolId} (h : Balanced marks) :
    Balanced (.declare name id :: marks) := cons (fun _ => rfl) h

lemma bracket (h : Balanced marks) : Balanced (bracket marks) := word (h.append (word nil))

lemma region (h : Balanced marks) : Balanced (region marks) := by
  intro depth
  have hinner := h (depth + 1)
  unfold depthAfter at hinner
  rw [depthAfter, Mark.region, List.foldlM_cons]
  simp [depthStep, hinner]

lemma bindings {type : TypeId → List Mark} (h : ∀ id, Balanced (type id))
    (bound : List (String × TypeId)) : Balanced (bindings type bound) := by
  induction bound with
  | nil => exact nil
  | cons pair rest ih => exact word (word ((h pair.2).append ih))

end Balanced

end Mark

open Mark

lemma TypeTable.marks_balanced (table : TypeTable) (id : TypeId) : Balanced (table.marks id) := by
  have hwithin : ∀ levels id, Balanced (table.marksWithin levels id) := by
    intro levels
    induction levels with
    | zero => exact fun _ => .nil
    | succ levels ih =>
      intro id
      rw [marksWithin]
      split
      · exact .nil
      · exact .word .nil
      · exact .mention .nil
      · exact .bracket (.keyword (.bindings ih _))
  exact hwithin table.size id

lemma Tables.signature_balanced (tables : Tables) (id : SymbolId) (declared : List SymbolId) :
    Balanced (tables.signature id declared) := by
  have hdeclared : Balanced (declared.map tables.symbols.declaration) := by
    induction declared with
    | nil => exact .nil
    | cons id rest ih => exact .declare ih
  unfold signature
  split
  · exact .nil
  · refine .append (.bracket (.bindings tables.types.marks_balanced _)) ?_
    exact hdeclared.append (tables.types.marks_balanced _)

namespace Node

mutual

/-- A construct ends the regions that it begins. -/
lemma marks_balanced (tables : Tables) (node : Node) : Balanced (node.marks tables) := by
  match node with
  | integer _ _ | boolean _ _ => exact .word .nil
  | varRef _ (some _) => exact .mention .nil
  | empty _ => exact .bracket .nil
  | returnVoid _ _ => exact .bracket (.keyword .nil)
  | varDecl _ none | varRef _ none | externDecl _ none | typedefDecl _ none | call _ none _
  | functionDef _ none _ _ => exact .nil
  | varDecl _ (some id) =>
    exact .bracket (.keyword ((tables.types.marks_balanced _).append (.word (.declare .nil))))
  | externDecl _ (some id) =>
    exact .bracket (.keyword (.word (.declare (tables.signature_balanced id []))))
  | typedefDecl _ (some id) =>
    refine .bracket (.keyword (.word (.append ?_ (.declare .nil))))
    cases tables.types.target? (tables.symbols.typeOf id) with
    | none => exact .nil
    | some target => exact tables.types.marks_balanced target
  | binary _ op lhs rhs =>
    exact .bracket (.word ((marks_balanced tables lhs).append (marks_balanced tables rhs)))
  | block _ body => exact .bracket (.region (marksAll_balanced tables body))
  | functionDef _ (some id) params body =>
    refine .bracket (.keyword (.word (.declare (.region ?_))))
    exact (tables.signature_balanced id params).append (marksAll_balanced tables body)
  | call _ (some id) args => exact .bracket (.mention (marksAll_balanced tables args))
  | ifThen _ cond body | whileLoop _ cond body =>
    refine .bracket (.keyword ((marks_balanced tables cond).append ?_))
    exact .region (marksAll_balanced tables body)
  | ifElse _ cond thenBody elseBody =>
    refine .bracket (.keyword ((marks_balanced tables cond).append ?_))
    refine .append (.region (marksAll_balanced tables thenBody)) ?_
    exact .bracket (.keyword (.region (marksAll_balanced tables elseBody)))
  | forLoop _ init cond step body =>
    refine .bracket (.keyword (.region ((marks_balanced tables init).append ?_)))
    refine (marks_balanced tables cond).append ?_
    exact (marks_balanced tables step).append (marksAll_balanced tables body)
  | cast _ target operand =>
    exact .bracket ((tables.types.marks_balanced target).append (marks_balanced tables operand))
  | returnValue _ value _ => exact .bracket (.keyword (marks_balanced tables value))

lemma marksAll_balanced (tables : Tables) (nodes : List Node) :
    Balanced (marksAll tables nodes) := by
  match nodes with
  | [] => exact .nil
  | node :: rest => exact (marks_balanced tables node).append (marksAll_balanced tables rest)

end

lemma marksAll_append (tables : Tables) (xs ys : List Node) :
    marksAll tables (xs ++ ys) = marksAll tables xs ++ marksAll tables ys := by
  induction xs with
  | nil => rfl
  | cons node rest ih => rw [List.cons_append, marksAll_cons, ih, marksAll_cons, List.append_assoc]

end Node

/-! ## Names of functions -/

namespace Program

variable {program : Program} {tables : Tables}

/-- At the end of a program the functions that it defines are declared in the global scope. -/
lemma inEffect_of_definition {loc : Location} {f : SymbolId} {params : List SymbolId}
    {body : List Node} (h : .functionDef loc (some f) params body ∈ program.items) :
    InEffect (program.marks tables) (tables.symbols.nameOf f) f 0 := by
  obtain ⟨before, after, hitems⟩ := List.append_of_mem h
  let inner := region (tables.signature f params ++ Node.marksAll tables body)
  refine ⟨Node.marksAll tables before ++
    [word .lparen "(", keyword "defun", tables.symbols.introduce f],
    inner ++ [word .rparen ")"] ++ Node.marksAll tables after, ?_, ?_⟩
  · simp [Program.marks, hitems, Node.marksAll_append, Node.marks, bracket, inner,
      SymbolTable.declaration]
  · have hinner : Balanced inner :=
      .region ((tables.signature_balanced f params).append (Node.marksAll_balanced tables body))
    exact (hinner.append (.word .nil)).append (Node.marksAll_balanced tables after) 0

/-- What the names of the functions of a program are good for. -/
structure Named (program : Program) (tables : Tables) : Prop where
  /-- A symbol is introduced by one node. -/
  introduced : (Node.introducedAll program.items).Nodup
  /-- A name is in effect once in the global scope. -/
  global : ∀ {name f g}, InEffect (program.marks tables) name f 0 →
    InEffect (program.marks tables) name g 0 → f = g

/-- What analysis has read has the tokens of the text. -/
lemma writes_of_analyze {file source : String} {ws : Workspace}
    (h : analyze source (.initial file) = .ok program ws) : ∃ body loc ws₀ ws₁ ws₂,
      CompileM.tokenize source (.initial file) = .ok (body ++ [Token.eof loc]) ws₀ ∧
      ws₁.toTables = {} ∧ Reading.program (body ++ [Token.eof loc]) ws₁ = .ok program ws₂ ∧
      ws.toTables = ws₂.toTables ∧ Reading.After ws.toTables ws₂ ∧
      Reading.Writes ws₁ (body.map Token.face) (fun tables => program.marks tables) ws₂ := by
  obtain ⟨tokens, ws₀, ws₁, ws₂, htokens, hfresh, hprogram, hquiet, htables, -⟩ :=
    reads_of_analyze h
  obtain ⟨body, loc, rfl, -, -, hbody⟩ := tokenize_eq_ok htokens
  have sound : ws₁.toTables.Sound := hfresh ▸ Tables.sound_initial
  have hglobal : ws₁.symbols.enclosing = [] := congrArg (·.symbols.enclosing) hfresh
  obtain ⟨hgrows, hspells⟩ := (Reading.program_spells hbody loc sound hglobal).run hprogram
  have hwrites := hspells hquiet (hfresh ▸ Tables.labelled_initial)
  refine ⟨body, loc, ws₀, ws₁, ws₂, htokens, hfresh, hprogram, htables, ?_, hwrites⟩
  rw [htables]
  exact ⟨(hgrows.sound sound).types, .refl _⟩

/-- Symbols are introduced one after the other. -/
lemma introduced_sorted {file source : String} {ws : Workspace}
    (h : analyze source (.initial file) = .ok program ws) :
    (Node.introducedAll program.items).Pairwise (·.index < ·.index) := by
  obtain ⟨tokens, ws₀, ws₁, ws₂, -, -, hprogram, -⟩ := reads_of_analyze h
  exact ((Reading.program_records tokens).run hprogram).2.2.1.ordered

/-- Analysis gives the names of functions out once. -/
lemma Named.of_analyze {file source : String} {ws : Workspace}
    (h : analyze source (.initial file) = .ok program ws) : program.Named ws.toTables := by
  obtain ⟨body, loc, ws₀, ws₁, ws₂, -, hfresh, -, -, hafter, hwrites⟩ :=
    writes_of_analyze h
  have hwalk := hwrites.walk hafter
  have hstart : Reading.scoping ws₁ = .initial := by
    simp only [Reading.scoping, congrArg Tables.symbols hfresh]
    rfl
  rw [hstart] at hwalk
  have hknows := Scoping.knows_initial.walk hwalk
  refine ⟨?_, ?_⟩
  · refine (introduced_sorted h).imp ?_
    rintro a _ hlt rfl
    exact Nat.lt_irrefl _ hlt
  · exact fun hf hg => hknows.unique hg hf

namespace Named

variable {loc loc' : Location} {f g : SymbolId} {params params' : List SymbolId}
  {body body' : List Node}

/-- No two functions are defined under the same name. -/
lemma eq_of_name (h : program.Named tables)
    (hf : .functionDef loc (some f) params body ∈ program.items)
    (hg : .functionDef loc' (some g) params' body' ∈ program.items)
    (hname : tables.symbols.nameOf f = tables.symbols.nameOf g) : f = g := by
  refine h.global (inEffect_of_definition hf) ?_
  rw [hname]
  exact inEffect_of_definition hg

/-- No function is defined and declared as one from elsewhere. -/
lemma not_externDecl (h : program.Named tables)
    (hf : .functionDef loc (some f) params body ∈ program.items) :
    .externDecl loc' (some f) ∉ Node.checkOrderAll program.items := by
  intro hextern
  have hdefined : .functionDef loc (some f) params body ∈ Node.checkOrderAll program.items :=
    Node.mem_checkOrderAll.mpr ⟨_, hf, Node.self_mem_checkOrder _⟩
  have hsymm : Std.Symm (Function.onFun List.Disjoint Node.introduced) :=
    ⟨fun _ _ hdisjoint => List.Disjoint.symm hdisjoint⟩
  have hdisjoint := (List.nodup_flatMap.mp h.introduced).2.forall hdefined hextern (by simp)
  exact hdisjoint (a := f) (by simp [Node.introduced]) (by simp [Node.introduced])

end Named

/-! ## Calls -/

/-- Where the name of the function is the name of a routine, the routine is that of the function.
The routines are those of the functions of the program, one by one. -/
def Reaches (program : Program) (symbols : SymbolTable) (routines : List Routine) (f : SymbolId) :
    Prop :=
  ∀ pair ∈ (program.functions symbols).zip routines,
    pair.2.name = symbols.nameOf f → pair.1.1 = some f

instance {program : Program} {symbols : SymbolTable} {routines : List Routine} {f : SymbolId} :
    Decidable (program.Reaches symbols routines f) := by
  unfold Reaches
  infer_instance

/-- The function is declared as one from elsewhere, in whatever scope. -/
def Imports (program : Program) (f : SymbolId) : Prop :=
  ∃ loc, .externDecl loc (some f) ∈ Node.checkOrderAll program.items

/-- The program has a routine with the name of the function: there always is one called `main`. -/
def Occupies (program : Program) (symbols : SymbolTable) (f : SymbolId) : Prop :=
  symbols.nameOf f = "main" ∨ ∃ loc g params body,
    .functionDef loc (some g) params body ∈ program.items ∧ symbols.nameOf g = symbols.nameOf f

/-- A function for which code is generated is defined by the program, or is its start if no function
is called `main`. -/
lemma mem_functions {symbols : SymbolTable} {unit : Owned} :
    unit ∈ program.functions symbols ↔ unit ∈ program.definitions symbols ∨
      unit = program.start ∧ ∀ other ∈ program.definitions symbols, other.2.name ≠ "main" := by
  unfold functions
  rw [List.mem_append]
  refine or_congr Iff.rfl ?_
  split
  · rename_i hmain
    obtain ⟨other, hother, hname⟩ := List.any_eq_true.mp hmain
    refine iff_of_false (by simp) ?_
    rintro ⟨-, hnone⟩
    exact hnone other hother (of_decide_eq_true hname)
  · rename_i hmain
    simp only [List.any_eq_true, decide_eq_true_eq, not_exists, not_and] at hmain
    rw [List.mem_singleton, and_iff_left hmain]

/-- There is a function called `main`. -/
lemma exists_main (program : Program) (symbols : SymbolTable) :
    ∃ unit ∈ program.functions symbols, unit.2.name = "main" := by
  by_cases hdefined : ∃ unit ∈ program.definitions symbols, unit.2.name = "main"
  · obtain ⟨unit, hunit, hname⟩ := hdefined
    exact ⟨unit, mem_functions.mpr (Or.inl hunit), hname⟩
  · push Not at hdefined
    exact ⟨program.start, mem_functions.mpr (Or.inr ⟨rfl, hdefined⟩), rfl⟩

/-- A program has a routine with the name of a function just if it has a function with that name. -/
lemma occupies_iff {symbols : SymbolTable} {f : SymbolId} : program.Occupies symbols f ↔
    ∃ unit ∈ program.functions symbols, unit.2.name = symbols.nameOf f := by
  constructor
  · rintro (hmain | ⟨loc, g, params, body, hitem, hname⟩)
    · obtain ⟨unit, hunit, hname⟩ := program.exists_main symbols
      exact ⟨unit, hunit, hname.trans hmain.symm⟩
    · exact ⟨_, mem_functions.mpr (Or.inl (mem_definitions.mpr
        ⟨loc, g, params, body, hitem, rfl⟩)), hname⟩
  · rintro ⟨unit, hunit, hname⟩
    rcases mem_functions.mp hunit with hdefined | ⟨rfl, -⟩
    · obtain ⟨loc, g, params, body, hitem, rfl⟩ := mem_definitions.mp hdefined
      exact Or.inr ⟨loc, g, params, body, hitem, hname⟩
    · exact Or.inl hname.symm

/-- Among functions of the same name, just the one that is defined under it has a routine. -/
lemma Named.eq_of_functions (h : program.Named tables) {unit : Owned} {loc : Location}
    {f : SymbolId} {params : List SymbolId} {body : List Node}
    (hf : .functionDef loc (some f) params body ∈ program.items)
    (hunit : unit ∈ program.functions tables.symbols)
    (hname : unit.2.name = tables.symbols.nameOf f) : unit.1 = some f := by
  rcases mem_functions.mp hunit with hdefined | ⟨rfl, hmain⟩
  · obtain ⟨loc', g, params', body', hg, rfl⟩ := mem_definitions.mp hdefined
    rw [h.eq_of_name hg hf hname]
  · refine absurd hname.symm (hmain (some f, ⟨_, loc, params, body, false⟩) ?_)
    exact mem_definitions.mpr ⟨loc, f, params, body, hf, rfl⟩

end Program

/-- The function that is called, if the node is a call. -/
def Node.callee? : Node → Option SymbolId
  | call _ callee? _ => callee?
  | _ => none

lemma Lowering.Counted.mem_callSequence (depth : Nat) (name : String) (returnsBool : Bool) :
    .call name ∈ callSequence depth name returnsBool := by
  simp only [callSequence, padded, List.mem_append]
  refine Or.inl (Or.inl ?_)
  split <;> simp

/-- The code of a call asks for the function by its name. -/
lemma Lowering.IsCodeOf.calls {tables : Tables} {unit : Program.Owned} {routine : Routine}
    (h : IsCodeOf tables unit routine) {run : Nat × Node} (hrun : run ∈ unit.2.runs)
    {f : SymbolId} (hcallee : run.2.callee? = some f) :
    .instr (.call (tables.symbols.nameOf f)) ∈ routine.lines := by
  obtain ⟨placed, used, next, code, hplaced, hcompiled, rfl⟩ := h
  obtain ⟨part, hpart, hwithin⟩ := Function.runs_emitted hcompiled.code run hrun
  obtain ⟨depth, node⟩ := run
  cases node with
  | call loc callee? args =>
    obtain rfl : callee? = some f := hcallee
    cases hpart with
    | call arguments target typed resolved =>
      rename_i symbol _ root
      obtain ⟨old, hold, heq⟩ := hplaced.alike.symm.entry (SymbolTable.get_eq_ok_iff.mp target)
      have hname : tables.symbols.nameOf f = symbol.name := by
        simp [SymbolTable.nameOf, hold, Symbol.name_eq heq]
      refine hwithin.subset (List.mem_map_of_mem ?_)
      rw [hname, Counted.erase, List.map_append, List.mem_append]
      have hcall := Counted.mem_callSequence depth symbol.name (root = Builtin.bool.id)
      exact Or.inr (List.mem_map.mpr ⟨(depth, _), List.mem_map_of_mem hcall, rfl⟩)
    | load isStorage source => simp [Node.isStorage] at isStorage
  | _ => simp [Node.callee?] at hcallee

/-- In a program that is analyzed and compiled, a call asks for its function by name, and it reaches
that function unless the function is declared as one from elsewhere and the program has a routine
with its name. -/
theorem reaches_iff {file source : String} {program : Program} {ws ws' : Workspace}
    {assembly : Assembly} (hanalyze : analyze source (.initial file) = .ok program ws)
    (hgenerate : generate program ws = .ok assembly ws') :
    (∀ pair ∈ (program.functions ws.symbols).zip assembly.routines,
      IsCodeOf ws.toTables pair.1 pair.2 ∧ ∀ run ∈ pair.1.2.runs, ∀ f ∈ run.2.callee?,
        .instr (.call (ws.symbols.nameOf f)) ∈ pair.2.lines) ∧
    ∀ node ∈ Node.checkOrderAll program.items, ∀ f ∈ node.callee?,
      (program.Reaches ws.symbols assembly.routines f ↔
        ¬ (program.Imports f ∧ program.Occupies ws.symbols f)) := by
  obtain ⟨h, -⟩ := Program.Accepted.of_analyze hanalyze
  have hnamed := Program.Named.of_analyze hanalyze
  obtain ⟨hlength, hcode⟩ := List.forall₂_iff_zip.mp (generated_routines hanalyze hgenerate)
  have hname : ∀ {unit routine}, (unit, routine) ∈
      (program.functions ws.symbols).zip assembly.routines → routine.name = unit.2.name := by
    intro unit routine hpair
    obtain ⟨-, -, -, -, -, -, rfl⟩ := hcode hpair
    rfl
  refine ⟨fun pair hpair => ⟨hcode hpair, fun run hrun f hf => (hcode hpair).calls hrun hf⟩, ?_⟩
  intro node hnode f hf
  have hsort : ws.symbols.HasSort .function f := by
    obtain ⟨owner, hholds⟩ := Program.exists_holds hnode
    have hvalid := (h.checked_of_holds hholds).valid.self
    cases node with
    | call loc callee? args => exact hvalid f hf
    | _ => simp [Node.callee?] at hf
  constructor
  · rintro hreaches ⟨⟨loc, hextern⟩, hoccupies⟩
    -- the routine of that name would have to be that of the function itself, which has none
    obtain ⟨unit, hunit, hunitName⟩ := Program.occupies_iff.mp hoccupies
    obtain ⟨routine, hpair⟩ : ∃ routine, (unit, routine) ∈
        (program.functions ws.symbols).zip assembly.routines := by
      rw [← List.map_fst_zip (Nat.le_of_eq hlength), List.mem_map] at hunit
      obtain ⟨⟨unit, routine⟩, hpair, rfl⟩ := hunit
      exact ⟨routine, hpair⟩
    have howner : unit.1 = some f := hreaches _ hpair ((hname hpair).trans hunitName)
    rcases Program.mem_functions.mp hunit with hdefined | ⟨rfl, -⟩
    · obtain ⟨loc', g, params, body, hitem, rfl⟩ := Program.mem_definitions.mp hdefined
      cases howner
      exact hnamed.not_externDecl hitem hextern
    · cases howner
  · rintro hnone ⟨unit, routine⟩ hpair hroutine
    have hunit := (List.of_mem_zip hpair).1
    have hunitName : unit.2.name = ws.symbols.nameOf f := (hname hpair).symm.trans hroutine
    -- the function is declared somewhere: as one of the program or as one from elsewhere
    obtain ⟨declaration, hdeclaration, hfunction⟩ := h.functions f hsort
    cases declaration with
    | functionDef loc symbol? params body =>
      obtain rfl : symbol? = some f := hfunction
      exact hnamed.eq_of_functions (h.mem_items_of_isFunction hdeclaration rfl) hunit hunitName
    | externDecl loc symbol? =>
      obtain rfl : symbol? = some f := hfunction
      exact absurd ⟨⟨loc, hdeclaration⟩, Program.occupies_iff.mpr ⟨unit, hunit, hunitName⟩⟩ hnone
    | _ => simp [Node.function?] at hfunction

/-- Functions that the program defines and functions from elsewhere call each other. -/
theorem reaches_iff_recursive : ∃ program ws assembly ws',
    analyze ("(exfun puts (n: u64) s64) (defun even (n: u64) bool (exfun odd (n: u64) bool) " ++
        "(return (odd n))) (puts (u64 (even 4u)))") (.initial "recursive") = .ok program ws ∧
    generate program ws = .ok assembly ws' ∧
    (∃ node ∈ Node.checkOrderAll program.items, node.callee? ≠ none) ∧
    ∀ node ∈ Node.checkOrderAll program.items, ∀ f ∈ node.callee?,
      (program.Reaches ws.symbols assembly.routines f ↔
        ¬ (program.Imports f ∧ program.Occupies ws.symbols f)) := by
  have hcompiles : compilesAnd "recursive"
      ("(exfun puts (n: u64) s64) (defun even (n: u64) bool (exfun odd (n: u64) bool) " ++
        "(return (odd n))) (puts (u64 (even 4u)))")
      (fun program _ _ => ∃ node ∈ Node.checkOrderAll program.items, node.callee? ≠ none) =
        true := by
    decide +kernel
  obtain ⟨program, ws, assembly, ws', hanalyze, hgenerate, hcalls⟩ := runs_of_compilesAnd hcompiles
  exact ⟨program, ws, assembly, ws', hanalyze, hgenerate, of_decide_eq_true hcalls,
    (reaches_iff hanalyze hgenerate).2⟩

/-- A call is checked against a function from elsewhere and reaches one of the program. -/
theorem not_reaches_hidden : ∃ program ws assembly ws',
    analyze "((exfun f (a: s64) s64) (f 1)) (defun f () bool (return true))" (.initial "hidden") =
      .ok program ws ∧
    generate program ws = .ok assembly ws' ∧
    ∃ node ∈ Node.checkOrderAll program.items, ∃ f ∈ node.callee?,
      ¬ program.Reaches ws.symbols assembly.routines f := by
  have hcompiles : compilesAnd "hidden"
      "((exfun f (a: s64) s64) (f 1)) (defun f () bool (return true))"
      (fun program tables assembly => ∃ node ∈ Node.checkOrderAll program.items,
        ∃ f ∈ node.callee?, ¬ program.Reaches tables.symbols assembly.routines f) = true := by
    decide +kernel
  obtain ⟨program, ws, assembly, ws', hanalyze, hgenerate, hcall⟩ := runs_of_compilesAnd hcompiles
  exact ⟨program, ws, assembly, ws', hanalyze, hgenerate, of_decide_eq_true hcall⟩

end ParenC
