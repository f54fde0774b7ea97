/-
How the workspace may change while a program is read.

Reading only ever adds: types and symbols keep their numbers, a symbol keeps its sort, and the
scopes around the current one stay as they are.  The one change to a symbol that is already there
is the signature of a function, which is recorded after the name.  `Does` is the judgement in
which the actions of reading are specified: no run of the action meets a defect, every run keeps
the tables, and the runs that succeed establish a postcondition.
-/
import ParenC.Proofs.Types
import ParenC.Reading.Basic

namespace ParenC

/-! ## Symbols -/

/-- The symbol is a variable in the frame of `owner`. -/
def Symbol.isVariableOf (owner : Option SymbolId) (symbol : Symbol) : Bool :=
  match symbol.kind with
  | .localVar _ function => function = owner
  | _ => false

/-- A symbol changes at most by receiving a signature. -/
def Symbol.Grows (old new : Symbol) : Prop :=
  new = old ∨ (old.kind.sort = .function ∧ new.kind.sort = .function ∧ new.name = old.name ∧
    new.type? ≠ none)

lemma Symbol.Grows.refl (symbol : Symbol) : symbol.Grows symbol := Or.inl rfl

lemma Symbol.Grows.trans {a b c : Symbol} (h₁ : a.Grows b) (h₂ : b.Grows c) : a.Grows c := by
  rcases h₁ with rfl | ⟨hs, hs', hn, ht⟩
  · exact h₂
  · rcases h₂ with rfl | ⟨-, hs₂, hn₂, ht₂⟩
    · exact Or.inr ⟨hs, hs', hn, ht⟩
    · exact Or.inr ⟨hs, hs₂, hn₂.trans hn, ht₂⟩

lemma Symbol.Grows.sort_eq {old new : Symbol} (h : old.Grows new) :
    new.kind.sort = old.kind.sort := by
  rcases h with rfl | ⟨hs, hs', -⟩
  · rfl
  · rw [hs, hs']

lemma Symbol.Grows.name_eq {old new : Symbol} (h : old.Grows new) : new.name = old.name := by
  rcases h with rfl | ⟨-, -, hn, -⟩
  · rfl
  · exact hn

lemma Symbol.Grows.typed {old new : Symbol} (h : old.Grows new) (htyped : old.type? ≠ none) :
    new.type? ≠ none := by
  rcases h with rfl | ⟨-, -, -, ht⟩
  · exact htyped
  · exact ht

/-- Only functions change. -/
lemma Symbol.Grows.eq_of_sort_ne {old new : Symbol} (h : old.Grows new)
    (hsort : old.kind.sort ≠ .function) : new = old := by
  rcases h with rfl | ⟨hs, -⟩
  · rfl
  · exact absurd hs hsort

namespace SymbolTable

variable {symbols symbols' : SymbolTable}

/-- The table has a symbol of this sort under this number. -/
def HasSort (symbols : SymbolTable) (sort : SymbolSort) (id : SymbolId) : Prop :=
  ∃ symbol, symbols.entries[id.index]? = some symbol ∧ symbol.kind.sort = sort

/-- The table has a variable in the frame of `owner` under this number. -/
def HasVariable (symbols : SymbolTable) (owner : Option SymbolId) (id : SymbolId) : Prop :=
  ∃ symbol, symbols.entries[id.index]? = some symbol ∧ symbol.isVariableOf owner = true

/-- All symbols of one table are symbols of another one, under the same numbers. -/
def Extends (symbols' symbols : SymbolTable) : Prop :=
  ∀ ⦃i : Nat⦄ ⦃old : Symbol⦄, symbols.entries[i]? = some old →
    ∃ new, symbols'.entries[i]? = some new ∧ old.Grows new

lemma Extends.refl (symbols : SymbolTable) : symbols.Extends symbols :=
  fun _ old h => ⟨old, h, .refl old⟩

lemma Extends.trans {a b c : SymbolTable} (h₁ : c.Extends b) (h₂ : b.Extends a) :
    c.Extends a := by
  intro i old h
  obtain ⟨mid, hmid, hgrow⟩ := h₂ h
  obtain ⟨new, hnew, hgrow'⟩ := h₁ hmid
  exact ⟨new, hnew, hgrow.trans hgrow'⟩

lemma lt_size_of_getElem? {i : Nat} {symbol : Symbol}
    (h : symbols.entries[i]? = some symbol) : i < symbols.size :=
  (Array.getElem?_eq_some_iff.mp h).1

lemma Extends.size_le (h : symbols'.Extends symbols) : symbols.size ≤ symbols'.size := by
  rcases Nat.eq_zero_or_pos symbols.size with h0 | hpos
  · omega
  · have hlast : symbols.size - 1 < symbols.entries.size := by
      simp only [size] at *
      omega
    obtain ⟨new, hnew, -⟩ := h (Array.getElem?_eq_getElem hlast)
    have := lt_size_of_getElem? hnew
    omega

/-- The symbol at an old place comes from the old symbol there. -/
lemma Extends.old_of_new (h : symbols'.Extends symbols) {i : Nat} (hi : i < symbols.size)
    {new : Symbol} (hnew : symbols'.entries[i]? = some new) :
    ∃ old, symbols.entries[i]? = some old ∧ old.Grows new := by
  have hold : symbols.entries[i]? = some symbols.entries[i] := Array.getElem?_eq_getElem hi
  obtain ⟨new', hnew', hgrow⟩ := h hold
  rw [hnew] at hnew'
  cases hnew'
  exact ⟨_, hold, hgrow⟩

lemma HasSort.mono {sort : SymbolSort} {id : SymbolId} (h : symbols.HasSort sort id)
    (ext : symbols'.Extends symbols) : symbols'.HasSort sort id := by
  obtain ⟨old, hold, hsort⟩ := h
  obtain ⟨new, hnew, hgrow⟩ := ext hold
  exact ⟨new, hnew, hgrow.sort_eq.trans hsort⟩

lemma HasSort.lt_size {sort : SymbolSort} {id : SymbolId} (h : symbols.HasSort sort id) :
    id.index < symbols.size := by
  obtain ⟨_, hget, -⟩ := h
  exact lt_size_of_getElem? hget

/-- Behind the number of a function stands a function. -/
lemma HasSort.exists_function {id : SymbolId} (h : symbols.HasSort .function id) :
    ∃ symbol params prototyped external, symbols.entries[id.index]? = some symbol ∧
      symbol.kind = .function params prototyped external := by
  obtain ⟨symbol, hget, hsort⟩ := h
  cases hkind : symbol.kind with
  | function params prototyped external =>
    exact ⟨symbol, params, prototyped, external, hget, hkind⟩
  | localVar offset function => simp [hkind, SymbolKind.sort] at hsort
  | type => simp [hkind, SymbolKind.sort] at hsort

lemma isVariableOf_sort {owner : Option SymbolId} {symbol : Symbol}
    (h : symbol.isVariableOf owner = true) : symbol.kind.sort = .localVar := by
  unfold Symbol.isVariableOf at h
  cases hkind : symbol.kind <;> simp_all [SymbolKind.sort]

lemma HasVariable.mono {owner : Option SymbolId} {id : SymbolId}
    (h : symbols.HasVariable owner id) (ext : symbols'.Extends symbols) :
    symbols'.HasVariable owner id := by
  obtain ⟨old, hold, hvar⟩ := h
  obtain ⟨new, hnew, hgrow⟩ := ext hold
  have hsort : old.kind.sort ≠ .function := by
    rw [isVariableOf_sort hvar]
    decide
  exact ⟨new, hnew, by rw [hgrow.eq_of_sort_ne hsort]; exact hvar⟩

lemma HasVariable.hasSort {owner : Option SymbolId} {id : SymbolId}
    (h : symbols.HasVariable owner id) : symbols.HasSort .localVar id := by
  obtain ⟨symbol, hget, hvar⟩ := h
  exact ⟨symbol, hget, isVariableOf_sort hvar⟩

/-- The table has a function of this name under this number. -/
def HasFunction (symbols : SymbolTable) (name : String) (id : SymbolId) : Prop :=
  ∃ symbol, symbols.entries[id.index]? = some symbol ∧ symbol.kind.sort = .function ∧
    symbol.name = name

lemma HasFunction.mono {name : String} {id : SymbolId} (h : symbols.HasFunction name id)
    (ext : symbols'.Extends symbols) : symbols'.HasFunction name id := by
  obtain ⟨old, hold, hsort, hname⟩ := h
  obtain ⟨new, hnew, hgrow⟩ := ext hold
  exact ⟨new, hnew, hgrow.sort_eq.trans hsort, hgrow.name_eq.trans hname⟩

/-- The type of the symbol with this number is known. -/
def HasTyped (symbols : SymbolTable) (id : SymbolId) : Prop :=
  ∃ symbol, symbols.entries[id.index]? = some symbol ∧ symbol.type? ≠ none

lemma HasTyped.mono {id : SymbolId} (h : symbols.HasTyped id) (ext : symbols'.Extends symbols) :
    symbols'.HasTyped id := by
  obtain ⟨old, hold, htyped⟩ := h
  obtain ⟨new, hnew, hgrow⟩ := ext hold
  exact ⟨new, hnew, hgrow.typed htyped⟩

lemma HasTyped.type_ne_none {id : SymbolId} (h : symbols.HasTyped id) {symbol : Symbol}
    (hget : symbols.entries[id.index]? = some symbol) : symbol.type? ≠ none := by
  obtain ⟨symbol', hget', htyped⟩ := h
  rw [hget] at hget'
  cases hget'
  exact htyped

lemma get_eq_ok_iff {id : SymbolId} {symbol : Symbol} :
    symbols.get id = .ok symbol ↔ symbols.entries[id.index]? = some symbol := by
  unfold get
  split <;> simp_all

/-- A scope is closed just if there is one around it, which is the innermost one then. -/
lemma closeScope_eq_ok : symbols.closeScope = .ok symbols' ↔
    ∃ outer rest, symbols.enclosing = outer :: rest ∧
      symbols' = { symbols with scope := outer, enclosing := rest } := by
  unfold closeScope
  split <;> simp_all [eq_comm]

/-- The name of a symbol, empty if there is none. -/
def nameOf (symbols : SymbolTable) (id : SymbolId) : String :=
  match symbols.entries[id.index]? with
  | some symbol => symbol.name
  | none => ""

/-! ### The variables of a function -/

/-- The variables in the frame of `owner` among symbols whose numbers start at `start`. -/
def localsFrom (owner : Option SymbolId) : (start : Nat) → List Symbol → List SymbolId
  | _, [] => []
  | start, symbol :: rest =>
    if symbol.isVariableOf owner then ⟨start⟩ :: localsFrom owner (start + 1) rest
    else localsFrom owner (start + 1) rest

/-- The variables in the frame of `owner`, in the order of their declarations. -/
def locals (symbols : SymbolTable) (owner : Option SymbolId) : List SymbolId :=
  localsFrom owner 0 symbols.entries.toList

lemma localsFrom_append (owner : Option SymbolId) (start : Nat) (xs ys : List Symbol) :
    localsFrom owner start (xs ++ ys) =
      localsFrom owner start xs ++ localsFrom owner (start + xs.length) ys := by
  induction xs generalizing start with
  | nil => rfl
  | cons x xs ih =>
    simp only [List.cons_append, localsFrom, ih, List.length_cons]
    rw [show start + 1 + xs.length = start + (xs.length + 1) by omega]
    split <;> rfl

/-- The variables depend on which symbols are variables, not on the rest. -/
lemma localsFrom_congr {owner : Option SymbolId} {xs ys : List Symbol}
    (h : xs.map (Symbol.isVariableOf owner) = ys.map (Symbol.isVariableOf owner)) (start : Nat) :
    localsFrom owner start xs = localsFrom owner start ys := by
  induction xs generalizing ys start with
  | nil =>
    cases ys with
    | nil => rfl
    | cons y ys => simp at h
  | cons x xs ih =>
    cases ys with
    | nil => simp at h
    | cons y ys =>
      simp only [List.map_cons, List.cons.injEq] at h
      simp only [localsFrom, h.1, ih h.2]

lemma mem_localsFrom {owner : Option SymbolId} {start : Nat} {xs : List Symbol}
    {id : SymbolId} : id ∈ localsFrom owner start xs ↔
      ∃ i symbol, xs[i]? = some symbol ∧ symbol.isVariableOf owner = true ∧
        id.index = start + i := by
  induction xs generalizing start with
  | nil => simp [localsFrom]
  | cons x xs ih =>
    have hsplit : id ∈ localsFrom owner start (x :: xs) ↔
        (x.isVariableOf owner = true ∧ id = ⟨start⟩) ∨ id ∈ localsFrom owner (start + 1) xs := by
      simp only [localsFrom]
      split <;> simp_all
    rw [hsplit, ih]
    constructor
    · rintro (⟨hx, rfl⟩ | ⟨i, symbol, hget, hvar, hindex⟩)
      · exact ⟨0, x, rfl, hx, rfl⟩
      · exact ⟨i + 1, symbol, hget, hvar, by omega⟩
    · rintro ⟨i, symbol, hget, hvar, hindex⟩
      cases i with
      | zero =>
        simp only [List.getElem?_cons_zero, Option.some.injEq] at hget
        subst hget
        exact Or.inl ⟨hvar, by cases id; simp_all⟩
      | succ i => exact Or.inr ⟨i, symbol, hget, hvar, by omega⟩

lemma mem_locals {owner : Option SymbolId} {id : SymbolId} :
    id ∈ symbols.locals owner ↔ symbols.HasVariable owner id := by
  simp only [locals, mem_localsFrom, HasVariable, Array.getElem?_toList]
  constructor
  · rintro ⟨i, symbol, hget, hvar, hindex⟩
    obtain rfl : i = id.index := by omega
    exact ⟨symbol, hget, hvar⟩
  · rintro ⟨symbol, hget, hvar⟩
    exact ⟨id.index, symbol, hget, hvar, by omega⟩

end SymbolTable

/-! ## Tables -/

/-- What holds of a symbol of sound tables with `count` symbols. -/
structure Symbol.Sound (types : TypeTable) (count : Nat) (symbol : Symbol) : Prop where
  /-- The type is an entry of the type table. -/
  typed : ∀ {type}, symbol.type? = some type → types.Has type
  /-- Only a function may wait for its type. -/
  named : symbol.kind.sort ≠ .function → symbol.type? ≠ none
  /-- So are the types of parameters. -/
  params : ∀ {params prototyped external}, symbol.kind = .function params prototyped external →
    ∀ param ∈ params, types.Has param.type
  /-- The function with the frame is a symbol. -/
  owner : ∀ {offset f}, symbol.kind = .localVar offset (some f) → f.index < count

/-- Tables in which everything that is mentioned is there. -/
structure Tables.Sound (tables : Tables) : Prop where
  /-- The types are in order. -/
  types : tables.types.Sound
  /-- Every symbol is in order. -/
  symbol : ∀ {i : Nat} {symbol : Symbol}, tables.symbols.entries[i]? = some symbol →
    symbol.Sound tables.types tables.symbols.size
  /-- Names mean symbols. -/
  scopes : ∀ scope ∈ tables.symbols.scopes, ∀ pair ∈ scope, pair.2.index < tables.symbols.size

lemma Symbol.type_eq_ok_iff {symbol : Symbol} {type : TypeId} :
    symbol.type = .ok type ↔ symbol.type? = some type := by
  cases htype : symbol.type? <;> simp [Symbol.type, htype]

/-- Whatever is no function has its type. -/
lemma Symbol.Sound.exists_type {types : TypeTable} {count : Nat} {symbol : Symbol}
    (h : symbol.Sound types count) (hsort : symbol.kind.sort ≠ .function) :
    ∃ type, symbol.type? = some type ∧ symbol.type = .ok type ∧ types.Has type := by
  obtain ⟨type, htype⟩ := Option.ne_none_iff_exists'.mp (h.named hsort)
  exact ⟨type, htype, type_eq_ok_iff.mpr htype, h.typed htype⟩

lemma Tables.sound_initial : ({} : Tables).Sound where
  types := TypeTable.sound_initial
  symbol := by simp [SymbolTable.initial]
  scopes := by simp [SymbolTable.initial, SymbolTable.scopes]

lemma Symbol.Sound.mono {types types' : TypeTable} {count count' : Nat} {symbol : Symbol}
    (h : symbol.Sound types count) (htypes : types'.Extends types) (hcount : count ≤ count') :
    symbol.Sound types' count' where
  typed htype := htypes.has (h.typed htype)
  named := h.named
  params hkind param hparam := htypes.has (h.params hkind param hparam)
  owner hkind := by
    have := h.owner hkind
    omega

namespace Workspace

variable {ws ws' : Workspace}

/-- Nothing has been found wrong. -/
def Quiet (ws : Workspace) : Prop := ws.journal.diagnostics = #[]

instance (ws : Workspace) : Decidable ws.Quiet :=
  inferInstanceAs (Decidable (ws.journal.diagnostics = #[]))

/-- What every run keeps, whether it succeeds or fails. -/
structure Kept (ws ws' : Workspace) : Prop where
  /-- Types stay. -/
  types : ws'.types.Extends ws.types
  /-- Symbols stay. -/
  symbols : ws'.symbols.Extends ws.symbols
  /-- The scopes around the current one stay. -/
  enclosing : ws'.symbols.enclosing = ws.symbols.enclosing

/-- What a run that succeeds keeps. -/
structure Grows (ws ws' : Workspace) : Prop extends Kept ws ws' where
  /-- Sound tables stay sound. -/
  sound : ws.toTables.Sound → ws'.toTables.Sound
  /-- Findings stay. -/
  quiet : ws'.Quiet → ws.Quiet

lemma Kept.refl (ws : Workspace) : ws.Kept ws := ⟨.refl _, .refl _, rfl⟩

lemma Kept.trans {a b c : Workspace} (h₁ : a.Kept b) (h₂ : b.Kept c) : a.Kept c :=
  ⟨h₂.types.trans h₁.types, h₂.symbols.trans h₁.symbols, h₂.enclosing.trans h₁.enclosing⟩

lemma Grows.refl (ws : Workspace) : ws.Grows ws := ⟨.refl ws, id, id⟩

lemma Grows.trans {a b c : Workspace} (h₁ : a.Grows b) (h₂ : b.Grows c) : a.Grows c :=
  ⟨h₁.toKept.trans h₂.toKept, fun h => h₂.sound (h₁.sound h), fun h => h₁.quiet (h₂.quiet h)⟩

/-- A change of the journal that keeps the findings. -/
lemma Grows.of_journal {journal : Journal}
    (h : journal.diagnostics = #[] → ws.journal.diagnostics = #[]) :
    ws.Grows { ws with journal } :=
  ⟨⟨.refl _, .refl _, rfl⟩, id, h⟩

end Workspace

/-! ## Runs -/

lemma CompileM.get_run (ws : Workspace) : (get : CompileM Workspace) ws = .ok ws ws := rfl

lemma CompileM.modify_run (change : Workspace → Workspace) (ws : Workspace) :
    (modify change : CompileM PUnit) ws = .ok ⟨⟩ (change ws) := rfl

lemma CompileM.promised_error {α : Type} (defect : Defect) (ws : Workspace) :
    (promised (.error defect) : CompileM α) ws = .error (.defect defect) ws := rfl

/-- A phase ends by failing with what was found in it, or else by noting that it is over. -/
lemma CompileM.endPhase_run (phase : Phase) (ws : Workspace) : endPhase phase ws =
    if ws.journal.hasFindings then
      .error (.error (.halted phase ws.journal.diagnostics.toList))
        { ws with journal := { ws.journal with diagnostics := #[] } }
    else .ok () { ws with journal := ws.journal.log (.finished phase) } := by
  unfold endPhase Journal.endPhase
  cases h : ws.journal.hasFindings <;> simp only [bind, EStateM.bind, get_run, h] <;> rfl

/-- Two actions succeed one after the other just if there is a result in between. -/
lemma CompileM.bind_eq_ok {α β : Type} {act : CompileM α} {next : α → CompileM β}
    {ws ws₂ : Workspace} {b : β} : (act >>= next) ws = .ok b ws₂ ↔
      ∃ a ws₁, act ws = .ok a ws₁ ∧ next a ws₁ = .ok b ws₂ := by
  simp only [bind, EStateM.bind]
  rcases act ws with ⟨a, ws₁⟩ | ⟨failure, ws₁⟩ <;> simp

/-- Two actions fail one after the other if the first one fails, or the second one after it. -/
lemma CompileM.bind_eq_error {α β : Type} {act : CompileM α} {next : α → CompileM β}
    {ws ws₂ : Workspace} {failure : Failure} : (act >>= next) ws = .error failure ws₂ ↔
      act ws = .error failure ws₂ ∨
        ∃ a ws₁, act ws = .ok a ws₁ ∧ next a ws₁ = .error failure ws₂ := by
  simp only [bind, EStateM.bind]
  rcases act ws with ⟨a, ws₁⟩ | ⟨failure, ws₁⟩ <;> simp

lemma CompileM.pure_eq_ok {α : Type} {ws ws' : Workspace} {a b : α} :
    (pure a : CompileM α) ws = .ok b ws' ↔ a = b ∧ ws = ws' := by
  simp [pure, EStateM.pure]

lemma CompileM.promised_eq_ok {α : Type} {x : Except Defect α} {ws ws' : Workspace} {a : α} :
    CompileM.promised x ws = .ok a ws' ↔ x = .ok a ∧ ws = ws' := by
  cases x with
  | error defect => simp [promised_error]
  | ok b => simp [promised, pure_eq_ok]

/-- Run on `ws`, the action has a result. -/
def CompileM.Succeeds {α : Type} (act : CompileM α) (ws : Workspace) : Prop :=
  ∃ a ws', act ws = .ok a ws'

instance {α : Type} (act : CompileM α) (ws : Workspace) : Decidable (CompileM.Succeeds act ws) :=
  match hrun : act ws with
  | .ok a ws' => isTrue ⟨a, ws', hrun⟩
  | .error _ _ => isFalse (by simp [CompileM.Succeeds, hrun])

namespace CompileM

variable {α β : Type}

/-- What comes of an action: a result or a failure. -/
def outcome (act : CompileM α) (ws : Workspace) : Except Failure α :=
  match act ws with
  | .ok a _ => .ok a
  | .error failure _ => .error failure

/-- The workspace that an action leaves behind, be it that it succeeds or fails. -/
def leaves (act : CompileM α) (ws : Workspace) : Workspace :=
  match act ws with
  | .ok _ ws' => ws'
  | .error _ ws' => ws'

lemma outcome_eq_ok {act : CompileM α} {ws : Workspace} {a : α} :
    act.outcome ws = .ok a ↔ act ws = .ok a (act.leaves ws) := by
  unfold outcome leaves
  cases act ws <;> simp

lemma outcome_eq_error {act : CompileM α} {ws : Workspace} {failure : Failure} :
    act.outcome ws = .error failure ↔ act ws = .error failure (act.leaves ws) := by
  unfold outcome leaves
  cases act ws <;> simp

/-- Going on after a run that is known. -/
lemma outcome_ok_bind {act : CompileM α} {next : α → CompileM β} {ws ws' : Workspace} {a : α}
    (hrun : act ws = .ok a ws') : (act >>= next).outcome ws = (next a).outcome ws' := by
  simp only [outcome, Bind.bind, EStateM.bind, hrun]

lemma outcome_get_bind (next : Workspace → CompileM β) (ws : Workspace) :
    (MonadState.get >>= next).outcome ws = (next ws).outcome ws := rfl

/-- If two runs come to the same, and so do those that go on, then so do both together. -/
lemma outcome_bind_congr {act : CompileM α} {next : α → CompileM β} {ws ws' : Workspace}
    (h : act.outcome ws' = act.outcome ws)
    (hnext : ∀ a ws₁ ws₁', act ws = .ok a ws₁ → act ws' = .ok a ws₁' →
      (next a).outcome ws₁' = (next a).outcome ws₁) :
    (act >>= next).outcome ws' = (act >>= next).outcome ws := by
  cases hact : act.outcome ws with
  | ok a =>
    rw [hact] at h
    rw [outcome_eq_ok] at h hact
    rw [outcome_ok_bind h, outcome_ok_bind hact]
    exact hnext a _ _ hact h
  | error failure =>
    rw [hact] at h
    rw [outcome_eq_error] at h hact
    simp only [outcome, Bind.bind, EStateM.bind, h, hact]

end CompileM

/-! ## The judgement -/

open Workspace in
/-- Run on `ws`, the action meets no defect and keeps the tables, and `post` holds of its result
if there is one. -/
def Does {α : Type} (act : CompileM α) (ws : Workspace) (post : α → Workspace → Prop) : Prop :=
  match act ws with
  | .ok a ws' => Grows ws ws' ∧ post a ws'
  | .error (.error _) ws' => Kept ws ws'
  | .error (.defect _) _ => False

namespace Does

variable {α β : Type} {ws : Workspace} {post : α → Workspace → Prop}

lemma of_ok {act : CompileM α} {a : α} {ws' : Workspace} (hrun : act ws = .ok a ws')
    (hgrows : ws.Grows ws') (hpost : post a ws') : Does act ws post := by
  unfold Does
  rw [hrun]
  exact ⟨hgrows, hpost⟩

lemma pure {a : α} (h : post a ws) : Does (Pure.pure a) ws post :=
  of_ok rfl (.refl ws) h

/-- What is known of a run that succeeded. -/
lemma run {act : CompileM α} {a : α} {ws' : Workspace} (h : Does act ws post)
    (hrun : act ws = .ok a ws') : ws.Grows ws' ∧ post a ws' := by
  unfold Does at h
  rwa [hrun] at h

/-- One action after the other. -/
lemma bind {act : CompileM α} {next : α → CompileM β} {post' : β → Workspace → Prop}
    (h : Does act ws post)
    (hnext : ∀ a ws', ws.Grows ws' → post a ws' → Does (next a) ws' post') :
    Does (act >>= next) ws post' := by
  unfold Does at h ⊢
  simp only [Bind.bind, EStateM.bind]
  rcases hact : act ws with ⟨a, ws'⟩ | ⟨e, ws'⟩
  · rw [hact] at h
    have h' := hnext a ws' h.1 h.2
    unfold Does at h'
    rcases hnext' : next a ws' with ⟨b, ws''⟩ | ⟨e | d, ws''⟩
    · rw [hnext'] at h'
      simp only [hnext']
      exact ⟨h.1.trans h'.1, h'.2⟩
    · rw [hnext'] at h'
      simp only [hnext']
      exact h.1.toKept.trans h'
    · rw [hnext'] at h'
      exact h'.elim
  · rw [hact] at h
    cases e with
    | error e => exact h
    | defect d => exact h

lemma imp {act : CompileM α} {post' : α → Workspace → Prop} (h : Does act ws post)
    (himp : ∀ a ws', ws.Grows ws' → post a ws' → post' a ws') : Does act ws post' := by
  unfold Does at h ⊢
  split at h
  · exact ⟨h.1, himp _ _ h.1 h.2⟩
  · exact h
  · exact h

/-- Looking at the workspace changes nothing. -/
lemma get {next : Workspace → CompileM β} {post' : β → Workspace → Prop}
    (h : Does (next ws) ws post') : Does (MonadState.get >>= next) ws post' := h

lemma promised {x : Except Defect α} {a : α} (hx : x = .ok a) (h : post a ws) :
    Does (CompileM.promised x) ws post := by
  rw [hx]
  exact Does.pure h

/-- Going on with a promised value. -/
lemma promised_bind {x : Except Defect α} {a : α} {next : α → CompileM β}
    {post' : β → Workspace → Prop} (hx : x = .ok a) (h : Does (next a) ws post') :
    Does (CompileM.promised x >>= next) ws post' := by
  rw [hx]
  exact h

lemma refuse {loc : Location} {refusal : Refusal} :
    Does (CompileM.refuse loc refusal) ws post :=
  Workspace.Kept.refl ws

lemma report {loc : Location} {message : String} :
    Does (CompileM.report loc message) ws fun _ ws' =>
      ws'.toTables = ws.toTables ∧ ¬ ws'.Quiet := by
  refine of_ok rfl (.of_journal ?_) ⟨rfl, ?_⟩
  · simp [Journal.report]
  · simp [Workspace.Quiet, Journal.report]

/-- Going on after a finding. -/
lemma report_bind {loc : Location} {message : String} {next : Unit → CompileM β}
    {post' : β → Workspace → Prop}
    (h : ∀ ws', ws.Grows ws' → ws'.toTables = ws.toTables → ¬ ws'.Quiet →
      Does (next ()) ws' post') :
    Does (CompileM.report loc message >>= next) ws post' := by
  refine bind report ?_
  rintro _ ws' hgrows ⟨htables, hloud⟩
  exact h ws' hgrows htables hloud

end Does

end ParenC
