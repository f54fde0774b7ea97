/-
Tables with other names.

Types and symbols are known by their numbers, and names are kept beside them: those of struct fields
and of definitions, of symbols and of parameters.  `rename` changes these and nothing else.  What is
asked of a table of types has nothing to do with names, except for the descriptions in messages.
The scopes of a symbol table are searched by name, so that they are searched with the same result
only if different names stay different.
-/
import ParenC.Proofs.Workspace
import ParenC.Typing.Violation

namespace ParenC

variable {f : String → String}

/-! ## Answers -/

section Answers

variable {α α' β β' : Type}

/-- If the first computation has an answer, so does the second one, be it another answer. -/
def Answers (x : Except Defect α) (x' : Except Defect α') : Prop :=
  ∀ a, x = .ok a → ∃ a', x' = .ok a'

namespace Answers

lemma error {d : Defect} {x' : Except Defect α'} :
    Answers (.error d : Except Defect α) x' := by
  intro a h
  cases h

lemma pure {a : α} {a' : α'} :
    Answers (Pure.pure a : Except Defect α) (Pure.pure a' : Except Defect α') :=
  fun _ _ => ⟨a', rfl⟩

lemma bind {x : Except Defect α} {x' : Except Defect α'} {next : α → Except Defect β}
    {next' : α' → Except Defect β'} (h : Answers x x')
    (hnext : ∀ a a', Answers (next a) (next' a')) : Answers (x >>= next) (x' >>= next') := by
  intro b hb
  cases x with
  | error defect => cases hb
  | ok a =>
    obtain ⟨a', rfl⟩ := h a rfl
    exact hnext a a' b hb

lemma mapM_map {g : α → Except Defect β} {g' : α' → Except Defect β'} {h : α → α'}
    (hg : ∀ a, Answers (g a) (g' (h a))) {xs : List α} :
    Answers (xs.mapM g) ((xs.map h).mapM g') := by
  induction xs with
  | nil => exact .pure
  | cons a rest ih =>
    rw [List.map_cons, List.mapM_cons, List.mapM_cons]
    exact .bind (hg a) fun _ _ => .bind ih fun _ _ => .pure

end Answers

/-- If the first computation has an answer, the second one has that answer with other names. -/
def AnswersAs (map : α → α') (x : Except Defect α) (x' : Except Defect α') : Prop :=
  ∀ a, x = .ok a → x' = .ok (map a)

namespace AnswersAs

variable {map : α → α'} {map' : β → β'}

lemma error {d : Defect} {x' : Except Defect α'} : AnswersAs map (.error d) x' := by
  intro a h
  cases h

lemma of_map {x : Except Defect α} {x' : Except Defect α'} (h : x' = map <$> x) :
    AnswersAs map x x' := by
  rintro a rfl
  exact h

lemma of_eq {x x' : Except Defect α} (h : x' = x) : AnswersAs id x x' := by
  rintro a rfl
  exact h

lemma pure {a : α} {a' : α'} (h : a' = map a) :
    AnswersAs map (Pure.pure a : Except Defect α) (Pure.pure a' : Except Defect α') := by
  rintro _ ⟨⟩
  exact congrArg Except.ok h

lemma bind {x : Except Defect α} {x' : Except Defect α'} {next : α → Except Defect β}
    {next' : α' → Except Defect β'} (h : AnswersAs map x x')
    (hnext : ∀ a, AnswersAs map' (next a) (next' (map a))) :
    AnswersAs map' (x >>= next) (x' >>= next') := by
  intro b hb
  cases x with
  | error defect => cases hb
  | ok a =>
    rw [h a rfl]
    exact hnext a b hb

lemma ite {c c' : Prop} [Decidable c] [Decidable c'] {x y : Except Defect α}
    {x' y' : Except Defect α'} (hc : c' ↔ c) (hx : AnswersAs map x x') (hy : AnswersAs map y y') :
    AnswersAs map (if c then x else y) (if c' then x' else y') := by
  by_cases h : c
  · rw [if_pos h, if_pos (hc.mpr h)]
    exact hx
  · rw [if_neg h, if_neg (mt hc.mp h)]
    exact hy

end AnswersAs

end Answers

/-! ## Types -/

/-- The field under another name. -/
def Field.rename (f : String → String) (field : Field) : Field :=
  { field with name := f field.name }

/-- The shape with other names for fields and definitions. -/
def Shape.rename (f : String → String) : Shape → Shape
  | builtin which => builtin which
  | struct fields => struct (fields.map (Field.rename f))
  | definition name target => definition (f name) target

lemma Shape.rename_eq_builtin {shape : Shape} {which : Builtin} :
    shape.rename f = builtin which ↔ shape = builtin which := by
  cases shape <;> simp [rename]

/-- The entry with other names. -/
def TypeInfo.rename (f : String → String) (info : TypeInfo) : TypeInfo :=
  { info with shape := info.shape.rename f }

/-- The fields under other names, at the same places. -/
def TypeTable.Layout.rename (f : String → String) (layout : Layout) : Layout :=
  { layout with fields := layout.fields.map (Field.rename f) }

namespace TypeTable

/-- The table with other names. -/
def rename (f : String → String) (table : TypeTable) : TypeTable :=
  ⟨table.entries.map (TypeInfo.rename f)⟩

lemma rename_initial : initial.rename f = initial := by
  simp [rename, initial, Builtin.all, Builtin.info, TypeInfo.rename, Shape.rename]

lemma rename_size (table : TypeTable) : (table.rename f).size = table.size := by
  simp [rename, size]

lemma rename_get (table : TypeTable) (id : TypeId) :
    (table.rename f).get id = TypeInfo.rename f <$> table.get id := by
  simp only [get, rename, Array.getElem?_map]
  cases table.entries[id.index]? <;> rfl

lemma rename_register (table : TypeTable) (info : TypeInfo) :
    (table.rename f).register (info.rename f) = Prod.map id (rename f) (table.register info) := by
  simp [register, rename, size]

/-- Names have no part in where fields lie. -/
lemma rename_layOut (table : TypeTable) (start align : Nat) (fields : List (String × TypeId)) :
    (table.rename f).layOut start align (fields.map (Prod.map f id)) =
      Layout.rename f <$> table.layOut start align fields := by
  induction fields generalizing start align with
  | nil => rfl
  | cons field rest ih =>
    obtain ⟨name, type⟩ := field
    rw [List.map_cons, Prod.map_apply, id_eq, layOut, layOut, rename_get]
    cases table.get type with
    | error defect => rfl
    | ok info =>
      simp only [Functor.map, Except.map, Bind.bind, Except.bind, TypeInfo.rename, ih]
      by_cases hzero : info.align = 0
      · simp only [if_pos hzero]
        rfl
      · simp only [if_neg hzero]
        cases table.layOut (roundUp start info.align + info.size) (max align info.align) rest <;>
          rfl

lemma rename_registerStruct (table : TypeTable) (fields : List (String × TypeId)) :
    (table.rename f).registerStruct (fields.map (Prod.map f id)) =
      Prod.map id (rename f) <$> table.registerStruct fields := by
  rw [registerStruct, registerStruct, rename_layOut]
  cases table.layOut 0 1 fields with
  | error defect => rfl
  | ok layout =>
    exact congrArg Except.ok (rename_register table
      ⟨.struct layout.fields, roundUp layout.stop layout.align, layout.align⟩)

lemma rename_registerDefinition (table : TypeTable) (name : String) (target : TypeId) :
    (table.rename f).registerDefinition (f name) target =
      Prod.map id (rename f) <$> table.registerDefinition name target := by
  rw [registerDefinition, registerDefinition, rename_get]
  cases table.get target with
  | error defect => rfl
  | ok info =>
    exact congrArg Except.ok (rename_register table
      ⟨.definition name target, info.size, info.align⟩)

/-! ### What a type stands for -/

lemma rename_resolveWithin (table : TypeTable) (steps : Nat) (id : TypeId) :
    (table.rename f).resolveWithin steps id = table.resolveWithin steps id := by
  induction steps generalizing id with
  | zero => rfl
  | succ steps ih =>
    rw [resolveWithin, resolveWithin, rename_get]
    rcases table.get id with defect | ⟨shape, size, align⟩
    · rfl
    · cases shape with
      | definition name target => exact ih target
      | builtin | struct => rfl

lemma rename_resolve (table : TypeTable) (id : TypeId) :
    (table.rename f).resolve id = table.resolve id := by
  rw [resolve, resolve, rename_size, rename_resolveWithin]

lemma rename_deepShape (table : TypeTable) (id : TypeId) :
    (table.rename f).deepShape id = Shape.rename f <$> table.deepShape id := by
  rw [deepShape, deepShape, rename_resolve]
  cases table.resolve id with
  | error defect => rfl
  | ok root =>
    simp only [Bind.bind, Except.bind, rename_get]
    cases table.get root <;> rfl

lemma rename_isScalar (table : TypeTable) (id : TypeId) :
    (table.rename f).isScalar id = table.isScalar id := by
  rw [isScalar, isScalar, rename_deepShape]
  rcases table.deepShape id with defect | shape
  · rfl
  · cases shape <;> rfl

lemma rename_isUnsigned (table : TypeTable) (id : TypeId) :
    (table.rename f).isUnsigned id = table.isUnsigned id := by
  rw [isUnsigned, isUnsigned, rename_deepShape]
  cases table.deepShape id with
  | error defect => rfl
  | ok shape => exact congrArg Except.ok (decide_eq_decide.mpr Shape.rename_eq_builtin)

lemma rename_isStruct (table : TypeTable) (id : TypeId) :
    (table.rename f).isStruct id = table.isStruct id := by
  rw [isStruct, isStruct, rename_deepShape]
  rcases table.deepShape id with defect | shape
  · rfl
  · cases shape <;> rfl

lemma describeWithin_answers (table : TypeTable) (levels : Nat) (id : TypeId) :
    Answers (table.describeWithin levels id) ((table.rename f).describeWithin levels id) := by
  induction levels generalizing id with
  | zero => exact .error
  | succ levels ih =>
    rw [describeWithin, describeWithin, rename_get]
    rcases table.get id with defect | ⟨shape, size, align⟩
    · exact .error
    · cases shape with
      | builtin which => exact .pure
      | definition name target => exact .pure
      | struct fields =>
        change Answers (fields.mapM _ >>= _) ((fields.map (Field.rename f)).mapM _ >>= _)
        refine .bind (.mapM_map fun field => ?_) fun _ _ => .pure
        exact .bind (ih field.type) fun _ _ => .pure

/-- A type that has a description has one under other names as well. -/
lemma describe_answers (table : TypeTable) (id : TypeId) :
    Answers (table.describe id) ((table.rename f).describe id) := by
  rw [describe, describe, rename_size]
  exact describeWithin_answers table table.size id

lemma describeAll_answers (table : TypeTable) (ids : List TypeId) :
    Answers (table.describeAll ids) ((table.rename f).describeAll ids) := by
  have hids : Answers (ids.mapM table.describe) ((ids.map id).mapM (table.rename f).describe) :=
    .mapM_map (describe_answers table)
  rw [List.map_id] at hids
  exact .bind hids fun _ _ => .pure

end TypeTable

/-! ## Symbols -/

/-- The parameter under another name. -/
def Param.rename (f : String → String) (param : Param) : Param :=
  { param with name := f param.name }

/-- The kind with other names for parameters. -/
def SymbolKind.rename (f : String → String) : SymbolKind → SymbolKind
  | localVar offset owner => localVar offset owner
  | function params prototyped external =>
    function (params.map (Param.rename f)) prototyped external
  | type => type

lemma SymbolKind.rename_sort (kind : SymbolKind) : (kind.rename f).sort = kind.sort := by
  cases kind <;> rfl

namespace Symbol

/-- The symbol under another name. -/
def rename (f : String → String) (symbol : Symbol) : Symbol :=
  ⟨f symbol.name, symbol.type?, symbol.kind.rename f⟩

lemma rename_placeholder (name : String) (sort : SymbolSort) :
    (placeholder name sort).rename f = placeholder (f name) sort := by
  cases sort <;> rfl

lemma rename_place (symbol : Symbol) (offset : Nat) :
    (symbol.rename f).place offset = (symbol.place offset).rename f := by
  obtain ⟨name, type?, kind⟩ := symbol
  cases kind <;> rfl

/-- A type that is known has no name in it. -/
lemma type_answersAs (symbol : Symbol) : AnswersAs id symbol.type (symbol.rename f).type := by
  intro type h
  obtain ⟨name, type?, kind⟩ := symbol
  cases type? with
  | none => cases h
  | some known => exact h

lemma offset_answersAs (symbol : Symbol) :
    AnswersAs id symbol.offset (symbol.rename f).offset := by
  intro offset h
  obtain ⟨name, type?, kind⟩ := symbol
  cases kind with
  | localVar offset? function? =>
    cases offset? with
    | none => cases h
    | some known => exact h
  | function | type => cases h

lemma place_name (symbol : Symbol) (offset : Nat) : (symbol.place offset).name = symbol.name := by
  obtain ⟨name, type?, kind⟩ := symbol
  cases kind <;> rfl

end Symbol

/-- The scope with other names. -/
def Scope.rename (f : String → String) (scope : Scope) : Scope := scope.map (Prod.map f id)

/-- Different names stay different, so that the same entry is found. -/
lemma Scope.rename_lookup (hf : Function.Injective f) (scope : Scope) (name : String) :
    (scope.rename f).lookup (f name) = scope.lookup name := by
  induction scope with
  | nil => rfl
  | cons entry rest ih =>
    obtain ⟨declared, id⟩ := entry
    have hname : (f name == f declared) = (name == declared) := by simp [hf.eq_iff]
    rw [rename] at ih
    rw [rename, List.map_cons, Prod.map_apply, List.lookup_cons, List.lookup_cons, hname, ih]
    rfl

namespace SymbolTable

/-- The table with other names. -/
def rename (f : String → String) (table : SymbolTable) : SymbolTable :=
  ⟨table.entries.map (Symbol.rename f), table.scope.rename f, table.enclosing.map (Scope.rename f)⟩

lemma rename_initial : initial.rename f = initial := by
  simp [rename, initial, Scope.rename]

lemma rename_size (table : SymbolTable) : (table.rename f).size = table.size := by
  simp [rename, size]

lemma rename_scopes (table : SymbolTable) :
    (table.rename f).scopes = table.scopes.map (Scope.rename f) := rfl

lemma rename_depth (table : SymbolTable) : (table.rename f).depth = table.depth := by
  simp [depth, rename_scopes]

lemma rename_get (table : SymbolTable) (id : SymbolId) :
    (table.rename f).get id = Symbol.rename f <$> table.get id := by
  simp only [get, rename, Array.getElem?_map]
  cases table.entries[id.index]? <;> rfl

lemma rename_openScope (table : SymbolTable) :
    (table.rename f).openScope = table.openScope.rename f := rfl

lemma rename_closeScopeAt (table : SymbolTable) (depth : Nat) :
    (table.rename f).closeScopeAt depth = rename f <$> table.closeScopeAt depth := by
  obtain ⟨entries, scope, enclosing⟩ := table
  rw [closeScopeAt, closeScopeAt, rename_depth]
  split
  · cases enclosing <;> rfl
  · rfl

lemma rename_resolve (hf : Function.Injective f) (table : SymbolTable) (name : String) :
    (table.rename f).resolve (f name) = table.resolve name := by
  rw [resolve, resolve, rename_scopes, List.findSome?_map]
  exact congrArg (List.findSome? · _) (funext fun scope => scope.rename_lookup hf name)

lemma rename_resolveSort (hf : Function.Injective f) (table : SymbolTable) (name : String)
    (sort : SymbolSort) :
    (table.rename f).resolveSort (f name) sort = table.resolveSort name sort := by
  rw [resolveSort, resolveSort, rename_resolve hf]
  cases table.resolve name with
  | none => rfl
  | some id =>
    simp only [rename_get]
    cases table.get id with
    | error defect => rfl
    | ok symbol =>
      simp only [Functor.map, Except.map, Bind.bind, Except.bind, Symbol.rename,
        SymbolKind.rename_sort]

lemma rename_declare (hf : Function.Injective f) (table : SymbolTable) (name : String)
    (sort : SymbolSort) : (table.rename f).declare (f name) sort =
      (table.declare name sort).map (Prod.map id (rename f)) := by
  have hlookup : (table.rename f).scope.lookup (f name) = table.scope.lookup name :=
    table.scope.rename_lookup hf name
  rw [declare, declare, hlookup]
  cases table.scope.lookup name with
  | some id => rfl
  | none =>
    simp [rename, size, Symbol.rename_placeholder, Scope.rename]

lemma rename_modify {change change' : Symbol → Symbol}
    (h : ∀ symbol : Symbol, change' (symbol.rename f) = (change symbol).rename f)
    (table : SymbolTable) (id : SymbolId) :
    (table.rename f).modify id change' = rename f <$> table.modify id change := by
  rw [modify, modify, rename_get]
  cases table.get id with
  | error defect => rfl
  | ok symbol =>
    simp [rename, h, Functor.map, Except.map, Bind.bind, Except.bind, pure, Except.pure]

lemma rename_set (table : SymbolTable) (id : SymbolId) (symbol : Symbol) :
    (table.rename f).set id (symbol.rename f) = rename f <$> table.set id symbol := by
  have hmodify : (table.rename f).modify id (fun _ => symbol.rename f) =
      rename f <$> table.modify id fun _ => symbol := by
    refine rename_modify (fun _ => ?_) table id
    rfl
  rw [set, set, rename_get]
  cases table.get id with
  | error defect => rfl
  | ok old =>
    simp only [Functor.map, Except.map, Bind.bind, Except.bind, Symbol.rename,
      SymbolKind.rename_sort] at hmodify ⊢
    by_cases hsort : old.kind.sort ≠ symbol.kind.sort
    · simp only [if_pos hsort]
      rfl
    · simp only [if_neg hsort]
      exact hmodify

lemma rename_setType (table : SymbolTable) (id : SymbolId) (type? : Option TypeId) :
    (table.rename f).setType id type? = rename f <$> table.setType id type? := by
  refine rename_modify (fun symbol => ?_) table id
  rfl

end SymbolTable

/-! ## Names of functions -/

namespace SymbolTable

/-- The names of the functions in the table are kept. -/
def KeepsFunctions (f : String → String) (symbols : SymbolTable) : Prop :=
  ∀ symbol ∈ symbols.entries, symbol.kind.sort = .function → f symbol.name = symbol.name

namespace KeepsFunctions

variable {symbols symbols' : SymbolTable}

lemma initial : KeepsFunctions f .initial := by
  intro symbol hsymbol
  simp [SymbolTable.initial] at hsymbol

lemma openScope (h : symbols.KeepsFunctions f) : symbols.openScope.KeepsFunctions f := h

lemma closeScopeAt (h : symbols.KeepsFunctions f) {depth : Nat}
    (hclose : symbols.closeScopeAt depth = .ok symbols') : symbols'.KeepsFunctions f := by
  unfold SymbolTable.closeScopeAt SymbolTable.closeScope at hclose
  split at hclose
  · split at hclose
    · cases hclose
    · cases hclose
      exact h
  · cases hclose

lemma declare (h : symbols.KeepsFunctions f) {name : String} {sort : SymbolSort} {id : SymbolId}
    (hname : sort = .function → f name = name)
    (hdeclare : symbols.declare name sort = some (id, symbols')) : symbols'.KeepsFunctions f := by
  unfold SymbolTable.declare at hdeclare
  split at hdeclare
  · cases hdeclare
  · cases hdeclare
    intro symbol hsymbol hfunction
    rcases Array.mem_push.mp hsymbol with hold | rfl
    · exact h symbol hold hfunction
    · cases sort with
      | function => exact hname rfl
      | localVar | type => cases hfunction

lemma modify (h : symbols.KeepsFunctions f) {id : SymbolId} {change : Symbol → Symbol}
    (hchange : ∀ symbol ∈ symbols.entries, (change symbol).kind.sort = .function →
      f (change symbol).name = (change symbol).name)
    (hmodify : symbols.modify id change = .ok symbols') : symbols'.KeepsFunctions f := by
  unfold SymbolTable.modify at hmodify
  cases hget : symbols.get id with
  | error defect =>
    rw [hget] at hmodify
    cases hmodify
  | ok old =>
    rw [hget] at hmodify
    cases hmodify
    intro symbol hsymbol hfunction
    rcases Array.mem_or_eq_of_mem_setIfInBounds hsymbol with hold | rfl
    · exact h symbol hold hfunction
    · exact hchange old (Array.mem_of_getElem? (get_eq_ok_iff.mp hget)) hfunction

lemma set (h : symbols.KeepsFunctions f) {id : SymbolId} {symbol : Symbol}
    (hname : symbol.kind.sort = .function → f symbol.name = symbol.name)
    (hset : symbols.set id symbol = .ok symbols') : symbols'.KeepsFunctions f := by
  unfold SymbolTable.set at hset
  cases hget : symbols.get id with
  | error defect =>
    rw [hget] at hset
    cases hset
  | ok old =>
    rw [hget] at hset
    by_cases hsort : old.kind.sort ≠ symbol.kind.sort
    · simp only [Bind.bind, Except.bind, if_pos hsort] at hset
      cases hset
    · simp only [Bind.bind, Except.bind, if_neg hsort] at hset
      exact h.modify (fun _ _ => hname) hset

lemma setType (h : symbols.KeepsFunctions f) {id : SymbolId} {type? : Option TypeId}
    (hset : symbols.setType id type? = .ok symbols') : symbols'.KeepsFunctions f := by
  refine h.modify ?_ hset
  exact h

end KeepsFunctions

end SymbolTable

/-! ## Tables -/

/-- The tables with other names. -/
def Tables.rename (f : String → String) (tables : Tables) : Tables :=
  ⟨tables.types.rename f, tables.symbols.rename f⟩

end ParenC
