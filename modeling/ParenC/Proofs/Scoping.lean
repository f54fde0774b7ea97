/-
Lexical scoping, as a property of a text.

The scopes of a text are nested regions, and a name that is mentioned means the declaration in
the innermost region around it that has one before that point.  This is said about marks alone,
without a table of open scopes.  Going through the marks with such a table is then shown to be a
way to find out what names mean.
-/
import ParenC.Proofs.Marks

namespace ParenC

/-! ## What is said about a text -/

namespace Mark

/-- The number of open regions after a mark, if `depth` are open before it; none if the mark ends
a region that is not among them. -/
def depthStep (depth : Nat) : Mark → Option Nat
  | enter => some (depth + 1)
  | leave => if depth = 0 then none else some (depth - 1)
  | _ => some depth

/-- The number of open regions after several marks. -/
def depthAfter (depth : Nat) (marks : List Mark) : Option Nat := marks.foldlM depthStep depth

/-- At the end of the marks the name is declared as the name of the symbol, in the region that is
found after leaving `out` regions: the declaration stands in a region that no later mark ends, and
`out` more are open. -/
def InEffect (marks : List Mark) (name : String) (id : SymbolId) (out : Nat) : Prop :=
  ∃ front back, marks = front ++ declare name id :: back ∧ depthAfter 0 back = some out

/-- The symbol that is declared, if the mark is a declaration. -/
def declared? : Mark → Option SymbolId
  | declare _ id => some id
  | _ => none

end Mark

open Mark

/-- The name of this symbol means this: the symbol itself, or the type that it stands for. -/
def Meaning.IsOf (tables : Tables) (id : SymbolId) : Meaning → Prop
  | symbol id' => id' = id
  | type target => ∃ symbol, tables.symbols.entries[id.index]? = some symbol ∧
      symbol.kind = .type ∧ symbol.type? = some target

/-- The text is scoped lexically. -/
structure LexicallyScoped (tables : Tables) (marks : List Mark) : Prop where
  /-- Regions are nested. -/
  nested : depthAfter 0 marks = some 0
  /-- Every symbol is declared once, and symbols are numbered in the order of the text. -/
  symbols : marks.filterMap declared? = (List.range tables.symbols.size).map SymbolId.mk
  /-- A name means the one declaration of it that is in effect in the innermost region around the
  mention that has one. -/
  mention : ∀ {before after name meaning}, marks = before ++ .mention name meaning :: after →
    ∃ id out, InEffect before name id out ∧ meaning.IsOf tables id ∧
      ∀ {id' out'}, InEffect before name id' out' → out ≤ out' ∧ (out' = out → id' = id)
  /-- No region declares a name twice. -/
  once : ∀ {before between after name id id'},
    marks = before ++ declare name id :: (between ++ declare name id' :: after) →
      depthAfter 0 between ≠ some 0

/-! ## Going through a text -/

/-- What is known at a point of a text: the number of declarations so far, and the names that are
declared in the regions around the point. -/
structure Scoping where
  /-- The number of declarations so far. -/
  count : Nat
  /-- The names in the innermost region. -/
  scope : Scope
  /-- The names in the regions around it, from the inside outwards. -/
  enclosing : List Scope

namespace Scoping

variable {tables : Tables} {s s₁ s₂ : Scoping} {xs ys marks : List Mark}

/-- The start of a text. -/
def initial : Scoping := ⟨0, [], []⟩

/-- The names in all regions around the point. -/
def scopes (s : Scoping) : List Scope := s.scope :: s.enclosing

/-- The symbol that a name means. -/
def resolve (s : Scoping) (name : String) : Option SymbolId :=
  s.scopes.findSome? fun scope => scope.lookup name

/-- What a mark does. -/
inductive Step (tables : Tables) : Scoping → Mark → Scoping → Prop
  | word {s : Scoping} {kind : TokenKind} {text : String} : Step tables s (.word kind text) s
  | mention {s : Scoping} {name : String} {meaning : Meaning} {id : SymbolId}
      (found : s.resolve name = some id) (means : meaning.IsOf tables id) :
      Step tables s (.mention name meaning) s
  | declare {s : Scoping} {name : String} (isNew : s.scope.lookup name = none) :
      Step tables s (.declare name ⟨s.count⟩)
        ⟨s.count + 1, (name, ⟨s.count⟩) :: s.scope, s.enclosing⟩
  | enter {s : Scoping} : Step tables s .enter ⟨s.count, [], s.scopes⟩
  | leave {s : Scoping} {inner : Scope} : Step tables ⟨s.count, inner, s.scopes⟩ .leave s

/-- What marks do, one after the other. -/
inductive Walk (tables : Tables) : Scoping → List Mark → Scoping → Prop
  | nil {s : Scoping} : Walk tables s [] s
  | cons {s s₁ s₂ : Scoping} {mark : Mark} {marks : List Mark} (first : Step tables s mark s₁)
      (rest : Walk tables s₁ marks s₂) : Walk tables s (mark :: marks) s₂

lemma Walk.append (h₁ : Walk tables s xs s₁) (h₂ : Walk tables s₁ ys s₂) :
    Walk tables s (xs ++ ys) s₂ := by
  induction h₁ with
  | nil => exact h₂
  | cons first rest ih => exact .cons first (ih h₂)

lemma Walk.of_append (h : Walk tables s (xs ++ ys) s₂) :
    ∃ s₁, Walk tables s xs s₁ ∧ Walk tables s₁ ys s₂ := by
  induction xs generalizing s with
  | nil => exact ⟨s, .nil, h⟩
  | cons x xs ih =>
    cases h with
    | cons first rest =>
      obtain ⟨s₁, hxs, hys⟩ := ih rest
      exact ⟨s₁, .cons first hxs, hys⟩

/-- The number of regions that are open. -/
lemma Walk.depthAfter (h : Walk tables s marks s₁) :
    Mark.depthAfter s.enclosing.length marks = some s₁.enclosing.length := by
  unfold Mark.depthAfter
  induction h with
  | nil => rfl
  | cons first rest ih =>
    rw [List.foldlM_cons]
    cases first with
    | word | mention | declare => exact ih
    | enter => exact ih
    | leave => exact ih

/-- Symbols are numbered in the order of the text. -/
lemma Walk.declared (h : Walk tables s marks s₁) : s.count ≤ s₁.count ∧
    marks.filterMap declared? =
      (List.range' s.count (s₁.count - s.count)).map SymbolId.mk := by
  induction h with
  | nil => simp
  | @cons s s₁ s₂ mark marks first rest ih =>
    cases first with
    | word | mention | enter | leave => exact ih
    | declare isNew =>
      obtain ⟨hle, hdeclared⟩ := ih
      have hcount : s₂.count - s.count = (s₂.count - (s.count + 1)) + 1 := by
        simp only at hle
        omega
      refine ⟨by simp only at hle; omega, ?_⟩
      rw [hcount, List.range'_succ, List.map_cons]
      simpa [declared?] using hdeclared

/-! ### What the open regions know -/

/-- The open regions know the declarations that are in effect, each name once. -/
structure Knows (s : Scoping) (before : List Mark) : Prop where
  /-- The names in a region are those that are declared there. -/
  names : ∀ {name id out}, InEffect before name id out ↔
    ∃ scope, s.scopes[out]? = some scope ∧ (name, id) ∈ scope
  /-- No name is there twice. -/
  once : ∀ scope ∈ s.scopes, (scope.map Prod.fst).Nodup

lemma inEffect_append_singleton {before : List Mark} {mark : Mark} {name : String} {id : SymbolId}
    {out : Nat} : InEffect (before ++ [mark]) name id out ↔
      (mark = .declare name id ∧ out = 0) ∨
        ∃ depth, InEffect before name id depth ∧ depthStep depth mark = some out := by
  constructor
  · rintro ⟨front, back, hsplit, hdepth⟩
    rcases List.eq_nil_or_concat back with rfl | ⟨back, last, rfl⟩
    · -- the declaration is the last mark
      obtain ⟨-, hlast⟩ := List.append_inj' hsplit rfl
      cases hlast
      exact Or.inl ⟨rfl, by simpa [Mark.depthAfter] using hdepth.symm⟩
    · rw [List.concat_eq_append, ← List.cons_append, ← List.append_assoc] at hsplit
      obtain ⟨hfront, hlast⟩ := List.append_inj' hsplit rfl
      cases hlast
      rw [List.concat_eq_append, Mark.depthAfter, List.foldlM_append] at hdepth
      obtain ⟨depth, hback, hstep⟩ := Option.bind_eq_some_iff.mp hdepth
      exact Or.inr ⟨depth, ⟨front, back, hfront, hback⟩, by simpa using hstep⟩
  · rintro (⟨rfl, rfl⟩ | ⟨depth, ⟨front, back, rfl, hback⟩, hstep⟩)
    · exact ⟨before, [], rfl, rfl⟩
    · refine ⟨front, back ++ [mark], by simp, ?_⟩
      rw [Mark.depthAfter] at hback ⊢
      rw [List.foldlM_append, hback]
      simpa using hstep

/-- One mark on. -/
lemma Knows.step {mark : Mark} {before : List Mark} (h : s.Knows before)
    (hstep : Step tables s mark s₁) : s₁.Knows (before ++ [mark]) := by
  cases hstep with
  | word | mention =>
    refine ⟨?_, h.once⟩
    intro name id out
    rw [inEffect_append_singleton, ← h.names]
    simp [depthStep]
  | declare isNew =>
    refine ⟨?_, ?_⟩
    · intro name' id out
      rw [inEffect_append_singleton]
      simp only [Mark.declare.injEq, depthStep, Option.some.injEq, exists_eq_right, h.names]
      -- the new name is in the innermost scope, and the scopes around it are unchanged
      cases out with
      | zero => simp [scopes, eq_comm]
      | succ out => simp [scopes]
    · intro scope hscope
      rcases List.mem_cons.mp hscope with rfl | hscope
      · rw [List.map_cons, List.nodup_cons]
        refine ⟨?_, h.once s.scope (by simp [scopes])⟩
        intro hmem
        obtain ⟨pair, hpair, hname⟩ := List.mem_map.mp hmem
        have hne := List.lookup_eq_none_iff.mp isNew pair hpair
        simp [hname] at hne
      · exact h.once scope (List.mem_cons_of_mem _ hscope)
  | enter =>
    refine ⟨?_, ?_⟩
    · intro name id out
      rw [inEffect_append_singleton]
      simp only [reduceCtorEq, false_and, false_or, depthStep, Option.some.injEq]
      cases out with
      | zero => simp [scopes]
      | succ out =>
        simp only [Nat.add_right_cancel_iff, exists_eq_right, h.names]
        simp [scopes]
    · intro scope hscope
      rcases List.mem_cons.mp hscope with rfl | hscope
      · simp
      · exact h.once scope hscope
  | leave =>
    refine ⟨?_, ?_⟩
    · intro name id out
      rw [inEffect_append_singleton]
      -- after leaving, a scope is one level nearer than it was inside
      have hdepth : ∀ depth, depthStep depth .leave = some out ↔ depth = out + 1 := by
        intro depth
        cases depth <;> simp [depthStep]
      simp only [reduceCtorEq, false_and, false_or, hdepth, exists_eq_right, h.names]
      simp [scopes]
    · exact fun scope hscope => h.once scope (List.mem_cons_of_mem _ hscope)

/-- By induction on the marks: the open regions know what is in effect at every point. -/
lemma Knows.walk {before : List Mark} (h : s.Knows before) (hwalk : Walk tables s marks s₁) :
    s₁.Knows (before ++ marks) := by
  induction hwalk generalizing before with
  | nil => simpa using h
  | @cons s s₁ s₂ mark marks first rest ih =>
    have := ih (h.step first)
    rwa [List.append_assoc, List.singleton_append] at this

lemma knows_initial : initial.Knows [] := by
  refine ⟨?_, by simp [initial, scopes]⟩
  intro name id out
  constructor
  · rintro ⟨front, back, hsplit, -⟩
    simp at hsplit
  · rintro ⟨scope, hscope, hmem⟩
    cases out with
    | zero =>
      cases hscope
      cases hmem
    | succ out => simp [initial, scopes] at hscope

/-- A name that is found stands in the innermost region that has it. -/
lemma exists_of_resolve {name : String} {id : SymbolId} (h : s.resolve name = some id) :
    ∃ (out : Nat) (scope : Scope), s.scopes[out]? = some scope ∧ scope.lookup name = some id ∧
      ∀ (out' : Nat) (scope' : Scope), out' < out → s.scopes[out']? = some scope' →
        scope'.lookup name = none := by
  obtain ⟨inner, scope, outer, hsplit, hlookup, hbefore⟩ := List.findSome?_eq_some_iff.mp h
  refine ⟨inner.length, scope, by simp [hsplit], hlookup, ?_⟩
  intro out' scope' hlt hscope
  rw [hsplit, List.getElem?_append_left hlt] at hscope
  exact hbefore scope' (List.mem_of_getElem? hscope)

/-- A name in a region where each name is once. -/
lemma lookup_eq_some_iff {scope : Scope} (h : (scope.map Prod.fst).Nodup) {name : String}
    {id : SymbolId} : scope.lookup name = some id ↔ (name, id) ∈ scope := by
  constructor
  · intro hlookup
    obtain ⟨front, back, rfl, -⟩ := List.lookup_eq_some_iff.mp hlookup
    simp
  · intro hmem
    obtain ⟨front, back, rfl⟩ := List.append_of_mem hmem
    refine List.lookup_eq_some_iff.mpr ⟨front, back, rfl, ?_⟩
    intro pair hpair
    simp only [List.map_append, List.map_cons, List.nodup_append] at h
    have hne : pair.1 ≠ name := h.2.2 pair.1 (List.mem_map_of_mem hpair) name (by simp)
    exact bne_iff_ne.mpr hne.symm

/-- A name is found in a region just if it is in effect there. -/
lemma Knows.lookup_eq_some_iff {before : List Mark} (h : s.Knows before) {out : Nat}
    {scope : Scope} (hscope : s.scopes[out]? = some scope) {name : String} {id : SymbolId} :
    scope.lookup name = some id ↔ InEffect before name id out := by
  rw [Scoping.lookup_eq_some_iff (h.once scope (List.mem_of_getElem? hscope)), h.names]
  constructor
  · exact fun hmem => ⟨scope, hscope, hmem⟩
  · rintro ⟨scope', hscope', hmem⟩
    rw [hscope] at hscope'
    cases hscope'
    exact hmem

/-- No region has a name twice. -/
lemma Knows.unique {before : List Mark} (h : s.Knows before) {name : String}
    {id id' : SymbolId} {out : Nat} (h₁ : InEffect before name id out)
    (h₂ : InEffect before name id' out) : id' = id := by
  obtain ⟨scope, hscope, -⟩ := h.names.mp h₁
  have hfound := (h.lookup_eq_some_iff hscope).mpr h₁
  rw [(h.lookup_eq_some_iff hscope).mpr h₂] at hfound
  exact Option.some.inj hfound

/-- A name means its declaration in the innermost region that has one. -/
lemma Knows.resolve_eq_some_iff {before : List Mark} (h : s.Knows before) {name : String}
    {id : SymbolId} : s.resolve name = some id ↔ ∃ out, InEffect before name id out ∧
      ∀ {id' out'}, InEffect before name id' out' → out ≤ out' := by
  have hfound : ∀ {id}, s.resolve name = some id → ∃ out, InEffect before name id out ∧
      ∀ {id' out'}, InEffect before name id' out' → out ≤ out' := by
    intro id hresolve
    obtain ⟨out, scope, hscope, hlookup, hinner⟩ := exists_of_resolve hresolve
    refine ⟨out, (h.lookup_eq_some_iff hscope).mp hlookup, fun {id' out'} heffect => ?_⟩
    by_contra hlt
    obtain ⟨scope', hscope', -⟩ := h.names.mp heffect
    have hnone := hinner out' scope' (by omega) hscope'
    rw [(h.lookup_eq_some_iff hscope').mpr heffect] at hnone
    cases hnone
  refine ⟨hfound, ?_⟩
  rintro ⟨out, heffect, hleast⟩
  -- something is found, and it can only be this
  cases hresolve : s.resolve name with
  | none =>
    obtain ⟨scope, hscope, -⟩ := h.names.mp heffect
    have hnone := List.findSome?_eq_none_iff.mp hresolve scope (List.mem_of_getElem? hscope)
    rw [(h.lookup_eq_some_iff hscope).mpr heffect] at hnone
    cases hnone
  | some id' =>
    obtain ⟨out', heffect', hleast'⟩ := hfound hresolve
    obtain rfl : out' = out := Nat.le_antisymm (hleast' heffect) (hleast heffect')
    exact congrArg some (h.unique heffect heffect')

/-- A text that can be gone through from its start is scoped lexically. -/
theorem Walk.lexicallyScoped (h : Walk tables initial marks s₁) (hend : s₁.enclosing = [])
    (hcount : s₁.count = tables.symbols.size) : LexicallyScoped tables marks where
  nested := by
    have := h.depthAfter
    rwa [hend] at this
  symbols := by
    have := h.declared.2
    rwa [hcount, show initial.count = 0 from rfl, Nat.sub_zero, ← List.range_eq_range'] at this
  mention := by
    rintro before after name meaning rfl
    obtain ⟨s, hbefore, hrest⟩ := h.of_append
    have hknows : s.Knows before := knows_initial.walk hbefore
    cases hrest with
    | cons first rest =>
      cases first with
      | @mention _ _ _ id found means =>
        obtain ⟨out, heffect, hleast⟩ := hknows.resolve_eq_some_iff.mp found
        refine ⟨id, out, heffect, means, fun {id' out'} heffect' => ⟨hleast heffect', ?_⟩⟩
        rintro rfl
        exact hknows.unique heffect heffect'
  once := by
    rintro before between after name id id' rfl hdepth
    rw [← List.cons_append, ← List.append_assoc] at h
    obtain ⟨s, hbefore, hrest⟩ := h.of_append
    have hknows : s.Knows (before ++ declare name id :: between) := knows_initial.walk hbefore
    -- the first declaration is still in effect where the second one stands
    obtain ⟨scope, hscope, hmem⟩ := hknows.names.mp ⟨before, between, rfl, hdepth⟩
    cases hscope
    cases hrest with
    | cons first rest =>
      cases first with
      | declare isNew =>
        have := List.lookup_eq_none_iff.mp isNew _ hmem
        simp at this

end Scoping

end ParenC
