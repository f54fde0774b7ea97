/-
The declarations that the journal tells of.

A declaration is noted with its name, its number and the number of scopes around its own one.  So
the events of a run tell which names every scope was given, without a look at the tables.
-/
import Mathlib.Data.List.Basic
import ParenC.Log

namespace ParenC

/-- A declaration, as the journal tells of it. -/
structure Declaration where
  /-- What was declared. -/
  sort : SymbolSort
  /-- The name. -/
  name : String
  /-- The number of its symbol. -/
  id : SymbolId
  /-- The number of scopes around the one that has the name. -/
  depth : Nat
deriving DecidableEq

/-- The declaration that an event tells of. -/
def Event.declaration? : Event → Option Declaration
  | .declared sort name id depth => some ⟨sort, name, id, depth⟩
  | _ => none

/-- The declarations among the events. -/
def declarationsIn (events : List Event) : List Declaration := events.filterMap Event.declaration?

/-- The names that scopes with `depth` others around them were given, the earliest first. -/
def declaredAt (depth : Nat) (events : List Event) : Scope :=
  ((declarationsIn events).filter (·.depth = depth)).map fun declaration =>
    (declaration.name, declaration.id)

section

variable {events events' : List Event} {event : Event} {depth : Nat}

@[simp] lemma declarationsIn_nil : declarationsIn [] = [] := rfl

@[simp] lemma declarationsIn_append :
    declarationsIn (events ++ events') = declarationsIn events ++ declarationsIn events' :=
  List.filterMap_append

lemma declarationsIn_singleton : declarationsIn [event] = event.declaration?.toList := by
  cases event <;> rfl

@[simp] lemma declaredAt_append :
    declaredAt depth (events ++ events') = declaredAt depth events ++ declaredAt depth events' := by
  simp [declaredAt]

/-- Where there is no declaration, no scope was given a name. -/
lemma declaredAt_of_none (h : declarationsIn events = []) : declaredAt depth events = [] := by
  simp [declaredAt, h]

/-- Scopes that are closed by then do not count. -/
lemma declaredAt_of_deeper (h : ∀ declaration ∈ declarationsIn events, depth < declaration.depth) :
    declaredAt depth events = [] := by
  simp only [declaredAt, List.map_eq_nil_iff, List.filter_eq_nil_iff, decide_eq_true_eq]
  intro declaration hdeclaration
  exact Nat.ne_of_gt (h declaration hdeclaration)

end

/-! ## New names -/

/-- The names that are new where the others are known already, each of them once. -/
def newNames (known names : List String) : List String := (names.removeAll known).eraseDups

@[simp] lemma newNames_nil (known : List String) : newNames known [] = [] := rfl

lemma newNames_singleton_of_mem {known : List String} {name : String} (h : name ∈ known) :
    newNames known [name] = [] := by
  simp [newNames, List.removeAll, h]

lemma newNames_singleton_of_not_mem {known : List String} {name : String} (h : name ∉ known) :
    newNames known [name] = [name] := by
  simp [newNames, List.removeAll, h, List.eraseDups_cons]

lemma mem_newNames {known names : List String} {name : String} :
    name ∈ newNames known names ↔ name ∈ names ∧ name ∉ known := by
  simp [newNames, List.removeAll]

/-- What comes later is new if it is neither known nor among what came before. -/
lemma newNames_append {known known' xs ys : List String}
    (h : ∀ name, name ∈ known' ↔ name ∈ known ∨ name ∈ newNames known xs) :
    newNames known (xs ++ ys) = newNames known xs ++ newNames known' ys := by
  have hlater : (ys.removeAll known).removeAll (xs.removeAll known) = ys.removeAll known' := by
    simp only [List.removeAll, List.filter_filter]
    refine List.filter_congr fun name _ => ?_
    by_cases hknown : name ∈ known <;> by_cases hname : name ∈ xs <;>
      simp [h, mem_newNames, hknown, hname]
  simp only [newNames, ← hlater]
  rw [show (xs ++ ys).removeAll known = xs.removeAll known ++ ys.removeAll known from
    List.filter_append .., List.eraseDups_append]

lemma newNames_known_nil (names : List String) : newNames [] names = names.eraseDups := by
  simp [newNames]

/-- Every name is left once. -/
lemma nodup_eraseDups (names : List String) : names.eraseDups.Nodup := by
  induction hlength : names.length using Nat.strongRecOn generalizing names with
  | _ length ih =>
    cases names with
    | nil => simp
    | cons name rest =>
      have hfilter := List.length_filter_le (fun other => !other == name) rest
      rw [List.length_cons] at hlength
      rw [List.eraseDups_cons, List.nodup_cons]
      exact ⟨by simp [List.mem_eraseDups], ih _ (by omega) _ rfl⟩

end ParenC
