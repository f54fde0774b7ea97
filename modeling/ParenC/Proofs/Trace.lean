/-
Systems that run step by step, and the events that can be seen while they do.

Two systems show the same events if the steps of the first are answered by walks of the second.  A
step may be answered by no step at all, as long as it shows nothing and brings some measure down;
so neither of the two can go on in silence while the other shows something.
-/
import Mathlib.Data.List.Infix
import Mathlib.Tactic.Common

namespace ParenC

variable {σ τ ε : Type}

/-- A system that shows events in each of its steps until it stops. -/
abbrev System (σ ε : Type) := σ → Option (List ε × σ)

namespace System

/-- What is shown in the first steps. -/
def trace (system : System σ ε) : Nat → σ → List ε
  | 0, _ => []
  | steps + 1, s =>
    match system s with
    | none => []
    | some (events, s') => events ++ trace system steps s'

/-- The system shows these events first, in however many steps. -/
def Shows (system : System σ ε) (s : σ) (events : List ε) : Prop :=
  ∃ steps, events <+: system.trace steps s

/-- The system gets from one state to another in a number of steps and shows the events. -/
inductive Walks (system : System σ ε) : Nat → σ → List ε → σ → Prop
  | nil {s} : Walks system 0 s [] s
  | cons {steps s events s' others s''} (first : system s = some (events, s'))
      (rest : Walks system steps s' others s'') : Walks system (steps + 1) s (events ++ others) s''

variable {system : System σ ε} {s s' s'' : σ} {events others : List ε} {steps n k : Nat}

lemma Walks.one (h : system s = some (events, s')) : system.Walks 1 s events s' := by
  have hwalk := Walks.cons h .nil
  rwa [List.append_nil] at hwalk

lemma Walks.trans (h : system.Walks n s events s') (h' : system.Walks k s' others s'') :
    system.Walks (n + k) s (events ++ others) s'' := by
  induction h with
  | nil => simpa using h'
  | @cons steps s first mid rest last hstep _ ih =>
    rw [List.append_assoc, Nat.add_right_comm]
    exact .cons hstep (ih h')

/-- A step that shows nothing comes first. -/
lemma Walks.silent (h : system s = some ([], s')) (h' : system.Walks n s' events s'') :
    system.Walks (n + 1) s events s'' := .cons h h'

lemma trace_succ (h : system s = some (events, s')) (k : Nat) :
    system.trace (k + 1) s = events ++ system.trace k s' := by
  rw [System.trace, h]

/-- What is shown after a walk follows what is shown on it. -/
lemma Walks.trace (h : system.Walks n s events s') (k : Nat) :
    system.trace (n + k) s = events ++ system.trace k s' := by
  induction h with
  | nil => simp
  | cons first _ ih => rw [Nat.add_right_comm, trace_succ first, ih, List.append_assoc]

lemma trace_of_none (h : system s = none) (k : Nat) : system.trace k s = [] := by
  cases k with
  | zero => rfl
  | succ k => rw [System.trace, h]

/-- More steps show more. -/
lemma trace_mono (h : n ≤ k) : system.trace n s <+: system.trace k s := by
  induction n generalizing s k with
  | zero => exact List.nil_prefix
  | succ n ih =>
    obtain ⟨k, rfl⟩ : ∃ j, k = j + 1 := ⟨k - 1, by omega⟩
    cases hstep : system s with
    | none => simp [trace_of_none hstep]
    | some next =>
      rw [trace_succ hstep, trace_succ hstep]
      exact (List.prefix_append_right_inj _).mpr (ih (by omega))

/-- On a walk, no more is shown than on the whole of it. -/
lemma Walks.trace_prefix (h : system.Walks n s events s') (hk : k ≤ n) :
    system.trace k s <+: events := by
  have hwhole := h.trace 0
  rw [Nat.add_zero, System.trace, List.append_nil] at hwhole
  rw [← hwhole]
  exact trace_mono hk

/-! ## Simulation -/

/-- How the second system answers the first one in related states. -/
structure Simulates (first : System σ ε) (second : System τ ε) (related : σ → τ → Prop)
    (measure : σ → Nat) : Prop where
  /-- Where the first system stops, the second one does not show anything more. -/
  stops : ∀ {s t}, related s t → first s = none →
    ∃ n t', second.Walks n t [] t' ∧ second t' = none
  /-- A step of the first system is a walk of the second one. -/
  steps : ∀ {s t events s'}, related s t → first s = some (events, s') →
    ∃ n t', second.Walks n t events t' ∧ related s' t' ∧ (0 < n ∨ measure s' < measure s)

variable {first : System σ ε} {second : System τ ε} {related : σ → τ → Prop} {measure : σ → Nat}
  {t : τ}

/-- The second system shows what the first one does. -/
lemma Simulates.forth (h : Simulates first second related measure) (hst : related s t) (k : Nat) :
    ∃ n, first.trace k s <+: second.trace n t := by
  induction k generalizing s t with
  | zero => exact ⟨0, List.nil_prefix⟩
  | succ k ih =>
    cases hstep : first s with
    | none => exact ⟨0, by rw [trace_of_none hstep]; exact List.nil_prefix⟩
    | some next =>
      obtain ⟨events, s'⟩ := next
      obtain ⟨n, t', hwalk, hst', -⟩ := h.steps hst hstep
      obtain ⟨n', hshown⟩ := ih hst'
      refine ⟨n + n', ?_⟩
      rw [trace_succ hstep, hwalk.trace]
      exact (List.prefix_append_right_inj _).mpr hshown

/-- The first system shows what the second one does. -/
lemma Simulates.back (h : Simulates first second related measure) (hst : related s t) (k : Nat) :
    ∃ n, second.trace k t <+: first.trace n s := by
  -- On the steps of the second system, and on the measure where it takes none.
  induction k using Nat.strong_induction_on generalizing s t with
  | _ k ihSteps =>
    induction hmeasure : measure s using Nat.strong_induction_on generalizing s t with
    | _ size ihMeasure =>
      cases hstep : first s with
      | none =>
        obtain ⟨n, t', hwalk, hnone⟩ := h.stops hst hstep
        have hall := hwalk.trace k
        rw [trace_of_none hnone, List.append_nil] at hall
        refine ⟨0, ?_⟩
        rw [System.trace, ← hall]
        exact trace_mono (Nat.le_add_left k n)
      | some next =>
        obtain ⟨events, s'⟩ := next
        obtain ⟨n, t', hwalk, hst', hless⟩ := h.steps hst hstep
        by_cases hk : k ≤ n
        · -- The second system is still on its way.
          refine ⟨1, (hwalk.trace_prefix hk).trans ?_⟩
          rw [trace_succ hstep]
          exact List.prefix_append ..
        · obtain ⟨rest, rfl⟩ : ∃ rest, k = n + rest := ⟨k - n, by omega⟩
          have hrest : ∃ n', second.trace rest t' <+: first.trace n' s' := by
            rcases Nat.eq_zero_or_pos n with rfl | hpos
            · rw [Nat.zero_add] at ihMeasure
              exact ihMeasure (measure s') (by omega) hst' rfl
            · exact ihSteps rest (by omega) hst'
          obtain ⟨n', hshown⟩ := hrest
          refine ⟨n' + 1, ?_⟩
          rw [trace_succ hstep, hwalk.trace]
          exact (List.prefix_append_right_inj _).mpr hshown

/-- In related states the two systems show the same. -/
theorem Simulates.shows_iff (h : Simulates first second related measure) (hst : related s t)
    (events : List ε) : second.Shows t events ↔ first.Shows s events := by
  constructor
  · rintro ⟨k, hshown⟩
    obtain ⟨n, hmore⟩ := h.back hst k
    exact ⟨n, hshown.trans hmore⟩
  · rintro ⟨k, hshown⟩
    obtain ⟨n, hmore⟩ := h.forth hst k
    exact ⟨n, hshown.trans hmore⟩

end System

end ParenC
