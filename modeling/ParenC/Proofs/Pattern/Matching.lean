/-
What patterns find.

`Matches` says which pieces of a text a pattern stands for, by the gaps where they start and end.
It knows nothing of marks.  Following a pattern from marked gaps leads to just the gaps where such
a piece ends (`marked_follow`), so a pattern is found just if there is a piece (`foundIn_iff`).

The argument is about repetitions.  Only so many rounds of them are made as there are gaps.  Whoever
makes more rounds stays at some gap for one of them, because a piece never ends before it starts;
that round may be left out or made again, so all numbers of rounds beyond the number of gaps lead to
the same gaps (`Rounds.any`).
-/
import Mathlib.Algebra.Group.Nat.Defs
import Mathlib.Data.List.Infix
import Mathlib.Tactic.Common
import ParenC.Pattern.Basic

namespace ParenC.Pattern

/-! ## Pieces -/

/-- Going from gap to gap in a number of rounds. -/
def Rounds (step : Nat → Nat → Prop) : Nat → Nat → Nat → Prop
  | 0, i, j => i = j
  | count + 1, i, k => ∃ j, step i j ∧ Rounds step count j k

/-- Steps lead forward, and not beyond the last gap. -/
def Forward (size : Nat) (step : Nat → Nat → Prop) : Prop :=
  ∀ i j, i ≤ size → step i j → i ≤ j ∧ j ≤ size

/-- The character before a gap. -/
def before? (text : List Char) : Nat → Option Char
  | 0 => none
  | i + 1 => text[i]?

/-- The piece of the text between two gaps is one that the pattern stands for.  An upper bound of a
repetition that is less than the lower one is taken for the lower one. -/
def Matches (text : List Char) : Pattern → Nat → Nat → Prop
  | empty, i, j => i = j
  | literal wanted, i, j => wanted <+: text.drop i ∧ j = i + wanted.length
  | oneOf set _, i, j => (∃ c, text[i]? = some c ∧ set.contains c = true) ∧ j = i + 1
  | look condition, i, j => condition.holds (before? text i) text[i]? = true ∧ i = j
  | group _ body, i, j => body.Matches text i j
  | times body least most? _, i, j => ∃ count, least ≤ count ∧
      (∀ most ∈ most?, count ≤ max least most) ∧ Rounds (body.Matches text) count i j
  | seq first second, i, k => ∃ j, first.Matches text i j ∧ second.Matches text j k
  | either left right, i, j => left.Matches text i j ∨ right.Matches text i j

namespace Rounds

variable {step : Nat → Nat → Prop} {size count other i j k : Nat}

lemma append (h₁ : Rounds step count i j) (h₂ : Rounds step other j k) :
    Rounds step (count + other) i k := by
  induction count generalizing i with
  | zero =>
    cases h₁
    rwa [Nat.zero_add]
  | succ count ih =>
    obtain ⟨mid, hstep, hrest⟩ := h₁
    rw [Nat.add_right_comm]
    exact ⟨mid, hstep, ih hrest⟩

lemma split (h : Rounds step (count + other) i k) :
    ∃ j, Rounds step count i j ∧ Rounds step other j k := by
  induction count generalizing i with
  | zero => exact ⟨i, rfl, by rwa [Nat.zero_add] at h⟩
  | succ count ih =>
    rw [Nat.add_right_comm] at h
    obtain ⟨mid, hstep, hrest⟩ := h
    obtain ⟨j, hfirst, hsecond⟩ := ih hrest
    exact ⟨j, ⟨mid, hstep, hfirst⟩, hsecond⟩

lemma one : Rounds step 1 i j ↔ step i j := by
  simp [Rounds]

lemma bounds (hforward : Forward size step) (hi : i ≤ size) (h : Rounds step count i j) :
    i ≤ j ∧ j ≤ size := by
  induction count generalizing i with
  | zero =>
    cases h
    exact ⟨Nat.le_refl _, hi⟩
  | succ count ih =>
    obtain ⟨mid, hstep, hrest⟩ := h
    have hmid := hforward i mid hi hstep
    have hj := ih hmid.2 hrest
    exact ⟨Nat.le_trans hmid.1 hj.1, hj.2⟩

/-- Either every round leads on, or one of them stays at its gap. -/
lemma leads_or_stays (hforward : Forward size step) (hi : i ≤ size) (h : Rounds step count i k) :
    i + count ≤ k ∨ ∃ front back j, count = front + 1 + back ∧ Rounds step front i j ∧
      step j j ∧ Rounds step back j k := by
  induction count generalizing i with
  | zero =>
    cases h
    exact .inl (Nat.le_refl _)
  | succ count ih =>
    obtain ⟨mid, hstep, hrest⟩ := h
    have hmid := hforward i mid hi hstep
    rcases Nat.eq_or_lt_of_le hmid.1 with rfl | hlt
    · exact .inr ⟨0, count, i, by omega, rfl, hstep, hrest⟩
    · rcases ih hmid.2 hrest with hfar | ⟨front, back, j, hcount, hfront, hstays, hback⟩
      · exact .inl (by omega)
      · exact .inr ⟨front + 1, back, j, by omega, ⟨mid, hstep, hfront⟩, hstays, hback⟩

/-- If there are more rounds than gaps to go to, one of them stays at its gap. -/
lemma stays (hforward : Forward size step) (hi : i ≤ size) (hcount : size < count)
    (h : Rounds step count i k) : ∃ front back j, count = front + 1 + back ∧
      Rounds step front i j ∧ step j j ∧ Rounds step back j k := by
  rcases leads_or_stays hforward hi h with hfar | hstays
  · have := (bounds hforward hi h).2
    omega
  · exact hstays

/-- Such a round can be made again. -/
lemma more (hforward : Forward size step) (hi : i ≤ size) (hcount : size < count)
    (h : Rounds step count i k) : Rounds step (count + 1) i k := by
  obtain ⟨front, back, j, rfl, hfront, hstays, hback⟩ := stays hforward hi hcount h
  have hagain := hfront.append (append (one.mpr hstays) (append (one.mpr hstays) hback))
  rwa [show front + 1 + back + 1 = front + (1 + (1 + back)) by omega]

/-- It can be left out, too. -/
lemma fewer (hforward : Forward size step) (hi : i ≤ size) (hcount : size ≤ count)
    (h : Rounds step (count + 1) i k) : Rounds step count i k := by
  obtain ⟨front, back, j, hsum, hfront, -, hback⟩ :=
    stays hforward hi (Nat.lt_succ_of_le hcount) h
  have hshort := hfront.append hback
  rwa [show count = front + back by omega]

/-- All numbers of rounds beyond the number of steps forward lead to the same gaps. -/
lemma any (hforward : Forward size step) (hi : i ≤ size) (hcount : size < count)
    (hother : size < other) (h : Rounds step count i k) : Rounds step other i k := by
  have hlast : Rounds step (size + 1) i k := by
    induction count, hcount using Nat.le_induction with
    | base => exact h
    | succ count hcount ih => exact ih (fewer hforward hi (Nat.le_of_succ_le hcount) h)
  induction other, hother using Nat.le_induction with
  | base => exact hlast
  | succ other hother ih => exact more hforward hi hother ih

end Rounds

/-! ## Repetitions -/

/-- The bounds of a repetition come down to a number of rounds that are needed and a number of
rounds that may be made on top, neither of them more than there are gaps. -/
lemma rounds_within {step : Nat → Nat → Prop} {size least i k : Nat} {most? : Option Nat}
    (hforward : Forward size step) (hi : i ≤ size) :
    (∃ count, least ≤ count ∧ (∀ most ∈ most?, count ≤ max least most) ∧ Rounds step count i k) ↔
      ∃ j, Rounds step (min least (size + 1)) i j ∧ ∃ count ≤ most?.elim (size + 1)
        (fun most => min (most - least) (size + 1)), Rounds step count j k := by
  constructor
  · rintro ⟨count, hleast, hmost, hrounds⟩
    rcases Nat.lt_or_ge size least with hlarge | hsmall
    · -- all that is needed is more than there are gaps
      refine ⟨k, ?_, 0, Nat.zero_le _, rfl⟩
      rw [Nat.min_eq_right hlarge]
      exact hrounds.any hforward hi (by omega) (Nat.lt_succ_self size)
    · rw [Nat.min_eq_left (by omega)]
      obtain ⟨further, rfl⟩ := Nat.exists_eq_add_of_le hleast
      obtain ⟨j, hneeded, hfurther⟩ := hrounds.split
      have hj := (hneeded.bounds hforward hi).2
      refine ⟨j, hneeded, ?_⟩
      rcases Nat.lt_or_ge size further with hlong | hshort
      · refine ⟨size + 1, ?_, hfurther.any hforward hj hlong (Nat.lt_succ_self size)⟩
        cases most? with
        | none => exact Nat.le_refl _
        | some most =>
          have := hmost most rfl
          simp only [Option.elim_some]
          omega
      · refine ⟨further, ?_, hfurther⟩
        cases most? with
        | none => exact Nat.le_succ_of_le hshort
        | some most =>
          have := hmost most rfl
          simp only [Option.elim_some]
          omega
  · rintro ⟨j, hneeded, count, hcount, hfurther⟩
    have hrounds := hneeded.append hfurther
    rcases Nat.lt_or_ge size least with hlarge | hsmall
    · rw [Nat.min_eq_right hlarge] at hrounds
      exact ⟨least, Nat.le_refl least, fun most _ => Nat.le_max_left _ _,
        hrounds.any hforward hi (by omega) hlarge⟩
    · rw [Nat.min_eq_left (by omega)] at hrounds
      refine ⟨least + count, Nat.le_add_right _ _, fun most hmem => ?_, hrounds⟩
      cases hmem
      simp only [Option.elim_some] at hcount
      omega

/-! ## Pieces lie in the text -/

/-- A piece ends in the text, and not before it starts. -/
lemma matches_forward (text : List Char) (pattern : Pattern) :
    Forward text.length (pattern.Matches text) := by
  induction pattern with
  | empty =>
    rintro i j hi rfl
    exact ⟨Nat.le_refl i, hi⟩
  | literal wanted =>
    rintro i j hi ⟨hfront, rfl⟩
    have hlength := hfront.length_le
    rw [List.length_drop] at hlength
    omega
  | oneOf set bytes =>
    rintro i j hi ⟨⟨c, hget, -⟩, rfl⟩
    have := (List.getElem?_eq_some_iff.mp hget).1
    omega
  | look condition =>
    rintro i j hi ⟨-, rfl⟩
    exact ⟨Nat.le_refl i, hi⟩
  | group number body ih => exact ih
  | times body least most? few ih =>
    rintro i j hi ⟨count, -, -, hrounds⟩
    exact hrounds.bounds ih hi
  | seq first second ihFirst ihSecond =>
    rintro i k hi ⟨j, hfirst, hsecond⟩
    have hj := ihFirst i j hi hfirst
    have hk := ihSecond j k hj.2 hsecond
    exact ⟨Nat.le_trans hj.1 hk.1, hk.2⟩
  | either left right ihLeft ihRight =>
    rintro i j hi (hleft | hright)
    · exact ihLeft i j hi hleft
    · exact ihRight i j hi hright

/-! ## Marks -/

/-- The gap is marked. -/
def Marked (marks : List Bool) (i : Nat) : Prop := marks[i]? = some true

/-- The marks lead to other ones by a step. -/
def Leads (step : Nat → Nat → Prop) (marks next : List Bool) : Prop :=
  ∀ j, Marked next j ↔ ∃ i, Marked marks i ∧ step i j

variable {text : List Char} {marks left right : List Bool} {i j : Nat}

lemma Marked.lt (h : Marked marks i) : i < marks.length := (List.getElem?_eq_some_iff.mp h).1

lemma length_merge (h : left.length = right.length) : (merge left right).length = left.length := by
  rw [merge, List.length_zipWith, ← h, Nat.min_self]

lemma marked_merge (h : left.length = right.length) :
    Marked (merge left right) i ↔ Marked left i ∨ Marked right i := by
  unfold Marked merge
  rw [List.getElem?_zipWith]
  rcases Nat.lt_or_ge i left.length with hlt | hge
  · rw [List.getElem?_eq_getElem hlt, List.getElem?_eq_getElem (h ▸ hlt)]
    simp
  · rw [List.getElem?_eq_none hge, List.getElem?_eq_none (h ▸ hge)]
    simp

lemma length_advance {test : Char → Bool} (h : marks.length = text.length + 1) :
    (advance text test marks).length = text.length + 1 := by
  rw [advance, List.length_cons, List.length_zipWith, h]
  omega

lemma leads_advance (text : List Char) (test : Char → Bool) (marks : List Bool) :
    Leads (fun i j => (∃ c, text[i]? = some c ∧ test c = true) ∧ j = i + 1) marks
      (advance text test marks) := by
  intro j
  cases j with
  | zero => simp [Marked, advance]
  | succ i =>
    unfold Marked advance
    rw [List.getElem?_cons_succ, List.getElem?_zipWith]
    constructor
    · intro h
      split at h
      · rename_i mark c hmark hc
        simp only [Option.some.injEq, Bool.and_eq_true] at h
        exact ⟨i, hmark.trans (congrArg some h.1), ⟨c, hc, h.2⟩, rfl⟩
      · cases h
    · rintro ⟨i', hmark, ⟨c, hc, htest⟩, hnext⟩
      cases hnext
      rw [hmark, hc]
      simp [htest]

lemma leads_refl (marks : List Bool) : Leads (fun i j => i = j) marks marks := by
  intro j
  simp

lemma Leads.trans {first second : Nat → Nat → Prop} {mid next : List Bool}
    (h₁ : Leads first marks mid) (h₂ : Leads second mid next) :
    Leads (fun i k => ∃ j, first i j ∧ second j k) marks next := by
  intro k
  rw [h₂ k]
  constructor
  · rintro ⟨j, hj, hsecond⟩
    obtain ⟨i, hi, hfirst⟩ := (h₁ j).mp hj
    exact ⟨i, hi, j, hfirst, hsecond⟩
  · rintro ⟨i, hi, j, hfirst, hsecond⟩
    exact ⟨j, (h₁ j).mpr ⟨i, hi, hfirst⟩, hsecond⟩

/-- Only steps from marked gaps count. -/
lemma Leads.congr {step other : Nat → Nat → Prop} {next : List Bool} (h : Leads step marks next)
    (hsame : ∀ i j, Marked marks i → (step i j ↔ other i j)) : Leads other marks next := by
  intro j
  rw [h j]
  exact exists_congr fun i => and_congr_right fun hi => hsame i j hi

lemma Leads.merge {first second : Nat → Nat → Prop}
    (h₁ : Leads first marks left) (h₂ : Leads second marks right)
    (hlength : left.length = right.length) :
    Leads (fun i j => first i j ∨ second i j) marks (merge left right) := by
  intro j
  rw [marked_merge hlength, h₁ j, h₂ j, ← exists_or]
  exact exists_congr fun i => (and_or_left ..).symm

/-! ## Rounds of marks -/

/-- Stopping where the marks stay as they are changes nothing. -/
lemma iterate_succ (f : List Bool → List Bool) (count : Nat) (marks : List Bool) :
    iterate f (count + 1) marks = iterate f count (f marks) := by
  have hfixed : ∀ count, f marks = marks → iterate f count marks = marks := by
    intro count hf
    cases count with
    | zero => rfl
    | succ count => rw [iterate, hf, if_pos rfl]
  rw [iterate]
  split
  · rename_i hf
    rw [hf, hfixed count hf]
  · rfl

section

variable {f : List Bool → List Bool} {step : Nat → Nat → Prop} {size : Nat}

lemma length_iterate (hlength : ∀ marks, marks.length = size → (f marks).length = size)
    (count : Nat) (h : marks.length = size) : (iterate f count marks).length = size := by
  induction count generalizing marks with
  | zero => exact h
  | succ count ih =>
    rw [iterate_succ]
    exact ih (hlength marks h)

lemma leads_iterate (hlength : ∀ marks, marks.length = size → (f marks).length = size)
    (hleads : ∀ marks, marks.length = size → Leads step marks (f marks)) (count : Nat)
    (h : marks.length = size) : Leads (Rounds step count) marks (iterate f count marks) := by
  induction count generalizing marks with
  | zero => exact leads_refl marks
  | succ count ih =>
    rw [iterate_succ]
    exact (hleads marks h).trans (ih (hlength marks h))

/-- Rounds in which one may also stay are some of the rounds. -/
lemma rounds_or_stay {count i k : Nat} :
    Rounds (fun i j => i = j ∨ step i j) count i k ↔ ∃ some ≤ count, Rounds step some i k := by
  induction count generalizing i with
  | zero =>
    constructor
    · intro h
      exact ⟨0, Nat.le_refl 0, h⟩
    · rintro ⟨count, hcount, h⟩
      rwa [Nat.le_zero.mp hcount] at h
  | succ count ih =>
    constructor
    · rintro ⟨j, rfl | hstep, hrest⟩
      · obtain ⟨made, hmade, h⟩ := ih.mp hrest
        exact ⟨made, Nat.le_succ_of_le hmade, h⟩
      · obtain ⟨made, hmade, h⟩ := ih.mp hrest
        exact ⟨made + 1, Nat.succ_le_succ hmade, j, hstep, h⟩
    · rintro ⟨made, hmade, h⟩
      cases made with
      | zero => exact ⟨i, .inl rfl, ih.mpr ⟨0, Nat.zero_le _, h⟩⟩
      | succ made =>
        obtain ⟨j, hstep, hrest⟩ := h
        exact ⟨j, .inr hstep, ih.mpr ⟨made, Nat.le_of_succ_le_succ hmade, hrest⟩⟩

end

/-! ## Following patterns -/

lemma length_gaps (text : List Char) : (gaps text).length = text.length + 1 := by
  simp [gaps]

lemma gaps_getElem? (hi : i ≤ text.length) : (gaps text)[i]? = some (before? text i, text[i]?) := by
  have hbefore : (none :: text.map some)[i]? = some (before? text i) := by
    cases i with
    | zero => rfl
    | succ i =>
      rw [List.getElem?_cons_succ, List.getElem?_map, before?, List.getElem?_eq_getElem hi]
      rfl
  have hafter : (text.map some ++ [none])[i]? = some text[i]? := by
    rcases Nat.lt_or_eq_of_le hi with hlt | rfl
    · rw [List.getElem?_append_left (by simpa using hlt), List.getElem?_map,
        List.getElem?_eq_getElem hlt]
      rfl
    · rw [List.getElem?_append_right (by simp), List.getElem?_eq_none (Nat.le_refl _)]
      simp
  rw [gaps, List.zip, List.getElem?_zipWith, hbefore, hafter]

lemma length_advanceAll (wanted : List Char) (h : marks.length = text.length + 1) :
    (advanceAll text wanted marks).length = text.length + 1 := by
  induction wanted generalizing marks with
  | nil => exact h
  | cons c rest ih =>
    rw [advanceAll]
    split
    · exact ih (length_advance h)
    · exact h

lemma length_follow (text : List Char) (pattern : Pattern) :
    ∀ marks : List Bool, marks.length = text.length + 1 →
      (pattern.follow text marks).length = text.length + 1 := by
  induction pattern with
  | empty => exact fun marks h => h
  | literal wanted => exact fun marks h => length_advanceAll wanted h
  | oneOf set bytes => exact fun marks h => length_advance h
  | look condition =>
    intro marks h
    rw [follow, List.length_zipWith, h, length_gaps, Nat.min_self]
  | group number body ih => exact ih
  | times body least most? few ih =>
    intro marks h
    refine length_iterate (fun marks h => ?_) _ (length_iterate ih _ h)
    rw [length_merge (h.trans (ih marks h).symm), h]
  | seq first second ihFirst ihSecond => exact fun marks h => ihSecond _ (ihFirst marks h)
  | either left right ihLeft ihRight =>
    intro marks h
    have hleft := ihLeft marks h
    rw [follow, length_merge (hleft.trans (ihRight marks h).symm), hleft]

lemma cons_front_iff {c : Char} {rest : List Char} :
    c :: rest <+: text.drop i ↔ text[i]? = some c ∧ rest <+: text.drop (i + 1) := by
  rcases Nat.lt_or_ge i text.length with hlt | hge
  · rw [List.drop_eq_getElem_cons hlt, List.cons_prefix_cons, List.getElem?_eq_getElem hlt,
      Option.some.injEq, eq_comm]
  · rw [List.drop_eq_nil_of_le hge, List.getElem?_eq_none hge]
    simp

lemma leads_advanceAll (wanted : List Char) (marks : List Bool) :
    Leads (Matches text (.literal wanted)) marks (advanceAll text wanted marks) := by
  induction wanted generalizing marks with
  | nil =>
    refine (leads_refl marks).congr fun i j _ => ?_
    simp [Matches, eq_comm]
  | cons c rest ih =>
    rw [advanceAll]
    split
    · refine ((leads_advance text (· == c) marks).trans (ih _)).congr fun i k _ => ?_
      simp only [Matches, cons_front_iff, List.length_cons]
      constructor
      · rintro ⟨_, ⟨⟨d, hget, hd⟩, rfl⟩, hfront, rfl⟩
        cases LawfulBEq.eq_of_beq hd
        exact ⟨⟨hget, hfront⟩, by omega⟩
      · rintro ⟨⟨hget, hfront⟩, rfl⟩
        exact ⟨i + 1, ⟨⟨c, hget, BEq.rfl⟩, rfl⟩, hfront, by omega⟩
    · rename_i hnone
      have hno : ∀ i, ¬ Marked marks i := by
        intro i hi
        exact hnone (List.contains_iff_mem.mpr (List.mem_of_getElem? hi))
      intro j
      simp [hno]

lemma leads_look (condition : Look) (hlength : marks.length = text.length + 1) :
    Leads (Matches text (.look condition)) marks (follow text (.look condition) marks) := by
  intro j
  unfold Marked follow
  rw [List.getElem?_zipWith]
  rcases Nat.lt_or_ge j marks.length with hlt | hge
  · rw [gaps_getElem? (by omega), List.getElem?_eq_getElem hlt]
    simp only [Option.some.injEq, Bool.and_eq_true, Matches]
    constructor
    · rintro ⟨hmark, hholds⟩
      exact ⟨j, by rw [List.getElem?_eq_getElem hlt, hmark], hholds, rfl⟩
    · rintro ⟨_, hmark, hholds, rfl⟩
      rw [List.getElem?_eq_getElem hlt, Option.some.injEq] at hmark
      exact ⟨hmark, hholds⟩
  · rw [List.getElem?_eq_none hge]
    constructor
    · intro h
      cases h
    · rintro ⟨_, hmark, -, rfl⟩
      rw [List.getElem?_eq_none hge] at hmark
      cases hmark

lemma leads_times {body : Pattern} (least : Nat) (most? : Option Nat) (few : Bool)
    (hbody : ∀ marks : List Bool, marks.length = text.length + 1 →
      Leads (body.Matches text) marks (body.follow text marks))
    (h : marks.length = text.length + 1) :
    Leads (Matches text (.times body least most? few)) marks
      (follow text (.times body least most? few) marks) := by
  have hlength := length_follow text body
  have hmerge : ∀ marks : List Bool, marks.length = text.length + 1 →
      marks.length = (body.follow text marks).length :=
    fun marks h => h.trans (hlength marks h).symm
  have hspread : ∀ marks : List Bool, marks.length = text.length + 1 →
      Leads (fun i j => i = j ∨ body.Matches text i j) marks
        (merge marks (body.follow text marks)) :=
    fun marks h => (leads_refl marks).merge (hbody marks h) (hmerge marks h)
  have hkept : ∀ marks : List Bool, marks.length = text.length + 1 →
      (merge marks (body.follow text marks)).length = text.length + 1 :=
    fun marks h => (length_merge (hmerge marks h)).trans h
  have hneeded := leads_iterate hlength hbody (min least (text.length + 1)) h
  have hfurther := leads_iterate hkept hspread
    (most?.elim (text.length + 1) fun most => min (most - least) (text.length + 1))
    (length_iterate hlength (min least (text.length + 1)) h)
  have hfollow : follow text (.times body least most? few) marks =
      iterate (fun marks => merge marks (body.follow text marks))
        (most?.elim (text.length + 1) fun most => min (most - least) (text.length + 1))
        (iterate (body.follow text) (min least (text.length + 1)) marks) := by
    cases most? <;> rfl
  rw [hfollow]
  refine (hneeded.trans hfurther).congr fun i k hi => ?_
  have hgap : i ≤ text.length := by
    have := hi.lt
    omega
  simp only [rounds_or_stay]
  exact (rounds_within (matches_forward text body) hgap).symm

/-- Following a pattern leads from marked gaps to just the gaps where its pieces end. -/
theorem leads_follow (text : List Char) (pattern : Pattern) :
    ∀ marks : List Bool, marks.length = text.length + 1 →
      Leads (pattern.Matches text) marks (pattern.follow text marks) := by
  induction pattern with
  | empty => exact fun marks _ => leads_refl marks
  | literal wanted => exact fun marks _ => leads_advanceAll wanted marks
  | oneOf set bytes => exact fun marks _ => leads_advance text set.contains marks
  | look condition => exact fun marks h => leads_look condition h
  | group number body ih => exact ih
  | times body least most? few ih => exact fun marks h => leads_times least most? few ih h
  | seq first second ihFirst ihSecond =>
    intro marks h
    exact (ihFirst marks h).trans (ihSecond _ (length_follow text first marks h))
  | either left right ihLeft ihRight =>
    intro marks h
    exact (ihLeft marks h).merge (ihRight marks h)
      ((length_follow text left marks h).trans (length_follow text right marks h).symm)

/-- A pattern is found in a text just if it stands for some piece of it. -/
theorem foundIn_iff {pattern : Pattern} {text : String} : pattern.foundIn text = true ↔
    ∃ i j, i ≤ text.toList.length ∧ pattern.Matches text.toList i j := by
  have hall : ∀ i, Marked (List.replicate (text.toList.length + 1) true) i ↔
      i ≤ text.toList.length := by
    intro i
    simp only [Marked, List.getElem?_replicate, Option.ite_none_right_eq_some, and_true,
      Nat.lt_succ_iff]
  have hleads := leads_follow text.toList pattern (List.replicate (text.toList.length + 1) true)
    List.length_replicate
  rw [foundIn, List.contains_iff_mem, List.mem_iff_getElem?]
  constructor
  · rintro ⟨j, hj⟩
    obtain ⟨i, hi, hmatches⟩ := (hleads j).mp hj
    exact ⟨i, j, (hall i).mp hi, hmatches⟩
  · rintro ⟨i, j, hi, hmatches⟩
    exact ⟨j, (hleads j).mpr ⟨i, (hall i).mpr hi, hmatches⟩⟩

end ParenC.Pattern
