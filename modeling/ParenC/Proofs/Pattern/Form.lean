/-
Patterns that are put together stand for the right pieces.

`ofSet`, `repeated`, `join` and `choose` simplify what they are given: sets of one character become
literals, repetitions of pieces without characters are cut short, literals are glued, alternatives
of single characters become sets, and what all branches start with is taken out.  None of this
changes which pieces of a text the pattern stands for.
-/
import ParenC.Pattern.Form
import ParenC.Proofs.Pattern.Matching

namespace ParenC.Pattern

/-! ## Sets of characters -/

lemma char_le_iff {a b : Char} : a ≤ b ↔ a.toNat ≤ b.toNat := by
  rw [Char.le_def, UInt32.le_iff_toNat_le]
  rfl

lemma char_eq_iff {a b : Char} : a = b ↔ a.toNat = b.toNat := by
  rw [← Char.val_inj, ← UInt32.toNat_inj]
  rfl

lemma toNat_earlier (a b : Char) : (earlier a b).toNat = min a.toNat b.toNat := by
  unfold earlier
  split
  · rename_i h
    exact (Nat.min_eq_left (char_le_iff.mp h)).symm
  · rename_i h
    exact (Nat.min_eq_right (Nat.le_of_not_le (mt char_le_iff.mpr h))).symm

lemma toNat_later (a b : Char) : (later a b).toNat = max a.toNat b.toNat := by
  unfold later
  split
  · rename_i h
    exact (Nat.max_eq_right (char_le_iff.mp h)).symm
  · rename_i h
    exact (Nat.max_eq_left (Nat.le_of_not_le (mt char_le_iff.mpr h))).symm

namespace CharRange

lemma contains_iff {range : CharRange} {c : Char} :
    range.contains c = true ↔ range.first.toNat ≤ c.toNat ∧ c.toNat ≤ range.last.toNat := by
  simp only [contains, Bool.and_eq_true, decide_eq_true_eq, char_le_iff]

/-- The hull of two ranges that touch has no further characters. -/
lemma contains_hull {left right : CharRange} (h : left.first.toNat ≤ right.last.toNat + 1)
    (h' : right.first.toNat ≤ left.last.toNat + 1) (c : Char) :
    (left.hull right).contains c = (left.contains c || right.contains c) := by
  have hleft := char_le_iff.mp left.ordered
  have hright := char_le_iff.mp right.ordered
  rw [Bool.eq_iff_iff, Bool.or_eq_true]
  simp only [contains_iff, hull, toNat_earlier, toNat_later]
  omega

/-- A range from a character to itself has no other. -/
lemma contains_of_same {range : CharRange} (h : range.first = range.last) {c : Char} :
    range.contains c = true ↔ c = range.first := by
  rw [contains_iff, ← h, char_eq_iff]
  omega

end CharRange

namespace CharSet

variable {c d : Char}

lemma contains_insertRange (range : CharRange) (ranges : List CharRange) (c : Char) :
    (insertRange range ranges).any (·.contains c) =
      (range.contains c || ranges.any (·.contains c)) := by
  induction ranges generalizing range with
  | nil => rfl
  | cons next rest ih =>
    rw [insertRange]
    split
    · rfl
    · split
      · rw [List.any_cons, ih, List.any_cons, Bool.or_left_comm]
      · rw [ih, CharRange.contains_hull (by omega) (by omega), List.any_cons, Bool.or_assoc]

lemma contains_union (left right : CharSet) (c : Char) :
    (left.union right).contains c = (left.contains c || right.contains c) := by
  have hfold : ∀ ranges others : List CharRange,
      (ranges.foldl (fun ranges range => insertRange range ranges) others).any (·.contains c) =
        (others.any (·.contains c) || ranges.any (·.contains c)) := by
    intro ranges
    induction ranges with
    | nil => simp
    | cons first rest ih =>
      intro others
      rw [List.foldl_cons, ih, contains_insertRange, List.any_cons, Bool.or_assoc,
        Bool.or_left_comm]
  exact hfold right.ranges left.ranges

lemma contains_single : (single d).contains c = true ↔ c = d := by
  rw [contains, single, List.any_cons, List.any_nil, Bool.or_false]
  exact CharRange.contains_of_same rfl

lemma contains_of_only? {set : CharSet} (h : set.only? = some d) :
    set.contains c = true ↔ c = d := by
  unfold only? at h
  split at h
  · rename_i range hranges
    split at h
    · rename_i hsame
      cases h
      rw [contains, hranges, List.any_cons, List.any_nil, Bool.or_false]
      exact CharRange.contains_of_same hsame
    · cases h
  · cases h

end CharSet

variable {text : List Char} {pattern : Pattern} {patterns others : List Pattern} {i j k : Nat}

/-! ## Single characters -/

lemma matches_char (c : Char) : Matches text (literal [c]) i j ↔ text[i]? = some c ∧ j = i + 1 := by
  simp [Matches, cons_front_iff]

lemma matches_ofSet (set : CharSet) (bytes : Bool) :
    Matches text (ofSet set bytes) i j ↔ Matches text (oneOf set bytes) i j := by
  unfold ofSet
  split
  · rename_i c honly
    rw [matches_char]
    simp only [Matches, CharSet.contains_of_only? honly, exists_eq_right]
  · rfl

/-! ## Repetitions -/

/-- Rounds that stay at their gaps can be repeated at will. -/
lemma rounds_of_stays {step : Nat → Nat → Prop} (hstays : ∀ i j, step i j → i = j) {count : Nat} :
    Rounds step count i j ↔ i = j ∧ (count = 0 ∨ step i i) := by
  induction count generalizing i with
  | zero => simp [Rounds]
  | succ count ih =>
    constructor
    · rintro ⟨mid, hstep, hrest⟩
      cases hstays i mid hstep
      exact ⟨(ih.mp hrest).1, .inr hstep⟩
    · rintro ⟨rfl, hzero | hstep⟩
      · cases hzero
      · exact ⟨i, hstep, ih.mpr ⟨rfl, .inr hstep⟩⟩

lemma eq_of_onlyEmpty (h : pattern.onlyEmpty = true) : ∀ i j, pattern.Matches text i j → i = j := by
  induction pattern with
  | empty => exact fun i j hmatches => hmatches
  | literal | oneOf => cases h
  | look condition => exact fun i j hmatches => hmatches.2
  | group number body ih => exact ih h
  | times body least most? few ih =>
    rintro i j ⟨count, -, -, hrounds⟩
    exact ((rounds_of_stays (ih (Bool.and_eq_true_iff.mp h).1)).mp hrounds).1
  | seq first second ihFirst ihSecond =>
    obtain ⟨hfirst, hsecond⟩ := Bool.and_eq_true_iff.mp h
    rintro i k ⟨j, hij, hjk⟩
    exact (ihFirst hfirst i j hij).trans (ihSecond hsecond j k hjk)
  | either left right ihLeft ihRight =>
    obtain ⟨hleft, hright⟩ := Bool.and_eq_true_iff.mp h
    rintro i j (hmatches | hmatches)
    · exact ihLeft hleft i j hmatches
    · exact ihRight hright i j hmatches

/-- One round, or none, does for pieces without characters. -/
lemma matches_times_of_stays (hstays : ∀ i j, pattern.Matches text i j → i = j) (least : Nat)
    (most? : Option Nat) (few : Bool) :
    Matches text (times pattern (min least 1) (some (min (most?.getD 1) 1)) few) i j ↔
      Matches text (times pattern least most? few) i j := by
  simp only [Matches, rounds_of_stays hstays]
  constructor
  · rintro ⟨count, hleast, hmost, hsame, hcount⟩
    have hmost := hmost _ rfl
    refine ⟨max least count, Nat.le_max_left _ _, fun most hmem => ?_, hsame, ?_⟩
    · cases hmem
      simp only [Option.getD_some] at hmost
      omega
    · exact hcount.imp_left fun hzero => by omega
  · rintro ⟨count, hleast, hmost, hsame, hcount⟩
    refine ⟨min count 1, by omega, fun most hmem => ?_, hsame, ?_⟩
    · cases hmem
      cases most? with
      | none =>
        simp only [Option.getD_none]
        omega
      | some most =>
        have := hmost most rfl
        simp only [Option.getD_some]
        omega
    · exact hcount.imp_left fun hzero => by omega

/-- No round and a single round are no repetitions. -/
lemma matches_times_simple (body : Pattern) (least : Nat) (most? : Option Nat) (few : Bool) :
    Matches text (if least = 0 && most? = some 0 then empty
      else if least = 1 && most? = some 1 then body else times body least most? few) i j ↔
      Matches text (times body least most? few) i j := by
  have hexactly : ∀ n, Matches text (times body n (some n) few) i j ↔
      Rounds (body.Matches text) n i j := by
    intro n
    constructor
    · rintro ⟨count, hleast, hmost, hrounds⟩
      have hmost := hmost n rfl
      rwa [show count = n by omega] at hrounds
    · intro hrounds
      exact ⟨n, Nat.le_refl n, fun most _ => Nat.le_max_left _ _, hrounds⟩
  split
  · rename_i h
    obtain ⟨rfl, rfl⟩ : least = 0 ∧ most? = some 0 := by simpa using h
    exact (hexactly 0).symm
  · split
    · rename_i h
      obtain ⟨rfl, rfl⟩ : least = 1 ∧ most? = some 1 := by simpa using h
      exact Rounds.one.symm.trans (hexactly 1).symm
    · rfl

/-- The pieces of a repetition are those of its rounds. -/
theorem matches_repeated (body : Pattern) (least : Nat) (most? : Option Nat) (few : Bool) :
    Matches text (repeated body least most? few) i j ↔
      Matches text (times body least most? few) i j := by
  cases hempty : body.onlyEmpty with
  | false =>
    simp only [repeated, hempty]
    exact matches_times_simple body least most? few
  | true =>
    simp only [repeated, hempty]
    exact (matches_times_simple ..).trans
      (matches_times_of_stays (eq_of_onlyEmpty hempty) least most? few)

/-! ## Sequences -/

/-- Between the gaps, pieces of the patterns stand one right after the other. -/
def MatchesAll (text : List Char) : List Pattern → Nat → Nat → Prop
  | [], i, j => i = j
  | pattern :: rest, i, k => ∃ j, pattern.Matches text i j ∧ MatchesAll text rest j k

lemma matchesAll_append : MatchesAll text (patterns ++ others) i k ↔
    ∃ j, MatchesAll text patterns i j ∧ MatchesAll text others j k := by
  induction patterns generalizing i with
  | nil => simp [MatchesAll]
  | cons first rest ih =>
    rw [List.cons_append]
    constructor
    · rintro ⟨mid, hfirst, hrest⟩
      obtain ⟨j, hmid, hothers⟩ := ih.mp hrest
      exact ⟨j, ⟨mid, hfirst, hmid⟩, hothers⟩
    · rintro ⟨j, ⟨mid, hfirst, hmid⟩, hothers⟩
      exact ⟨mid, hfirst, ih.mpr ⟨j, hmid, hothers⟩⟩

lemma matchesAll_singleton : MatchesAll text [pattern] i j ↔ pattern.Matches text i j := by
  simp [MatchesAll]

lemma matchesAll_parts (pattern : Pattern) :
    MatchesAll text pattern.parts i j ↔ pattern.Matches text i j := by
  induction pattern generalizing i with
  | empty => rfl
  | seq first second _ ihSecond => exact exists_congr fun mid => and_congr_right fun _ => ihSecond
  | _ => exact matchesAll_singleton

lemma matchesAll_flatMap_parts :
    MatchesAll text (patterns.flatMap parts) i j ↔ MatchesAll text patterns i j := by
  induction patterns generalizing i with
  | nil => rfl
  | cons first rest ih =>
    rw [List.flatMap_cons, matchesAll_append]
    exact exists_congr fun mid => and_congr (matchesAll_parts first) ih

lemma append_front_iff {front back rest : List Char} :
    front ++ back <+: rest ↔ front <+: rest ∧ back <+: rest.drop front.length := by
  induction front generalizing rest with
  | nil => simp
  | cons c front ih =>
    cases rest with
    | nil => simp
    | cons d rest => simp [List.cons_prefix_cons, ih, and_assoc]

/-- Two literals one after the other are one. -/
lemma matches_literal_append {front back : List Char} : Matches text (literal (front ++ back)) i k ↔
    ∃ j, Matches text (literal front) i j ∧ Matches text (literal back) j k := by
  simp only [Matches, append_front_iff, List.drop_drop, List.length_append]
  constructor
  · rintro ⟨⟨hfront, hback⟩, rfl⟩
    exact ⟨_, ⟨hfront, rfl⟩, hback, (Nat.add_assoc ..).symm⟩
  · rintro ⟨_, ⟨hfront, rfl⟩, hback, rfl⟩
    exact ⟨⟨hfront, hback⟩, Nat.add_assoc ..⟩

lemma matchesAll_consPart : MatchesAll text (consPart pattern patterns) i j ↔
    MatchesAll text (pattern :: patterns) i j := by
  unfold consPart
  split
  · rename_i front back rest
    constructor
    · rintro ⟨mid, hboth, hrest⟩
      obtain ⟨first, hfront, hback⟩ := matches_literal_append.mp hboth
      exact ⟨first, hfront, mid, hback, hrest⟩
    · rintro ⟨first, hfront, mid, hback, hrest⟩
      exact ⟨mid, matches_literal_append.mpr ⟨first, hfront, hback⟩, hrest⟩
  · rfl

lemma matches_ofParts (parts : List Pattern) :
    Matches text (ofParts parts) i j ↔ MatchesAll text parts i j := by
  induction parts generalizing i with
  | nil => rfl
  | cons part rest ih =>
    cases rest with
    | nil => exact matchesAll_singleton.symm
    | cons next rest => exact exists_congr fun mid => and_congr_right fun _ => ih

/-- The pieces of a sequence are those of its members, one right after the other. -/
theorem matches_join : Matches text (join patterns) i j ↔ MatchesAll text patterns i j := by
  have hfold : ∀ {i} (parts : List Pattern),
      MatchesAll text (parts.foldr consPart []) i j ↔ MatchesAll text parts i j := by
    intro i parts
    induction parts generalizing i with
    | nil => rfl
    | cons part rest ih =>
      rw [List.foldr_cons, matchesAll_consPart]
      exact exists_congr fun mid => and_congr_right fun _ => ih
  rw [join, matches_ofParts, hfold, matchesAll_flatMap_parts]

/-! ## Alternatives -/

lemma exists_branches (pattern : Pattern) :
    (∃ branch ∈ pattern.branches, Matches text branch i j) ↔ pattern.Matches text i j := by
  induction pattern with
  | either left right _ ihRight =>
    simp only [branches, List.mem_cons, exists_eq_or_imp, ihRight]
    rfl
  | _ => simp [branches]

lemma exists_flatMap_branches : (∃ branch ∈ patterns.flatMap branches, Matches text branch i j) ↔
    ∃ pattern ∈ patterns, pattern.Matches text i j := by
  constructor
  · rintro ⟨branch, hbranch, hmatches⟩
    obtain ⟨pattern, hpattern, hbranch⟩ := List.mem_flatMap.mp hbranch
    exact ⟨pattern, hpattern, (exists_branches pattern).mp ⟨branch, hbranch, hmatches⟩⟩
  · rintro ⟨pattern, hpattern, hmatches⟩
    obtain ⟨branch, hbranch, hmatches⟩ := (exists_branches pattern).mpr hmatches
    exact ⟨branch, List.mem_flatMap.mpr ⟨pattern, hpattern, hbranch⟩, hmatches⟩

lemma matches_ofBranches (branches : List Pattern) : Matches text (ofBranches branches) i j ↔
    ∃ branch ∈ branches, Matches text branch i j := by
  induction branches with
  | nil =>
    rw [ofBranches, matches_ofSet]
    simp [Matches, CharSet.contains, CharSet.empty]
  | cons branch rest ih =>
    cases rest with
    | nil => simp [ofBranches]
    | cons next rest =>
      rw [List.exists_mem_cons_iff, ← ih]
      rfl

/-- A set that is made by adding patterns one after the other finds what they find. -/
lemma matches_of_foldlM {add : CharSet → Pattern → Option CharSet} {bytes : Bool}
    (hadd : ∀ {set pattern next}, add set pattern = some next →
      (Matches text (oneOf next bytes) i j ↔
        Matches text (oneOf set bytes) i j ∨ pattern.Matches text i j)) {set last : CharSet}
    (h : patterns.foldlM add set = some last) : Matches text (oneOf last bytes) i j ↔
      Matches text (oneOf set bytes) i j ∨ ∃ pattern ∈ patterns, pattern.Matches text i j := by
  induction patterns generalizing set with
  | nil =>
    cases h
    simp
  | cons pattern rest ih =>
    obtain ⟨next, hnext, hrest⟩ := Option.bind_eq_some_iff.mp h
    rw [ih hrest, hadd hnext, List.exists_mem_cons_iff, or_assoc]

lemma matches_oneOf_union (left right : CharSet) (bytes : Bool) :
    Matches text (oneOf (left.union right) bytes) i j ↔
      Matches text (oneOf left bytes) i j ∨ Matches text (oneOf right bytes) i j := by
  simp only [Matches, CharSet.contains_union, Bool.or_eq_true, and_or_left, exists_or, or_and_right]

lemma not_matches_oneOf_empty (bytes : Bool) : ¬ Matches text (oneOf .empty bytes) i j := by
  simp [Matches, CharSet.contains, CharSet.empty]

lemma matches_singles {set : CharSet} (h : singles? patterns = some set) :
    Matches text (oneOf set false) i j ↔ ∃ pattern ∈ patterns, pattern.Matches text i j := by
  rw [matches_of_foldlM ?_ h, or_iff_right (not_matches_oneOf_empty false)]
  intro set pattern next hnext
  split at hnext
  · rename_i c
    cases hnext
    rw [matches_oneOf_union, matches_char]
    simp only [Matches, CharSet.contains_single, exists_eq_right]
  · cases hnext

lemma matches_sets {set : CharSet} (h : sets? patterns = some set) :
    Matches text (oneOf set false) i j ↔ ∃ pattern ∈ patterns, pattern.Matches text i j := by
  rw [matches_of_foldlM ?_ h, or_iff_right (not_matches_oneOf_empty false)]
  intro set pattern next hnext
  split at hnext
  · cases hnext
    exact matches_oneOf_union ..
  · cases hnext

/-! ## Common parts -/

lemma commonStart_front (left right : List Pattern) :
    commonStart left right <+: left ∧ commonStart left right <+: right := by
  induction left generalizing right with
  | nil => simp [commonStart]
  | cons a left ih =>
    cases right with
    | nil => simp [commonStart]
    | cons b right =>
      rw [commonStart]
      split
      · rename_i hsame
        subst hsame
        obtain ⟨hleft, hright⟩ := ih right
        exact ⟨(List.cons_prefix_cons).mpr ⟨rfl, hleft⟩, (List.cons_prefix_cons).mpr ⟨rfl, hright⟩⟩
      · exact ⟨List.nil_prefix, List.nil_prefix⟩

lemma commonParts_front : ∀ pattern ∈ patterns, commonParts patterns <+: pattern.parts := by
  have hfold : ∀ (rest : List Pattern) (common : List Pattern),
      rest.foldl (fun common pattern => commonStart common pattern.parts) common <+: common ∧
      ∀ pattern ∈ rest,
        rest.foldl (fun common pattern => commonStart common pattern.parts) common <+:
          pattern.parts := by
    intro rest
    induction rest with
    | nil => simp
    | cons next rest ih =>
      intro common
      obtain ⟨hcommon, hrest⟩ := ih (commonStart common next.parts)
      have hstart := commonStart_front common next.parts
      exact ⟨hcommon.trans hstart.1, List.forall_mem_cons.mpr ⟨hcommon.trans hstart.2, hrest⟩⟩
  cases patterns with
  | nil => simp
  | cons first rest =>
    intro pattern hpattern
    rw [commonParts]
    split
    · obtain ⟨hfirst, hrest⟩ := hfold rest first.parts
      rcases List.mem_cons.mp hpattern with rfl | hpattern
      · exact hfirst
      · exact hrest pattern hpattern
    · exact List.nil_prefix

/-- A pattern is a sequence of the parts that it starts with and of the other ones. -/
lemma matches_of_front {common : List Pattern} (h : common <+: pattern.parts) :
    pattern.Matches text i k ↔ ∃ j, MatchesAll text common i j ∧
      Matches text (join (pattern.parts.drop common.length)) j k := by
  obtain ⟨rest, hrest⟩ := h
  rw [← matchesAll_parts, ← hrest, matchesAll_append, List.drop_left]
  exact exists_congr fun j => and_congr_right fun _ => matches_join.symm

lemma matches_chooseWithin (limit : Nat) (patterns : List Pattern) :
    Matches text (chooseWithin limit patterns) i j ↔
      ∃ pattern ∈ patterns, pattern.Matches text i j := by
  induction limit generalizing patterns i with
  | zero => rw [chooseWithin, matches_ofBranches, exists_flatMap_branches]
  | succ limit ih =>
    rw [← exists_flatMap_branches, chooseWithin]
    generalize patterns.flatMap branches = all
    dsimp only
    split
    · exact matches_ofBranches all
    · split
      · rename_i set hset
        rw [matches_ofSet]
        rcases Option.or_eq_some_iff.mp hset with hset | ⟨-, hset⟩
        · exact matches_singles hset
        · exact matches_sets hset
      · exact matches_ofBranches all
      · rw [matches_join, matchesAll_append]
        constructor
        · rintro ⟨mid, hcommon, hrest⟩
          obtain ⟨rest, hmem, hmatches⟩ := (ih _).mp (matchesAll_singleton.mp hrest)
          obtain ⟨branch, hbranch, rfl⟩ := List.mem_map.mp hmem
          exact ⟨branch, hbranch,
            (matches_of_front (commonParts_front branch hbranch)).mpr ⟨mid, hcommon, hmatches⟩⟩
        · rintro ⟨branch, hbranch, hmatches⟩
          obtain ⟨mid, hcommon, hmatches⟩ :=
            (matches_of_front (commonParts_front branch hbranch)).mp hmatches
          exact ⟨mid, hcommon, matchesAll_singleton.mpr
            ((ih _).mpr ⟨_, List.mem_map.mpr ⟨branch, hbranch, rfl⟩, hmatches⟩)⟩

/-- The pieces of an alternative are those of its members. -/
theorem matches_choose : Matches text (choose patterns) i j ↔
    ∃ pattern ∈ patterns, pattern.Matches text i j :=
  matches_chooseWithin _ patterns

end ParenC.Pattern
