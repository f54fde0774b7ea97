/-
Which events a filter shows.

A filter names every part at most once, whatever was written.  So there is at most one longest name
that a part goes on from, and the rank of a part is that of this name, or that of the filter if
there is none: `Ranks` says so without a search, and `shows_iff` puts it together with what the
pattern of the filter finds.
-/
import Mathlib.Data.List.Nodup
import ParenC.CommandLine.LogFilter
import ParenC.Proofs.Pattern.Matching

namespace ParenC.CommandLine.LogFilter

variable {filter next : LogFilter} {part name : String} {rank : Nat}

/-! ## Names of parts -/

/-- No part is named twice. -/
def Distinct (filter : LogFilter) : Prop := (filter.parts.map Prod.fst).Nodup

lemma distinct_standard (verbose : Bool) : (standard verbose).Distinct := List.nodup_nil

/-- An entry for a name takes the place of an older one. -/
lemma Distinct.setPart (h : filter.Distinct) (name : String) (rank : Nat) :
    (filter.setPart name rank).Distinct := by
  refine List.nodup_cons.mpr ⟨?_, h.sublist (List.filter_sublist.map Prod.fst)⟩
  rintro hmem
  obtain ⟨entry, hentry, rfl⟩ := List.mem_map.mp hmem
  simpa using (List.mem_filter.mp hentry).2

lemma Distinct.follow (h : filter.Distinct) {directive : List Char}
    (hfollow : filter.follow directive = .ok next) : next.Distinct := by
  unfold LogFilter.follow at hfollow
  split at hfollow
  · dsimp only at hfollow
    split at hfollow
    · cases hfollow
      exact h
    · cases hfollow
      split
      · exact h
      · exact h.setPart _ _
  · dsimp only at hfollow
    split at hfollow
    · cases hfollow
      exact h.setPart _ _
    · split at hfollow
      · cases hfollow
        exact h.setPart _ _
      · cases hfollow
  · cases hfollow

lemma Distinct.followAll (h : filter.Distinct) (directives : List (List Char)) :
    (filter.followAll directives).1.Distinct := by
  induction directives generalizing filter with
  | nil => exact h
  | cons directive rest ih =>
    rw [LogFilter.followAll]
    split
    · rename_i next hnext
      exact ih (h.follow hnext)
    · exact ih h

lemma Distinct.lookFor (h : filter.Distinct) (written : String) :
    (filter.lookFor written).1.Distinct := by
  unfold LogFilter.lookFor
  split <;> exact h

lemma distinct_ofSpec (verbose : Bool) (spec? : Option String) :
    (ofSpec verbose spec?).1.Distinct := by
  have hstandard := distinct_standard verbose
  unfold ofSpec
  split
  · exact hstandard
  · dsimp only
    split
    · exact hstandard.followAll _
    · exact (hstandard.followAll _).lookFor _
    · exact hstandard

/-! ## Ranks -/

/-- The part goes on from the name, and from no longer one. -/
structure IsLongest (filter : LogFilter) (part : String) (entry : String × Nat) : Prop where
  named : entry ∈ filter.parts
  goesOn : entry.1.toList <+: part.toList
  longest : ∀ other ∈ filter.parts, other.1.toList <+: part.toList →
    other.1.length ≤ entry.1.length

/-- The rank is that of the longest name that the part goes on from, or that of the filter if there
is none. -/
def Ranks (filter : LogFilter) (part : String) (rank : Nat) : Prop :=
  (∃ name, filter.IsLongest part (name, rank)) ∨
    (rank = filter.rank ∧ ∀ entry ∈ filter.parts, ¬ entry.1.toList <+: part.toList)

lemma mem_entriesFor {entry : String × Nat} : entry ∈ filter.entriesFor part ↔
    entry ∈ filter.parts ∧ entry.1.toList <+: part.toList := by
  rw [entriesFor, List.mem_filter, List.isPrefixOf_iff_prefix]

/-- Of the names that a part goes on from, two of the same length are the same. -/
lemma IsLongest.unique (hdistinct : filter.Distinct) {entry other : String × Nat}
    (h : filter.IsLongest part entry) (h' : filter.IsLongest part other) : entry = other := by
  have hlength : entry.1.toList.length = other.1.toList.length := by
    have := h.longest other h'.named h'.goesOn
    have := h'.longest entry h.named h.goesOn
    simp only [String.length_toList]
    omega
  have hname : entry.1 = other.1 := String.toList_injective
    ((List.prefix_of_prefix_length_le h.goesOn h'.goesOn hlength.le).eq_of_length hlength)
  exact List.inj_on_of_nodup_map hdistinct h.named h'.named hname

/-- What is held after the search is an entry, and the longest one. -/
lemma foldl_longer (entries : List (String × Nat)) (held : String × Nat) :
    ∃ last ∈ held :: entries, entries.foldl longer (some held) = some last ∧
      ∀ other ∈ held :: entries, other.1.length ≤ last.1.length := by
  induction entries generalizing held with
  | nil => exact ⟨held, List.mem_cons_self, rfl, by simp⟩
  | cons next rest ih =>
    rw [List.foldl_cons, longer]
    split
    · rename_i hlonger
      obtain ⟨last, hlast, hfold, hall⟩ := ih next
      refine ⟨last, List.mem_cons_of_mem _ hlast, hfold, List.forall_mem_cons.mpr ⟨?_, hall⟩⟩
      exact hlonger.le.trans (hall next List.mem_cons_self)
    · rename_i hshorter
      obtain ⟨last, hlast, hfold, hall⟩ := ih held
      obtain ⟨hheld, hrest⟩ := List.forall_mem_cons.mp hall
      refine ⟨last, ?_, hfold,
        List.forall_mem_cons.mpr ⟨hheld, List.forall_mem_cons.mpr ⟨?_, hrest⟩⟩⟩
      · rcases List.mem_cons.mp hlast with rfl | hlast
        · exact List.mem_cons_self
        · exact List.mem_cons_of_mem _ (List.mem_cons_of_mem _ hlast)
      · exact (Nat.le_of_not_lt hshorter).trans hheld

lemma ranks_rankFor (filter : LogFilter) (part : String) :
    filter.Ranks part (filter.rankFor part) := by
  unfold rankFor
  cases hentries : filter.entriesFor part with
  | nil =>
    refine .inr ⟨rfl, fun entry hentry hfront => ?_⟩
    have hmem := mem_entriesFor.mpr ⟨hentry, hfront⟩
    rw [hentries] at hmem
    cases hmem
  | cons first rest =>
    obtain ⟨last, hlast, hfold, hall⟩ := foldl_longer rest first
    rw [List.foldl_cons, longer, hfold]
    rw [← hentries] at hlast hall
    obtain ⟨hnamed, hfront⟩ := mem_entriesFor.mp hlast
    exact .inl ⟨last.1, hnamed, hfront,
      fun other hother hgoesOn => hall other (mem_entriesFor.mpr ⟨hother, hgoesOn⟩)⟩

lemma Ranks.unique (hdistinct : filter.Distinct) {rank rank' : Nat} (h : filter.Ranks part rank)
    (h' : filter.Ranks part rank') : rank = rank' := by
  rcases h with ⟨name, hlongest⟩ | ⟨rfl, hnone⟩
  · rcases h' with ⟨name', hlongest'⟩ | ⟨-, hnone⟩
    · exact congrArg Prod.snd (hlongest.unique hdistinct hlongest')
    · exact absurd hlongest.goesOn (hnone _ hlongest.named)
  · rcases h' with ⟨name', hlongest'⟩ | ⟨rfl, -⟩
    · exact absurd hlongest'.goesOn (hnone _ hlongest'.named)
    · rfl

/-! ## Events -/

/-- An event is shown just if its level is among those that are shown for its part, and the pattern
of the filter stands for a piece of its text. -/
theorem shows_iff (hdistinct : filter.Distinct) (event : Event) : filter.shows event = true ↔
    (∀ rank, filter.Ranks event.target rank → event.level.rank ≤ rank) ∧
      ∀ pattern ∈ filter.pattern?, ∃ i j, i ≤ event.text.toList.length ∧
        pattern.Matches event.text.toList i j := by
  have hrank : event.level.rank ≤ filter.rankFor event.target ↔
      ∀ rank, filter.Ranks event.target rank → event.level.rank ≤ rank := by
    constructor
    · intro hle rank hranks
      rwa [← (ranks_rankFor filter event.target).unique hdistinct hranks]
    · intro hall
      exact hall _ (ranks_rankFor filter event.target)
  have hfound : filter.pattern?.all (·.foundIn event.text) = true ↔
      ∀ pattern ∈ filter.pattern?, ∃ i j, i ≤ event.text.toList.length ∧
        pattern.Matches event.text.toList i j := by
    cases filter.pattern? with
    | none => simp
    | some pattern => simp [Pattern.foundIn_iff]
  rw [shows, Bool.and_eq_true, decide_eq_true_eq, hrank, hfound]

/-- So it is for the filter of every specification. -/
theorem mem_lines_ofSpec_iff (verbose : Bool) (spec? : Option String) (event : Event)
    (line : String) : line ∈ (Logger.ofSpec spec? verbose).lines event ↔
      line = event.line ∧
        (∀ rank, (ofSpec verbose spec?).1.Ranks event.target rank → event.level.rank ≤ rank) ∧
          ∀ pattern ∈ (ofSpec verbose spec?).1.pattern?, ∃ i j,
            i ≤ event.text.toList.length ∧ pattern.Matches event.text.toList i j := by
  rw [← shows_iff (distinct_ofSpec verbose spec?) event]
  have hlines : (Logger.ofSpec spec? verbose).lines event =
      (ofSpec verbose spec?).1.lines event := rfl
  rw [hlines, lines]
  split
  · rename_i hshows
    simp [hshows]
  · rename_i hhidden
    simp [hhidden]

end ParenC.CommandLine.LogFilter
