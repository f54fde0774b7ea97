/-
Writing changes one file at most.

What is written to a path goes to where the path leads, over all links.  If there is a file, or
nothing, the bytes that were taken are what the path leads to afterwards.  All other trails lead to
what they led to before, and that includes the directories: they are there because of the entries
below them, and a file can only be put into a directory that is there.  A device takes the bytes,
and the files stay as they are.

The main result is `written_of_write`.
-/
import Mathlib.Data.List.Infix
import Mathlib.Tactic.Common
import ParenC.CommandLine.FileSystem

namespace ParenC.CommandLine

/-- A device takes what is written to it without storing it. -/
def Entry.isDevice : Entry → Bool
  | sink | full | output | errorOutput => true
  | directory | file _ | link _ => false

namespace FileSystem

variable {fs after : FileSystem} {trail other parent : Trail} {content : ByteArray}
  {path : String} {parts : List String}

/-! ## What trails lead to -/

lemma find?_of_lookup_eq_some {entry : Entry} (h : fs.entries.lookup trail = some entry) :
    fs.find? trail = some entry := by
  simp [find?, h]

/-- A trail leads to a directory if something is below it. -/
lemma find?_of_lookup_eq_none (h : fs.entries.lookup trail = none) :
    fs.find? trail =
      if trail <+: fs.base ∨ ∃ pair ∈ fs.entries, trail <+: pair.1 then some .directory
      else none := by
  simp only [find?, h]
  refine if_congr ?_ rfl rfl
  simp

/-- Something is below a trail that leads anywhere. -/
lemma below_of_find? (h : fs.find? trail ≠ none) :
    trail <+: fs.base ∨ ∃ pair ∈ fs.entries, trail <+: pair.1 := by
  cases hlookup : fs.entries.lookup trail with
  | some found =>
    obtain ⟨front, back, hentries, -⟩ := List.lookup_eq_some_iff.mp hlookup
    exact .inr ⟨(trail, found), by simp [hentries], List.prefix_refl trail⟩
  | none =>
    rw [find?_of_lookup_eq_none hlookup] at h
    split at h
    · assumption
    · exact absurd rfl h

/-- Above a trail that leads anywhere, every trail does. -/
lemma find?_ne_none_above (h : fs.find? trail ≠ none) (hup : other <+: trail) :
    fs.find? other ≠ none := by
  cases hlookup : fs.entries.lookup other with
  | some entry => simp [find?_of_lookup_eq_some hlookup]
  | none =>
    rw [find?_of_lookup_eq_none hlookup, if_pos]
    · simp
    · rcases below_of_find? h with hbase | ⟨pair, hmem, hpair⟩
      · exact .inl (hup.trans hbase)
      · exact .inr ⟨pair, hmem, hup.trans hpair⟩

lemma find?_base (fs : FileSystem) : fs.find? fs.base ≠ none := by
  cases hlookup : fs.entries.lookup fs.base with
  | some entry => simp [find?_of_lookup_eq_some hlookup]
  | none =>
    rw [find?_of_lookup_eq_none hlookup, if_pos (.inl (List.prefix_refl _))]
    simp

lemma find?_root (fs : FileSystem) : fs.find? [] ≠ none :=
  find?_ne_none_above (find?_base fs) List.nil_prefix

/-! ## Putting a file somewhere -/

/-- There can be a file at the trail: it is one already, or it would come into a directory. -/
def Open (fs : FileSystem) (trail : Trail) : Prop :=
  (∃ content, fs.find? trail = some (.file content)) ∨
    fs.find? trail = none ∧
      ∃ parent name, trail = parent ++ [name] ∧ fs.find? parent = some .directory

@[simp] lemma put_base (fs : FileSystem) (trail : Trail) (content : ByteArray) :
    (fs.put trail content).base = fs.base := rfl

lemma mem_put_entries {pair : Trail × Entry} : pair ∈ (fs.put trail content).entries ↔
    pair = (trail, .file content) ∨ (pair ∈ fs.entries ∧ pair.1 ≠ trail) := by
  simp [put]

lemma find?_put_self (fs : FileSystem) (trail : Trail) (content : ByteArray) :
    (fs.put trail content).find? trail = some (.file content) :=
  find?_of_lookup_eq_some (by simp [put])

lemma lookup_filter_of_ne (h : other ≠ trail) (entries : List (Trail × Entry)) :
    (entries.filter (·.1 != trail)).lookup other = entries.lookup other := by
  induction entries with
  | nil => rfl
  | cons pair rest ih =>
    obtain ⟨found, entry⟩ := pair
    by_cases hfound : found = trail
    · subst hfound
      have hne : (other == found) = false := beq_false_of_ne h
      simpa [List.lookup_cons, hne] using ih
    · simp [hfound, List.lookup_cons, ih]

lemma lookup_put_of_ne (h : other ≠ trail) :
    (fs.put trail content).entries.lookup other = fs.entries.lookup other := by
  have hne : (other == trail) = false := beq_false_of_ne h
  simp only [put, List.lookup_cons, hne, lookup_filter_of_ne h]

/-- What is above a trail at which there can be a file leads somewhere. -/
lemma Open.below (h : fs.Open trail) (hne : other ≠ trail) (hup : other <+: trail) :
    other <+: fs.base ∨ ∃ pair ∈ fs.entries, other <+: pair.1 := by
  rcases h with ⟨content, hfile⟩ | ⟨-, parent, name, rfl, hparent⟩
  · exact below_of_find? (find?_ne_none_above (by simp [hfile]) hup)
  · have hup : other <+: parent := (List.prefix_concat_iff.mp hup).resolve_left hne
    exact below_of_find? (find?_ne_none_above (by simp [hparent]) hup)

/-- A file where there can be one changes no other entry. -/
lemma find?_put_of_ne (hopen : fs.Open trail) (h : other ≠ trail) :
    (fs.put trail content).find? other = fs.find? other := by
  have hsame : (fs.put trail content).entries.lookup other = fs.entries.lookup other :=
    lookup_put_of_ne h
  cases hlookup : fs.entries.lookup other with
  | some entry =>
    rw [find?_of_lookup_eq_some hlookup, find?_of_lookup_eq_some (hsame.trans hlookup)]
  | none =>
    rw [find?_of_lookup_eq_none hlookup, find?_of_lookup_eq_none (hsame.trans hlookup)]
    refine if_congr ?_ rfl rfl
    simp only [put_base, mem_put_entries]
    constructor
    · rintro (hbase | ⟨pair, rfl | ⟨hmem, -⟩, hup⟩)
      · exact .inl hbase
      · exact hopen.below h hup
      · exact .inr ⟨pair, hmem, hup⟩
    · rintro (hbase | ⟨pair, hmem, hup⟩)
      · exact .inl hbase
      · by_cases htrail : pair.1 = trail
        · exact .inr ⟨_, .inl rfl, htrail ▸ hup⟩
        · exact .inr ⟨pair, .inr ⟨hmem, htrail⟩, hup⟩

/-! ## Following paths -/

/-- Only directories are left on the way. -/
lemma find?_of_step {part : String} (h : fs.step trail part = .ok other) :
    fs.find? trail = some .directory := by
  unfold step at h
  split at h
  · cases h
  · assumption
  · cases h

/-- A step depends on what is left. -/
lemma step_congr {part : String} (h : after.find? trail = fs.find? trail) :
    after.step trail part = fs.step trail part := by
  simp only [step, h]

/-- A step that leads to nothing leads out of a directory by a name. -/
lemma step_missing {part : String} (h : fs.step trail part = .ok other)
    (hmissing : fs.find? other = none) : other = trail ++ [part] := by
  have hdirectory := find?_of_step h
  simp only [step, hdirectory] at h
  split at h
  · cases h
    simp [hdirectory] at hmissing
  · split at h
    · -- what is above a directory is there
      cases h
      exact absurd hmissing
        (find?_ne_none_above (by simp [hdirectory]) (List.dropLast_prefix trail))
    · split at h
      · cases h
      · exact (Except.ok.inj h).symm

lemma pass_missing (h : fs.pass trail parts = .ok (.done other)) (htrail : fs.find? trail ≠ none)
    (hmissing : fs.find? other = none) :
    ∃ parent name, other = parent ++ [name] ∧ fs.find? parent = some .directory := by
  induction parts generalizing trail with
  | nil =>
    cases h
    exact absurd hmissing htrail
  | cons part rest ih =>
    simp only [pass] at h
    split at h
    · cases h
    · rename_i next hstep
      have hrest : fs.pass next rest = .ok (.done other) := by
        split at h
        · cases h
        · exact h
      by_cases hnext : fs.find? next = none
      · -- nothing can be left that is not there, so this was the last step
        cases rest with
        | nil =>
          cases hrest
          exact ⟨trail, part, step_missing hstep hnext, find?_of_step hstep⟩
        | cons part' rest' =>
          have hno : fs.step next part' = .error .notFound := by simp [step, hnext]
          simp [pass, hno] at hrest
      · exact ih hrest hnext

/-- A way that leads to nothing leads there from a directory. -/
lemma walk_missing {links : Nat} (h : fs.walk links trail parts = .ok other)
    (htrail : fs.find? trail ≠ none) (hmissing : fs.find? other = none) :
    ∃ parent name, other = parent ++ [name] ∧ fs.find? parent = some .directory := by
  induction links generalizing trail parts with
  | zero =>
    unfold walk at h
    split at h
    · cases h
    · rename_i hpass
      cases h
      exact pass_missing hpass htrail hmissing
    · cases h
  | succ links ih =>
    unfold walk at h
    split at h
    · cases h
    · rename_i hpass
      cases h
      exact pass_missing hpass htrail hmissing
    · exact ih h (find?_root fs)

/-- Only the trail leads to something else, and neither of a directory nor of a link is made
something else there. -/
structure Agrees (fs : FileSystem) (trail : Trail) (after : FileSystem) : Prop where
  /-- Paths start at the same place. -/
  base : after.base = fs.base
  /-- Nothing else has changed. -/
  others : ∀ other, other ≠ trail → after.find? other = fs.find? other
  /-- The trail does not lead to a directory. -/
  directory : fs.find? trail ≠ some .directory
  /-- Nor to a link. -/
  link : ∀ target, fs.find? trail ≠ some (.link target)
  /-- And it still does not. -/
  link' : ∀ target, after.find? trail ≠ some (.link target)

lemma Agrees.pass {start : Trail} {way : Way} (h : fs.Agrees trail after)
    (hpass : fs.pass start parts = .ok way) : after.pass start parts = .ok way := by
  induction parts generalizing start with
  | nil => exact hpass
  | cons part rest ih =>
    simp only [FileSystem.pass] at hpass ⊢
    split at hpass
    · cases hpass
    · rename_i next hstep
      have hne : start ≠ trail := fun heq => h.directory (heq ▸ find?_of_step hstep)
      rw [step_congr (h.others start hne), hstep]
      dsimp only
      by_cases hnext : next = trail
      · subst hnext
        split at hpass
        · rename_i target hlink
          exact absurd hlink (h.link target)
        · split
          · rename_i target hlink
            exact absurd hlink (h.link' target)
          · exact ih hpass
      · rw [h.others next hnext]
        split at hpass
        · exact hpass
        · exact ih hpass

/-- A way that can be followed can be followed after its end has become another file. -/
lemma Agrees.walk {links : Nat} {start : Trail} (h : fs.Agrees trail after)
    (hwalk : fs.walk links start parts = .ok other) :
    after.walk links start parts = .ok other := by
  induction links generalizing start parts with
  | zero =>
    unfold FileSystem.walk at hwalk ⊢
    split at hwalk
    · cases hwalk
    · rename_i hpass
      rw [h.pass hpass]
      exact hwalk
    · cases hwalk
  | succ links ih =>
    unfold FileSystem.walk at hwalk ⊢
    split at hwalk
    · cases hwalk
    · rename_i hpass
      rw [h.pass hpass]
      exact hwalk
    · rename_i hpass
      rw [h.pass hpass]
      exact ih hwalk

/-- A path that can be written to can be followed. -/
lemma follow_of_target (h : fs.target path = .ok trail) : fs.follow path = .ok trail := by
  simp only [target, bind, Except.bind] at h
  split at h
  · cases h
  · rename_i start hstart
    split at h
    · cases h
    · split at h
      · split at h <;> cases h
      · simp only [follow, hstart]
        exact h

lemma walk_of_follow (h : fs.follow path = .ok trail) : ∃ start, fs.start path = .ok start ∧
    fs.find? start ≠ none ∧ fs.walk maxLinks start (pathParts path) = .ok trail := by
  simp only [follow, bind, Except.bind] at h
  split at h
  · cases h
  · rename_i start hstart
    refine ⟨start, hstart, ?_, h⟩
    simp only [FileSystem.start] at hstart
    split at hstart
    · cases hstart
    · split at hstart
      · cases hstart
        exact find?_root fs
      · cases hstart
        exact find?_base fs

lemma Agrees.follow (h : fs.Agrees trail after) (hfollow : fs.follow path = .ok other) :
    after.follow path = .ok other := by
  obtain ⟨start, hstart, -, hwalk⟩ := walk_of_follow hfollow
  have hstart' : after.start path = .ok start := by
    rw [← hstart]
    simp only [FileSystem.start, h.base]
  simp only [FileSystem.follow, hstart']
  exact h.walk hwalk

/-! ## Writing -/

/-- The path leads to the content, at the same place as before, and nothing else has happened to
the files. -/
structure Replaces (fs : FileSystem) (path : String) (content : ByteArray) (after : FileSystem) :
    Prop where
  /-- Where the path leads. -/
  place : ∃ trail, fs.target path = .ok trail ∧ after.follow path = .ok trail ∧
    after.find? trail = some (.file content) ∧
    ∀ other, other ≠ trail → after.find? other = fs.find? other
  /-- The system refuses what it refused before. -/
  limits : after.limits = fs.limits

/-- The path leads to a device. -/
def Reaches (fs : FileSystem) (path : String) : Prop :=
  ∃ trail device, fs.target path = .ok trail ∧ fs.find? trail = some device ∧
    device.isDevice = true

lemma replaces_put (htarget : fs.target path = .ok trail)
    (hplace : fs.find? trail = none ∨ ∃ old, fs.find? trail = some (.file old)) :
    fs.Replaces path content (fs.put trail content) := by
  have hfollow := follow_of_target htarget
  obtain ⟨start, -, hstart, hwalk⟩ := walk_of_follow hfollow
  have hopen : fs.Open trail := by
    rcases hplace with hmissing | hfile
    · exact .inr ⟨hmissing, walk_missing hwalk hstart hmissing⟩
    · exact .inl hfile
  have hothers : ∀ other, other ≠ trail →
      (fs.put trail content).find? other = fs.find? other :=
    fun other hne => find?_put_of_ne hopen hne
  have hagrees : fs.Agrees trail (fs.put trail content) := by
    refine ⟨rfl, hothers, ?_, ?_, ?_⟩
    · rcases hplace with hmissing | ⟨old, hfile⟩ <;> simp [*]
    · rcases hplace with hmissing | ⟨old, hfile⟩ <;> simp [*]
    · simp [find?_put_self]
  exact ⟨⟨trail, htarget, hagrees.follow hfollow, find?_put_self fs trail content, hothers⟩, rfl⟩

/-- What is written to a path is taken as a whole if there is no fault, and otherwise a part of it
is missing at the end. -/
structure Written (fs : FileSystem) (path : String) (content : ByteArray) (writing : Writing) :
    Prop where
  /-- What was taken has replaced a file, or it went to a device. -/
  place : (∃ trail, writing.outlet = .file trail) ∧
      fs.Replaces path writing.taken writing.after ∨
    (∀ trail, writing.outlet ≠ .file trail) ∧ fs.Reaches path ∧ writing.after = fs
  /-- Without a fault, everything was taken. -/
  whole : writing.fault? = none → writing.taken = content
  /-- With a fault, something is missing. -/
  part : writing.fault? ≠ none → ∃ room < content.size, writing.taken = content.extract 0 room

/-- Writing changes nothing but what the path leads to. -/
theorem written_of_write {writing : Writing} (h : fs.write path content = .ok writing) :
    fs.Written path content writing := by
  simp only [write, bind, Except.bind, pure, Except.pure] at h
  split at h
  · cases h
  rename_i trail htarget
  split at h
  · cases h
  rename_i outlet houtlet
  have hplace : outlet = .file trail ∧
      (fs.find? trail = none ∨ ∃ old, fs.find? trail = some (.file old)) ∨
      (∀ other, outlet ≠ .file other) ∧ fs.Reaches path := by
    simp only [FileSystem.outlet] at houtlet
    split at houtlet
    · cases houtlet
    cases hfind : fs.find? trail with
    | none =>
      rw [hfind] at houtlet
      cases houtlet
      exact .inl ⟨rfl, .inl rfl⟩
    | some entry =>
      rw [hfind] at houtlet
      cases entry with
      | directory | link => cases houtlet
      | file old =>
        cases houtlet
        exact .inl ⟨rfl, .inr ⟨old, rfl⟩⟩
      | sink | full | output | errorOutput =>
        cases houtlet
        exact .inr ⟨by simp, trail, _, htarget, hfind, rfl⟩
  cases h
  refine ⟨?_, ?_, ?_⟩
  · rcases hplace with ⟨rfl, hfile⟩ | ⟨hdevice, hreaches⟩
    · exact .inl ⟨⟨trail, rfl⟩, replaces_put htarget hfile⟩
    · refine .inr ⟨hdevice, hreaches, ?_⟩
      cases outlet with
      | file other => exact absurd rfl (hdevice other)
      | nowhere | output | errorOutput => rfl
  · dsimp only
    split
    · split <;> simp
    · simp
  · dsimp only
    split
    · rename_i room fault hroom
      split
      · rename_i hlt
        exact fun _ => ⟨room, hlt, rfl⟩
      · simp
    · simp

/-- What is written to a link is what it points to. -/
example : ((around [(["a"], .link ["tmp", "work", "b"])]).write "a" "text".toUTF8).map
    (·.after.read "b") = .ok (.ok "text") := by decide +kernel

end FileSystem

end ParenC.CommandLine
