/-
Sizes in words.

The sizes in a type table are numbers without bound, while a machine keeps what a word of 64 bits
holds of them.  Nothing is lost by this but what the words themselves cannot hold: sums and
multiples of an alignment have the same words if their operands have, since there are only two
alignments, and a word has room for a whole number of either.  So a table of words, which is cut
down to words again after each call, is what words hold of the table without bounds.

The main result is `runAllWords_eq`.
-/
import ParenC.Literal
import ParenC.Proofs.Types.Registration

namespace ParenC

/-! ## What words hold -/

/-- What words hold of a field. -/
def Field.words (field : Field) : Field := { field with offset := field.offset % wordCount }

/-- What words hold of a shape. -/
def Shape.words : Shape → Shape
  | .struct fields => .struct (fields.map Field.words)
  | shape => shape

/-- What words hold of an entry. -/
def TypeInfo.words (info : TypeInfo) : TypeInfo :=
  { info with shape := info.shape.words, size := info.size % wordCount }

namespace TypeTable

variable {table : TypeTable}

/-- What words hold of a table. -/
def words (table : TypeTable) : TypeTable := ⟨table.entries.map TypeInfo.words⟩

lemma get_words {id : TypeId} {info : TypeInfo} (h : table.get id = .ok info) :
    table.words.get id = .ok info.words := by
  rw [get_eq_ok_iff] at h ⊢
  rw [words, Array.getElem?_map, h]
  rfl

/-- Words hold themselves. -/
lemma words_words (table : TypeTable) : table.words.words = table.words := by
  have hshape : ∀ shape : Shape, shape.words.words = shape.words := by
    intro shape
    cases shape <;> simp [Shape.words, Field.words]
  have hinfo : ∀ info : TypeInfo, info.words.words = info.words := by
    intro info
    simp [TypeInfo.words, hshape]
  simp [words, hinfo]

/-- Adding an entry to words adds its words. -/
lemma register_words {info info' : TypeInfo} (hsame : info'.words = info.words) {id : TypeId}
    {later : TypeTable} (h : (id, later) = table.register info) : ∃ later',
      (id, later') = table.words.register info' ∧ later'.words = later.words := by
  cases h
  refine ⟨(table.words.register info').2, ?_, ?_⟩
  · simp [register, words, size]
  · have htwice := congrArg entries (words_words table)
    simp only [words] at htwice
    simp [register, words, hsame, htwice]

/-! ## Words of sums and multiples -/

/-- The word of a multiple of an alignment is told by the word that it is found from. -/
lemma roundUp_words {m n align : Nat} (halign : align = 1 ∨ align = 8)
    (h : m % wordCount = n % wordCount) :
    roundUp m align % wordCount = roundUp n align % wordCount := by
  simp only [roundUp, wordCount] at *
  rcases halign with rfl | rfl <;> omega

/-- Laying out fields finds the same words from starts that have the same word, whether sizes are
known or their words only. -/
lemma layOut_words (measured : ∀ {id info}, table.get id = .ok info → Measured table info)
    {fields : List (String × TypeId)} {start start' align : Nat} {layout : Layout}
    (hstart : start' % wordCount = start % wordCount)
    (h : table.layOut start align fields = .ok layout) : ∃ layout',
      table.words.layOut start' align fields = .ok layout' ∧ layout'.align = layout.align ∧
      layout'.stop % wordCount = layout.stop % wordCount ∧
      layout'.fields.map Field.words = layout.fields.map Field.words := by
  induction fields generalizing start start' align layout with
  | nil =>
    cases h
    exact ⟨⟨[], start', align⟩, rfl, rfl, hstart, rfl⟩
  | cons field rest ih =>
    obtain ⟨info, inner, hinfo, hzero, hinner, rfl⟩ := layOut_cons_eq_ok.mp h
    have hplace := roundUp_words (measured hinfo).align hstart
    have hstop : (roundUp start' info.align + info.words.size) % wordCount =
        (roundUp start info.align + info.size) % wordCount := by
      rw [Nat.add_mod, hplace, ← Nat.add_mod]
      exact Nat.add_mod_mod _ _ _
    obtain ⟨inner', hinner', halign, hend, hfields⟩ := ih hstop hinner
    refine ⟨_, layOut_cons_eq_ok.mpr ⟨info.words, inner', get_words hinfo, hzero, hinner', rfl⟩,
      halign, hend, ?_⟩
    simp only [List.map_cons, hfields, Field.words]
    exact congrArg (fun offset => Field.mk field.1 field.2 offset :: _) hplace

/-- A call finds the same words, whether sizes are known or their words only. -/
lemma Kept.run_words (kept : table.Kept) {call : Registration} {id : TypeId} {later : TypeTable}
    (h : call.run table = .ok (id, later)) : ∃ later',
      call.run table.words = .ok (id, later') ∧ later'.words = later.words := by
  cases call with
  | builtin which =>
    rw [Registration.run, kept.sound.registerBuiltin_eq] at h
    cases h
    have hfound : table.words.builtin? which = table.builtin? which := by
      have hshape : ∀ info : TypeInfo, decide (info.words.shape = .builtin which) =
          decide (info.shape = .builtin which) := by
        rintro ⟨_ | _ | _, _, _⟩ <;> simp [TypeInfo.words, Shape.words]
      simp [builtin?, words, Array.findIdx?_map, Function.comp_def, hshape]
    refine ⟨table.words, ?_, words_words table⟩
    rw [Registration.run, registerBuiltin, hfound, kept.sound.builtin?_eq]
  | struct fields =>
    obtain ⟨layout, hlayout, hadded⟩ := registerStruct_eq_ok.mp h
    obtain ⟨layout', hlayout', halign, hstop, hfields⟩ := layOut_words kept.measured rfl hlayout
    have hsize := roundUp_words (layOut_align kept.measured (.inl rfl) hlayout) hstop
    have hsame : TypeInfo.words
        ⟨.struct layout'.fields, roundUp layout'.stop layout'.align, layout'.align⟩ =
        TypeInfo.words ⟨.struct layout.fields, roundUp layout.stop layout.align, layout.align⟩ := by
      simp only [TypeInfo.words, Shape.words, hfields, halign, hsize]
    obtain ⟨later', hadded', hwords⟩ := register_words hsame hadded
    exact ⟨later', registerStruct_eq_ok.mpr ⟨layout', hlayout', hadded'⟩, hwords⟩
  | definition name target =>
    obtain ⟨under, hunder, hadded⟩ := registerDefinition_eq_ok.mp h
    have hsame : TypeInfo.words ⟨.definition name target, under.words.size, under.words.align⟩ =
        TypeInfo.words ⟨.definition name target, under.size, under.align⟩ := by
      simp [TypeInfo.words]
    obtain ⟨later', hadded', hwords⟩ := register_words hsame hadded
    exact ⟨later', registerDefinition_eq_ok.mpr ⟨under.words, get_words hunder, hadded'⟩, hwords⟩

end TypeTable

/-- Make calls one after the other, and cut the table down to words after each of them. -/
def Registration.runAllWords (table : TypeTable) : List Registration → Except Defect TypeTable
  | [] => .ok table
  | call :: rest => do
    let (_, later) ← call.run table
    runAllWords later.words rest

namespace TypeTable

variable {table : TypeTable}

lemma Kept.runAll_words (kept : table.Kept) {calls : List Registration} {later : TypeTable}
    (h : Registration.runAll table calls = .ok later) :
    Registration.runAllWords table.words calls = .ok later.words := by
  induction calls generalizing table with
  | nil =>
    cases h
    rfl
  | cons call rest ih =>
    simp only [Registration.runAll, bind, Except.bind] at h
    split at h
    · cases h
    · rename_i result hrun
      obtain ⟨hkept, -⟩ := kept.step ⟨call, valid_of_run hrun, result.1, hrun⟩
      obtain ⟨later', hrun', hsame⟩ := kept.run_words hrun
      simp only [Registration.runAllWords, hrun', bind, Except.bind, hsame]
      exact ih hkept h

/-- Calls that are made on words find the words of what they would find without bounds. -/
theorem runAllWords_eq {calls : List Registration}
    (h : Registration.runAll .initial calls = .ok table) :
    Registration.runAllWords .initial calls = .ok table.words := by
  have hinitial : TypeTable.initial.words = .initial := by decide +kernel
  exact hinitial ▸ kept_initial.runAll_words h

end TypeTable

end ParenC
