/-
The labels of an assembly text.

A label is a line that ends with a colon and has no blank in it.  Such lines are the names of the
routines and the numbered labels in them.  A name is a word of the source text, so that no name
looks like a numbered label, and no two routines have one name.
-/
import ParenC.Proofs.Lowering.Linking
import ParenC.Proofs.Lowering.Numbering
import ParenC.Proofs.Token.Munch

namespace ParenC

open Lowering

/-! ## Names -/

namespace Program

variable {program : Program} {tables : Tables}

/-- The text of a program has the names of the functions that it defines. -/
lemma name_mem_unparse {loc : Location} {f : SymbolId} {params : List SymbolId}
    {body : List Node} (h : .functionDef loc (some f) params body ∈ program.items) :
    (.ident, tables.symbols.nameOf f) ∈ program.unparse tables := by
  obtain ⟨before, after, hitems⟩ := List.append_of_mem h
  simp [Program.unparse, Program.marks, hitems, Node.marksAll_append, Node.marks, Mark.bracket,
    SymbolTable.introduce, Mark.keyword]

/-- The name of a function that a program defines is an identifier. -/
lemma lexeme_of_definition {file source : String} {ws : Workspace}
    (hanalyze : analyze source (.initial file) = .ok program ws) {loc : Location} {f : SymbolId}
    {params : List SymbolId} {body : List Node}
    (h : .functionDef loc (some f) params body ∈ program.items) :
    Lexeme .ident (ws.symbols.nameOf f).toList := by
  obtain ⟨text, finish, ws₀, ws₁, ws₂, htokens, -, -, -, hafter, hwrites⟩ :=
    writes_of_analyze hanalyze
  obtain ⟨segments, htakes, heq⟩ := takesApart_of_tokenize htokens
  obtain ⟨rfl, -⟩ := List.append_inj' heq rfl
  have hmem : (.ident, ws.symbols.nameOf f) ∈ program.unparse ws.toTables := name_mem_unparse h
  rw [Program.unparse, hwrites.faces_eq hafter, List.mem_map] at hmem
  obtain ⟨token, htoken, hface⟩ := hmem
  have hlexeme := mem_lexemesOf htakes.2 token htoken
  obtain ⟨hkind, htext⟩ := Prod.mk.inj hface
  rwa [hkind, htext] at hlexeme

/-- The names of the functions for which code is generated are words. -/
lemma isWord_of_functions {file source : String} {ws : Workspace}
    (hanalyze : analyze source (.initial file) = .ok program ws) {unit : Owned}
    (h : unit ∈ program.functions ws.symbols) : IsWord unit.2.name.toList := by
  rcases mem_functions.mp h with hdefined | ⟨rfl, -⟩
  · obtain ⟨loc, f, params, body, hitem, rfl⟩ := mem_definitions.mp hdefined
    have hlexeme := lexeme_of_definition hanalyze hitem
    generalize (ws.symbols.nameOf f).toList = name at hlexeme ⊢
    cases hlexeme with
    | ident hword => exact hword
  · show IsWord "main".toList
    decide

/-- No two functions that a program defines have one name: they would be one function, which only
one definition introduces. -/
lemma Named.definitions_nodup (h : program.Named tables) :
    ((program.definitions tables.symbols).map (·.2.name)).Nodup := by
  have hsuffix : ∀ items, items <:+ program.items → (Node.introducedAll items).Nodup →
      ((items.filterMap (definition? tables.symbols)).map (·.2.name)).Nodup := by
    intro items
    induction items with
    | nil => simp
    | cons item rest ih =>
      intro hitems hnodup
      rw [← List.singleton_append, Node.introducedAll_append, List.nodup_append] at hnodup
      have hrest := ih ((List.suffix_cons item rest).trans hitems) hnodup.2.1
      cases hunit : definition? tables.symbols item with
      | none => rwa [List.filterMap_cons_none hunit]
      | some unit =>
        rw [List.filterMap_cons_some hunit, List.map_cons, List.nodup_cons]
        refine ⟨?_, hrest⟩
        intro hmem
        obtain ⟨other, hother, hname⟩ := List.mem_map.mp hmem
        obtain ⟨item', hitem', hdefinition⟩ := List.mem_filterMap.mp hother
        obtain ⟨loc, f, params, body, rfl, rfl⟩ := definition?_eq_some.mp hunit
        obtain ⟨loc', g, params', body', rfl, rfl⟩ := definition?_eq_some.mp hdefinition
        -- functions with one name are one function, which both of the items introduce
        have hsame : g = f := h.eq_of_name
          (hitems.subset (List.mem_cons_of_mem _ hitem')) (hitems.subset (List.mem_cons_self ..))
          hname
        subst hsame
        refine hnodup.2.2 g ?_ g ?_ rfl
        · simp [Node.introducedAll, Node.introduced, Node.checkOrder, Node.checkOrderAll]
        · refine List.mem_flatMap.mpr ⟨_, Node.mem_checkOrderAll.mpr
            ⟨_, hitem', Node.self_mem_checkOrder _⟩, ?_⟩
          simp [Node.introduced]
  exact hsuffix program.items List.suffix_rfl h.introduced

/-- No two functions for which code is generated have one name. -/
lemma Named.functions_nodup (h : program.Named tables) :
    ((program.functions tables.symbols).map (·.2.name)).Nodup := by
  by_cases hmain : (program.definitions tables.symbols).any (·.2.name = "main") = true
  · simp only [functions, hmain, if_true, List.append_nil]
    exact h.definitions_nodup
  · simp only [functions, hmain, List.map_append]
    refine List.nodup_append.mpr ⟨h.definitions_nodup, by simp, ?_⟩
    rintro name hname _ hstart rfl
    obtain ⟨unit, hunit, rfl⟩ := List.mem_map.mp hname
    refine hmain (List.any_eq_true.mpr ⟨unit, hunit, ?_⟩)
    simpa [start] using hstart

end Program

/-! ## Labels in a text -/

/-- The label that a line of an assembly text defines. -/
def labelDefined? (line : String) : Option String :=
  if line.toList.getLast? = some ':' ∧ ' ' ∉ line.toList then
    some (String.ofList line.toList.dropLast)
  else none

/-- The labels that an assembly text defines. -/
def Assembly.defined (assembly : Assembly) : List String :=
  assembly.textLines.filterMap labelDefined?

lemma labelDefined?_concat {name : String} (h : ' ' ∉ name.toList) :
    labelDefined? (name ++ ":") = some name := by
  simp [labelDefined?, h]

/-- A line with a blank in it defines no label. -/
lemma labelDefined?_of_blank {line : String} (h : ' ' ∈ line.toList) :
    labelDefined? line = none := by
  simp [labelDefined?, h]

lemma toList_labelText (k : Nat) : (labelText k).toList = '.' :: 'L' :: Nat.toDigits 10 k := by
  have hdigits : (toString k).toList = Nat.toDigits 10 k := by
    rw [show toString k = String.ofList (Nat.toDigits 10 k) from Nat.repr_eq_ofList_toDigits,
      String.toList_ofList]
  rw [labelText, String.toList_append, hdigits]
  rfl

lemma blank_notMem_labelText (k : Nat) : ' ' ∉ (labelText k).toList := by
  rw [toList_labelText]
  intro hblank
  simp only [List.mem_cons] at hblank
  rcases hblank with h | h | h
  · exact absurd h (by decide)
  · exact absurd h (by decide)
  · exact absurd (Nat.isDigit_of_mem_toDigits (by decide) (by decide) h) (by decide)

lemma labelText_injective : Function.Injective labelText := by
  intro k l h
  have hlists := congrArg String.toList h
  rw [toList_labelText, toList_labelText, List.cons_inj_right, List.cons_inj_right] at hlists
  calc k = Nat.ofDigitChars 10 (Nat.toDigits 10 k) 0 := Nat.ofDigitChars_ten_toDigits.symm
    _ = Nat.ofDigitChars 10 (Nat.toDigits 10 l) 0 := by rw [hlists]
    _ = l := Nat.ofDigitChars_ten_toDigits

/-- A word is no numbered label. -/
lemma IsWord.ne_labelText {name : String} (h : IsWord name.toList) (k : Nat) :
    name ≠ labelText k := by
  rintro rfl
  rw [toList_labelText] at h
  exact absurd h.1 (by decide)

lemma IsWord.blank_notMem {word : List Char} (h : IsWord word) : ' ' ∉ word :=
  fun hblank => absurd (h.isGraphic ' ' hblank).2 (by decide)

/-- Among the lines of a routine, just the numbered labels are labels. -/
lemma labelDefined?_text (line : Line) :
    labelDefined? line.text = (labelName? line).map labelText := by
  cases line with
  | label k => exact labelDefined?_concat (blank_notMem_labelText k)
  | _ => exact labelDefined?_of_blank (by simp [Line.text])

/-- The labels of an assembly text are the names of its routines, and the labels in them. -/
lemma Assembly.defined_eq {assembly : Assembly}
    (h : ∀ routine ∈ assembly.routines, ' ' ∉ routine.name.toList) :
    assembly.defined = assembly.routines.flatMap fun routine =>
      routine.name :: (Lowering.labels routine.lines).map labelText := by
  have hhead : ([".section .text", ".globl main"] ++
      assembly.externs.map (".extern " ++ ·)).filterMap labelDefined? = [] := by
    refine List.filterMap_eq_nil_iff.mpr fun line hline => labelDefined?_of_blank ?_
    simp only [List.mem_append, List.mem_cons, List.not_mem_nil, or_false, List.mem_map] at hline
    rcases hline with (rfl | rfl) | ⟨name, -, rfl⟩
    · decide
    · decide
    · rw [String.toList_append]
      exact List.mem_append_left _ (by decide)
  have hroutine : ∀ routine ∈ assembly.routines,
      (Routine.textLines routine).filterMap labelDefined? =
        routine.name :: (Lowering.labels routine.lines).map labelText := by
    intro routine hroutine
    have hempty : labelDefined? "" = none := by decide
    have hlines : (routine.lines.map Line.text).filterMap labelDefined? =
        (Lowering.labels routine.lines).map labelText := by
      rw [List.filterMap_map, Lowering.labels, List.map_filterMap]
      exact List.filterMap_congr fun line _ => labelDefined?_text line
    rw [Routine.textLines, List.filterMap_cons_none hempty,
      List.filterMap_cons_some (labelDefined?_concat (h routine hroutine)), hlines]
  rw [Assembly.defined, Assembly.textLines, List.filterMap_append, hhead, List.nil_append,
    List.filterMap_flatMap]
  exact List.flatMap_congr hroutine

/-! ## The labels of a program -/

variable {file source : String} {program : Program} {ws ws' : Workspace} {assembly : Assembly}

/-- Every routine has the name of its function. -/
lemma names_of_forall₂ {tables : Tables} {units : List Program.Owned} {routines : List Routine}
    (h : List.Forall₂ (IsCodeOf tables) units routines) :
    routines.map Routine.name = units.map (·.2.name) := by
  induction h with
  | nil => rfl
  | cons hcode hall ih =>
    obtain ⟨-, -, -, -, -, -, rfl⟩ := hcode
    rw [List.map_cons, List.map_cons, ih]

/-- The names of the routines and the numbered labels are told apart by the order of the text
only. -/
lemma defined_perm (routines : List Routine) :
    (routines.flatMap fun routine =>
      routine.name :: (Lowering.labels routine.lines).map labelText).Perm
    (routines.map Routine.name ++
      (routines.flatMap fun routine => Lowering.labels routine.lines).map labelText) := by
  rw [List.map_eq_flatMap, List.map_flatMap]
  exact (List.flatMap_append_perm routines (fun routine => [routine.name]) _).symm

/-- Every label of an assembly text is defined once; the numbered ones are the numbers below the
last value of the counter, which the constructs of the program tell; a routine jumps to its own
labels only; and `main` is the function of that name, or the statements of the top level if there
is none. -/
theorem labels_wellFormed (hanalyze : analyze source (.initial file) = .ok program ws)
    (hgenerate : generate program ws = .ok assembly ws') :
    assembly.defined.Nodup ∧
    (∀ label, label ∈ assembly.defined ↔
      (∃ unit ∈ program.functions ws.symbols, label = unit.2.name) ∨
        ∃ k < assembly.labels, label = labelText k) ∧
    (∀ unit ∈ program.functions ws.symbols, ∀ k, unit.2.name ≠ labelText k) ∧
    assembly.labels = ((program.functions ws.symbols).map (labelCount ·.2.body)).sum ∧
    (∀ routine ∈ assembly.routines, ∀ k,
      .jmp k ∈ routine.lines ∨ .je k ∈ routine.lines → .label k ∈ routine.lines) ∧
    assembly.defined.count "main" = 1 ∧
    ∃ unit routine, (unit, routine) ∈ (program.functions ws.symbols).zip assembly.routines ∧
      routine.name = "main" ∧ IsCodeOf ws.toTables unit routine ∧
      (unit ∈ program.definitions ws.symbols ∨
        unit = program.start ∧ ∀ other ∈ program.definitions ws.symbols, other.2.name ≠ "main") := by
  have hall := generated_routines hanalyze hgenerate
  have hnames := names_of_forall₂ hall
  have hnumbered := generate_numbered ((analyze_does file source).run hanalyze).2 hgenerate
  have hnamed := Program.Named.of_analyze hanalyze
  have hword : ∀ unit ∈ program.functions ws.symbols, IsWord unit.2.name.toList :=
    fun unit hunit => Program.isWord_of_functions hanalyze hunit
  -- the labels of the text are the names of the routines and the numbers up to the counter
  have hdefined : assembly.defined.Perm ((program.functions ws.symbols).map (·.2.name) ++
      (List.range assembly.labels).map labelText) := by
    rw [← hnames, Assembly.defined_eq]
    · exact (defined_perm _).trans ((hnumbered.perm.map _).append_left _)
    · intro routine hroutine
      have hname := List.mem_map_of_mem (f := Routine.name) hroutine
      rw [hnames] at hname
      obtain ⟨unit, hunit, hname⟩ := List.mem_map.mp hname
      exact hname ▸ (hword unit hunit).blank_notMem
  have hmem : ∀ label, label ∈ assembly.defined ↔
      (∃ unit ∈ program.functions ws.symbols, label = unit.2.name) ∨
        ∃ k < assembly.labels, label = labelText k := by
    intro label
    rw [hdefined.mem_iff, List.mem_append, List.mem_map, List.mem_map]
    simp only [List.mem_range, eq_comm]
  have hnodup : assembly.defined.Nodup := by
    rw [hdefined.nodup_iff, List.nodup_append]
    refine ⟨hnamed.functions_nodup, List.nodup_range.map labelText_injective, ?_⟩
    rintro name hname _ hlabel rfl
    obtain ⟨unit, hunit, rfl⟩ := List.mem_map.mp hname
    obtain ⟨k, -, hk⟩ := List.mem_map.mp hlabel
    exact (hword unit hunit).ne_labelText k hk.symm
  obtain ⟨main, hmain, hname⟩ := program.exists_main ws.symbols
  refine ⟨hnodup, hmem, fun unit hunit => (hword unit hunit).ne_labelText, ?_, ?_, ?_, ?_⟩
  · simpa [Function.comp_def] using hnumbered.count_eq
  · intro routine hroutine k hjump
    have htarget : k ∈ targets routine.lines := by
      rcases hjump with hjump | hjump
      · exact List.mem_filterMap.mpr ⟨_, hjump, rfl⟩
      · exact List.mem_filterMap.mpr ⟨_, hjump, rfl⟩
    obtain ⟨line, hline, hlabel⟩ :=
      List.mem_filterMap.mp (hnumbered.closed routine hroutine htarget)
    cases line with
    | label name =>
      obtain rfl : name = k := Option.some.inj hlabel
      exact hline
    | _ => cases hlabel
  · exact List.count_eq_one_of_mem hnodup ((hmem "main").mpr (.inl ⟨main, hmain, hname.symm⟩))
  · obtain ⟨hlength, hcode⟩ := List.forall₂_iff_zip.mp hall
    obtain ⟨routine, hpair⟩ : ∃ routine, (main, routine) ∈
        (program.functions ws.symbols).zip assembly.routines := by
      rw [← List.map_fst_zip (Nat.le_of_eq hlength), List.mem_map] at hmain
      obtain ⟨⟨unit, routine⟩, hpair, rfl⟩ := hmain
      exact ⟨routine, hpair⟩
    refine ⟨main, routine, hpair, ?_, hcode hpair, Program.mem_functions.mp hmain⟩
    obtain ⟨-, -, -, -, -, -, rfl⟩ := hcode hpair
    exact hname

/-- A program that names its entry itself, with labels of every kind in two functions. -/
theorem labels_wellFormed_nested : ∃ program ws assembly ws',
    analyze ("(defun f (n: s64) s64 (while (> n 0) (if (== n 3) (:= n 1) (else (:= n (- n 1))))) " ++
        "(return n)) (defun main () s64 (let s64 i) (for (:= i 0) (< i 9) (:= i (+ i 1)) " ++
        "(if (== i 5) (f i))) (return 0))") (.initial "nested") = .ok program ws ∧
    generate program ws = .ok assembly ws' ∧ assembly.labels = 7 ∧ assembly.defined.Nodup ∧
    assembly.labels = ((program.functions ws.symbols).map (labelCount ·.2.body)).sum := by
  have hcompiles : compilesAnd "nested"
      ("(defun f (n: s64) s64 (while (> n 0) (if (== n 3) (:= n 1) (else (:= n (- n 1))))) " ++
        "(return n)) (defun main () s64 (let s64 i) (for (:= i 0) (< i 9) (:= i (+ i 1)) " ++
        "(if (== i 5) (f i))) (return 0))")
      (fun _ _ assembly => assembly.labels = 7) = true := by
    decide +kernel
  obtain ⟨program, ws, assembly, ws', hanalyze, hgenerate, hcount⟩ := runs_of_compilesAnd hcompiles
  have hlabels := labels_wellFormed hanalyze hgenerate
  exact ⟨program, ws, assembly, ws', hanalyze, hgenerate, of_decide_eq_true hcount, hlabels.1,
    hlabels.2.2.2.1⟩

end ParenC
