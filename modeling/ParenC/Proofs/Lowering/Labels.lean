/-
Labels and the lines behind them.

A jump goes on behind the first label of its name, so it matters that no label occurs twice in a
routine.  Every construct takes the labels it needs from a counter and hands the counter on, so
the labels of a construct lie between two values of the counter, and those of its parts lie apart.
-/
import ParenC.Proofs.Lowering.Routine

namespace ParenC.Lowering

/-! ## Looking for labels -/

/-- The name of a label. -/
def labelName? : Line → Option Nat
  | .label name => some name
  | _ => none

/-- The labels among lines. -/
def labels (lines : List Line) : List Nat := lines.filterMap labelName?

lemma labels_cons (line : Line) (lines : List Line) :
    labels (line :: lines) = (labelName? line).toList ++ labels lines := by
  rw [labels, List.filterMap_cons]
  cases labelName? line <;> rfl

@[simp] lemma labels_append (first second : List Line) :
    labels (first ++ second) = labels first ++ labels second := List.filterMap_append

variable {α : Type}

/-- The lines behind a label, each with something written beside it. -/
def findLabel (name : Nat) : List (α × Line) → Option (List (α × Line))
  | [] => none
  | (_, line) :: rest => if labelName? line = some name then some rest else findLabel name rest

lemma findLabel_append {name : Nat} {before : List (α × Line)}
    (h : name ∉ labels (before.map Prod.snd)) (after : List (α × Line)) :
    findLabel name (before ++ after) = findLabel name after := by
  induction before with
  | nil => rfl
  | cons entry rest ih =>
    obtain ⟨note, line⟩ := entry
    rw [List.map_cons, labels_cons, List.mem_append, not_or, Option.mem_toList] at h
    rw [List.cons_append, findLabel, if_neg h.1, ih h.2]

/-- If no label occurs twice, a jump goes to the label of its name, wherever that is. -/
lemma findLabel_of_suffix {name : Nat} {note : α} {lines rest : List (α × Line)}
    (hnodup : (labels (lines.map Prod.snd)).Nodup) (h : (note, .label name) :: rest <:+ lines) :
    findLabel name lines = some rest := by
  obtain ⟨before, rfl⟩ := h
  have hbefore : name ∉ labels (before.map Prod.snd) := by
    intro hmem
    rw [List.map_append, labels_append, List.nodup_append] at hnodup
    exact hnodup.2.2 name hmem name (by simp [labels, labelName?]) rfl
  rw [findLabel_append hbefore]
  exact if_pos rfl

/-! ## The labels of chunks -/

/-- The labels among chunks. -/
def chunkLabels (chunks : List Chunk) : List Nat :=
  chunks.filterMap fun
    | .label name => some name
    | _ => none

lemma labels_plain (code : List Instr) : labels (plain code) = [] := by
  simp [labels, plain, labelName?]

lemma labels_chunkLines (chunks : List Chunk) :
    labels (chunkLines chunks).erase = chunkLabels chunks := by
  induction chunks with
  | nil => rfl
  | cons chunk rest ih =>
    rw [chunkLines_cons, Counted.erase_append, labels_append, ih]
    cases chunk with
    | action action code =>
      rw [Chunk.lines, Counted.erase_plain, labels_plain]
      rfl
    | leave =>
      rw [Chunk.lines, Counted.erase_level]
      rfl
    | _ => rfl

/-- Labels that were taken from a counter while it went from `next` to `stop`. -/
structure Fresh (labels : List Nat) (next stop : Nat) : Prop where
  /-- The counter has grown. -/
  grown : next ≤ stop
  /-- No label was taken twice. -/
  nodup : labels.Nodup
  /-- All were taken in between. -/
  between : ∀ label ∈ labels, next ≤ label ∧ label < stop

namespace Fresh

lemma nil (next : Nat) : Fresh [] next next := ⟨Nat.le_refl _, .nil, by simp⟩

lemma one (next : Nat) : Fresh [next] next (next + 1) :=
  ⟨Nat.le_succ _, by simp, by simp⟩

lemma append {first second : List Nat} {next middle stop : Nat} (h : Fresh first next middle)
    (h' : Fresh second middle stop) : Fresh (first ++ second) next stop where
  grown := Nat.le_trans h.grown h'.grown
  nodup := by
    refine List.nodup_append.mpr ⟨h.nodup, h'.nodup, ?_⟩
    intro a ha b hb
    have := h.between a ha
    have := h'.between b hb
    omega
  between := by
    intro label hlabel
    have := h.grown
    have := h'.grown
    rcases List.mem_append.mp hlabel with hlabel | hlabel
    · have := h.between label hlabel
      omega
    · have := h'.between label hlabel
      omega

/-- The order does not matter. -/
lemma of_count {labels labels' : List Nat} {next stop : Nat} (h : Fresh labels next stop)
    (hcount : ∀ a, labels'.count a = labels.count a) : Fresh labels' next stop := by
  have hperm : labels.Perm labels' := List.perm_iff_count.mpr fun a => (hcount a).symm
  exact ⟨h.grown, hperm.nodup_iff.mp h.nodup, fun a ha => h.between a (hperm.mem_iff.mpr ha)⟩

end Fresh

@[simp] lemma chunkLabels_append (first second : List Chunk) :
    chunkLabels (first ++ second) = chunkLabels first ++ chunkLabels second :=
  List.filterMap_append

@[simp] lemma chunkLabels_label (name : Nat) (rest : List Chunk) :
    chunkLabels (.label name :: rest) = name :: chunkLabels rest := rfl

@[simp] lemma chunkLabels_action (action : Action) (code : Counted Instr) (rest : List Chunk) :
    chunkLabels (.action action code :: rest) = chunkLabels rest := rfl

@[simp] lemma chunkLabels_branch (name : Nat) (rest : List Chunk) :
    chunkLabels (.branch name :: rest) = chunkLabels rest := rfl

@[simp] lemma chunkLabels_jump (name : Nat) (rest : List Chunk) :
    chunkLabels (.jump name :: rest) = chunkLabels rest := rfl

@[simp] lemma chunkLabels_nil : chunkLabels [] = [] := rfl

variable {tables : Tables}

/-- The labels of statements are fresh. -/
theorem Lays.fresh {work : Work} {next stop : Nat} {chunks : List Chunk}
    (h : Lays tables work next chunks stop) : Fresh (chunkLabels chunks) next stop := by
  -- A construct takes its own labels before its parts do, wherever it puts them.
  induction h with
  | block inner ih => exact ih
  | assign | effect | returnVoid | returnResult | silent | nil => exact .nil _
  | ifThen emitted inner ih =>
    refine ((Fresh.one _).append ih).of_count fun a => ?_
    simp [List.count_append, List.count_cons, Nat.add_comm]
  | ifElse emitted onTrue onFalse ihTrue ihFalse =>
    refine (((Fresh.one _).append ihTrue).append ((Fresh.one _).append ihFalse)).of_count
      fun a => ?_
    simp only [List.cons_append, chunkLabels_action, chunkLabels_branch, chunkLabels_append,
      chunkLabels_jump, chunkLabels_label, chunkLabels_nil, List.count_append, List.count_cons,
      List.count_nil]
    omega
  | whileLoop emitted inner ih =>
    refine ((Fresh.one _).append ((Fresh.one _).append ih)).of_count fun a => ?_
    simp only [List.cons_append, chunkLabels_action, chunkLabels_branch, chunkLabels_append,
      chunkLabels_jump, chunkLabels_label, chunkLabels_nil, List.count_append, List.count_cons,
      List.count_nil]
    omega
  | forLoop before emitted inner after ihBefore ihInner ihAfter =>
    refine ((Fresh.one _).append ((Fresh.one _).append
      (ihBefore.append (ihInner.append ihAfter)))).of_count fun a => ?_
    simp only [List.cons_append, chunkLabels_action, chunkLabels_branch, chunkLabels_append,
      chunkLabels_jump, chunkLabels_label, chunkLabels_nil, List.count_append, List.count_cons,
      List.count_nil]
    omega
  | returnStatement isStatement inner ih =>
    rw [chunkLabels_append]
    exact ih.append (.nil _)
  | cons head tail ihHead ihTail =>
    rw [chunkLabels_append]
    exact ihHead.append ihTail

/-- The labels in a routine are those of the body of the function. -/
lemma Function.labels_eq {function : Function} {frame next : Nat} {code : Code}
    (h : function.code tables frame next = .ok code) : ∃ chunks,
      Lays tables (.statements function.body) next chunks code.next ∧
        labels code.lines = chunkLabels chunks := by
  obtain ⟨counted, spills, chunks, -, rfl, -, hchunks, hlines⟩ := Function.code_lays h
  have hending : chunkLabels (chunks ++ function.ending) = chunkLabels chunks := by
    rw [chunkLabels_append, Function.ending]
    cases function.exitsZero <;> simp [chunkLabels]
  refine ⟨chunks, hchunks, ?_⟩
  rw [Counted.Code.erase, hlines, Counted.erase_append, Counted.erase_level, labels_append,
    labels_plain, labels_chunkLines, hending, List.nil_append]

/-- No label occurs twice in a routine. -/
theorem Function.labels_nodup {function : Function} {frame next : Nat} {code : Code}
    (h : function.code tables frame next = .ok code) : (labels code.lines).Nodup := by
  obtain ⟨chunks, hchunks, heq⟩ := Function.labels_eq h
  rw [heq]
  exact hchunks.fresh.nodup

end ParenC.Lowering
