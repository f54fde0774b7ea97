/-
Printing undoes tokenizing.

The texts of the tokens of a text, joined with white space between them, have the same tokens
again, up to their places.  White space is no part of a lexeme, so a lexeme in front of it cannot be
longer than it is, whatever lexeme stands behind it.
-/
import ParenC.Proofs.Marks
import ParenC.Proofs.Token.Munch

namespace ParenC

/-- White space that can stand between two tokens. -/
def IsWhiteSpace (gap : String) : Prop := gap ≠ "" ∧ ∀ c ∈ gap.toList, c ∈ [' ', '\t', '\r', '\n']

/-- The texts one behind the other, with a gap in front of each but the first. -/
def weave (texts gaps : List String) : String :=
  match texts with
  | [] => ""
  | first :: rest => first ++ String.join (List.zipWith (· ++ ·) gaps rest)

/-- The texts of tokens, that of the end marker left out. -/
def textsOf (tokens : List Token) : List String :=
  (tokens.filter (·.kind != .eof)).map Token.text

/-- A text that is a single token of this kind as a whole. -/
def Alone (face : Face) : Prop :=
  ∃ ws ws' start finish, CompileM.tokenize face.2 ws =
    .ok [⟨face.1, start, face.2⟩, Token.eof finish] ws'

/-! ## Lexemes in front of gaps -/

/-- A lexeme in front of a gap, or of the end of the text, is as long as can be. -/
lemma Lexeme.munch {kind : TokenKind} {text rest : List Char} (h : Lexeme kind text)
    (hrest : ∀ c ∈ rest.head?, isGap c = true) : Munch kind text (text ++ rest) := by
  refine ⟨h, List.prefix_append text rest, ?_⟩
  intro other text' hother hfront
  by_contra hlonger
  rw [Nat.not_le] at hlonger
  -- the longer lexeme would contain the gap
  obtain ⟨more, rfl⟩ :=
    List.prefix_of_prefix_length_le (List.prefix_append text rest) hfront hlonger.le
  rw [List.prefix_append_right_inj] at hfront
  cases more with
  | nil => simp at hlonger
  | cons c more =>
    obtain ⟨tail, rfl⟩ := hfront
    have hgap := hrest c (by simp)
    rw [(hother.isGraphic c (by simp)).2] at hgap
    cases hgap

/-- The segments of lexemes, each with a gap in front of it. -/
def gapped (entries : List (String × Face)) : List Segment :=
  entries.flatMap fun (gap, face) =>
    gap.toList.map .blank ++ [.lexeme face.1 face.2.toList]

lemma gapped_cons (gap : String) (face : Face) (entries : List (String × Face)) :
    gapped ((gap, face) :: entries) =
      gap.toList.map .blank ++ .lexeme face.1 face.2.toList :: gapped entries := by
  simp [gapped]

lemma spelled_blanks (gap : List Char) (segments : List Segment) :
    spelled (gap.map .blank ++ segments) = gap ++ spelled segments := by
  induction gap with
  | nil => rfl
  | cons c gap ih => rw [List.map_cons, List.cons_append, spelled_cons, ih]; rfl

lemma lead_blanks {gap rest : List Char} {segments : List Segment}
    (hgap : ∀ c ∈ gap, c ∈ [' ', '\t', '\r', '\n']) (h : Lead rest segments) :
    Lead rest (gap.map .blank ++ segments) := by
  induction gap with
  | nil => exact h
  | cons c gap ih => exact ⟨hgap c (by simp), ih fun d hd => hgap d (by simp [hd])⟩

/-- Lexemes with gaps in front of them lead each other, and start with a gap. -/
lemma lead_gapped {entries : List (String × Face)}
    (h : ∀ entry ∈ entries, IsWhiteSpace entry.1 ∧ Lexeme entry.2.1 entry.2.2.toList) :
    Lead [] (gapped entries) ∧ ∀ c ∈ (spelled (gapped entries)).head?, isGap c = true := by
  induction entries with
  | nil => exact ⟨trivial, by simp [gapped]⟩
  | cons entry entries ih =>
    obtain ⟨gap, face⟩ := entry
    obtain ⟨⟨hnonempty, hgap⟩, hlexeme⟩ := h (gap, face) (by simp)
    obtain ⟨hlead, hhead⟩ := ih fun entry hentry => h entry (by simp [hentry])
    rw [gapped_cons, spelled_blanks]
    refine ⟨lead_blanks hgap ⟨?_, hlead⟩, ?_⟩
    · exact hlexeme.munch (by simpa using hhead)
    · obtain ⟨c, cs, hcs⟩ := List.exists_cons_of_ne_nil (mt String.toList_eq_nil_iff.mp hnonempty)
      rw [hcs] at hgap ⊢
      intro d hd
      cases hd
      have hblank := hgap c (by simp)
      simp only [List.mem_cons, List.not_mem_nil, or_false] at hblank
      rcases hblank with rfl | rfl | rfl | rfl <;> rfl

/-! ## Faces -/

/-- What is left of a segment if it becomes a token. -/
def Segment.face? : Segment → Option Face
  | lexeme kind text => some (kind, String.ofList text)
  | _ => none

/-- The kinds and the texts of tokens do not depend on their places. -/
lemma map_face_lexemesOf (before : List Char) (segments : List Segment) :
    (lexemesOf before segments).map Token.face = segments.filterMap Segment.face? := by
  induction segments generalizing before with
  | nil => rfl
  | cons segment segments ih =>
    cases segment with
    | blank c => exact ih _
    | comment body => exact ih _
    | lexeme kind text => exact congrArg ((kind, String.ofList text) :: ·) (ih _)

lemma face?_gapped (entries : List (String × Face)) :
    (gapped entries).filterMap Segment.face? = entries.map Prod.snd := by
  have hblanks : ∀ gap : List Char, (gap.map Segment.blank).filterMap Segment.face? = [] := by
    intro gap
    rw [List.filterMap_map]
    exact List.filterMap_eq_nil_iff.mpr fun _ _ => rfl
  induction entries with
  | nil => rfl
  | cons entry entries ih =>
    obtain ⟨gap, face⟩ := entry
    rw [gapped_cons, List.filterMap_append, hblanks, List.filterMap_cons, ih]
    simp [Segment.face?]

lemma Lexeme.kind_ne_eof {kind : TokenKind} {text : List Char} (h : Lexeme kind text) :
    kind ≠ .eof := by
  rintro rfl
  cases h

/-! ## Joining -/

/-- The text of segments with gaps between them is that of their lexemes woven with the gaps. -/
lemma spelled_gapped (gaps : List String) (faces : List Face) :
    spelled (gapped (gaps.zip faces)) =
      (String.join (List.zipWith (· ++ ·) gaps (faces.map Prod.snd))).toList := by
  induction gaps generalizing faces with
  | nil => simp [gapped]
  | cons gap gaps ih =>
    cases faces with
    | nil => simp [gapped]
    | cons face faces =>
      rw [List.zip_cons_cons, gapped_cons, spelled_blanks, spelled_cons, ih]
      simp [Segment.chars]

/-- Lexemes joined with gaps between them are cut apart again. -/
lemma tokenize_weave {faces : List Face} {gaps : List String}
    (hfaces : ∀ face ∈ faces, Lexeme face.1 face.2.toList)
    (hlength : gaps.length = faces.length - 1) (hgaps : ∀ gap ∈ gaps, IsWhiteSpace gap)
    (ws : Workspace) : ∃ tokens ws',
      CompileM.tokenize (weave (faces.map Prod.snd) gaps) ws = .ok tokens ws' ∧
        tokens.map Token.face = faces ++ [(.eof, "")] := by
  suffices h : ∃ segments, TakesApart (weave (faces.map Prod.snd) gaps).toList segments [] ∧
      segments.filterMap Segment.face? = faces by
    -- taken apart into segments, the text gives their lexemes
    obtain ⟨segments, htakes, hsegments⟩ := h
    obtain ⟨ws', hok⟩ := tokenize_of_takesApart htakes ws
    refine ⟨_, ws', hok, ?_⟩
    rw [List.map_append, map_face_lexemesOf, hsegments]
    rfl
  cases faces with
  | nil => exact ⟨[], ⟨rfl, trivial⟩, rfl⟩
  | cons first faces =>
    have hentries : ∀ entry ∈ gaps.zip faces,
        IsWhiteSpace entry.1 ∧ Lexeme entry.2.1 entry.2.2.toList := by
      intro entry hentry
      have hmem := List.of_mem_zip hentry
      exact ⟨hgaps _ hmem.1, hfaces _ (by simp [hmem.2])⟩
    obtain ⟨hlead, hhead⟩ := lead_gapped hentries
    refine ⟨.lexeme first.1 first.2.toList :: gapped (gaps.zip faces), ⟨?_, ?_, hlead⟩, ?_⟩
    · rw [spelled_cons, spelled_gapped]
      simp [weave, Segment.chars]
    · exact (hfaces first (by simp)).munch (by simpa using hhead)
    · have hsnd : (gaps.zip faces).map Prod.snd = faces :=
        List.map_snd_zip (by simpa using hlength.ge)
      rw [List.filterMap_cons, face?_gapped, hsnd]
      simp [Segment.face?]

/-- A text that is a single token as a whole is a lexeme. -/
lemma Alone.lexeme {face : Face} (h : Alone face) : Lexeme face.1 face.2.toList := by
  obtain ⟨ws, ws', start, finish, hok⟩ := h
  obtain ⟨segments, htakes, htokens⟩ := takesApart_of_tokenize hok
  have hbody := List.append_inj_left' (List.singleton_append.trans htokens) rfl
  exact mem_lexemesOf htakes.2 ⟨face.1, start, face.2⟩ (by rw [← hbody]; simp)

lemma intercalate_eq_weave (texts : List String) :
    " ".intercalate texts = weave texts (List.replicate (texts.length - 1) " ") := by
  cases texts with
  | nil => rfl
  | cons first rest =>
    induction rest generalizing first with
    | nil => simp [weave]
    | cons second rest ih =>
      rw [String.intercalate_cons_cons, ih]
      simp [weave, List.replicate_succ, String.append_assoc]

/-- Printing undoes tokenizing.  The texts of the tokens of a text, joined with any white space
between them, have the same kinds and texts again; and texts that are single tokens, joined with
single spaces, are cut into just these tokens. -/
theorem tokenize_joined :
    (∀ source ws tokens ws', CompileM.tokenize source ws = .ok tokens ws' →
      ∀ gaps : List String, gaps.length = (textsOf tokens).length - 1 →
        (∀ gap ∈ gaps, IsWhiteSpace gap) → ∀ ws₁, ∃ joined ws₂,
          CompileM.tokenize (weave (textsOf tokens) gaps) ws₁ = .ok joined ws₂ ∧
            joined.map Token.face = tokens.map Token.face) ∧
    ∀ faces : List Face, (∀ face ∈ faces, Alone face) → ∀ ws, ∃ tokens ws',
      CompileM.tokenize (" ".intercalate (faces.map Prod.snd)) ws = .ok tokens ws' ∧
        tokens.map Token.face = faces ++ [(.eof, "")] := by
  refine ⟨?woven, ?spaced⟩
  case woven =>
    intro source ws tokens ws' hok gaps hlength hgaps ws₁
    obtain ⟨segments, htakes, rfl⟩ := takesApart_of_tokenize hok
    have hlexemes : ∀ token ∈ lexemesOf [] segments, Lexeme token.kind token.text.toList :=
      mem_lexemesOf htakes.2
    -- all that matters of the tokens is that they are lexemes, in this order
    generalize lexemesOf [] segments = body at hlength hlexemes ⊢
    have htexts : textsOf (body ++ [Token.eof (endOf [] segments)]) =
        (body.map Token.face).map Prod.snd := by
      have hfilter : body.filter (·.kind != .eof) = body :=
        List.filter_eq_self.mpr fun token htoken =>
          bne_iff_ne.mpr (hlexemes token htoken).kind_ne_eof
      rw [textsOf, List.filter_append, hfilter, List.map_map]
      simp [Token.eof, Token.face, Function.comp_def]
    rw [htexts, List.length_map] at hlength
    have hfaces : ∀ face ∈ body.map Token.face, Lexeme face.1 face.2.toList := by
      simpa [Token.face] using hlexemes
    obtain ⟨joined, ws₂, hjoined, hjoinedFaces⟩ := tokenize_weave hfaces hlength hgaps ws₁
    exact ⟨joined, ws₂, htexts ▸ hjoined, by rw [hjoinedFaces, List.map_append]; rfl⟩
  case spaced =>
    intro faces hfaces ws
    -- the gap is a single space each time
    rw [intercalate_eq_weave]
    refine tokenize_weave (fun face hface => (hfaces face hface).lexeme) (by simp) ?_ ws
    intro gap hgap
    rw [List.eq_of_mem_replicate hgap]
    refine ⟨by decide, fun c hc => ?_⟩
    rw [List.mem_singleton.mp hc]
    decide

/-- A call written without a space is cut as it is with line breaks and tabulators between its
tokens, and five texts that are tokens alone are found again behind each other. -/
theorem tokenize_joined_call :
    (∃ tokens ws' joined ws₂, CompileM.tokenize "(f -1)" (.initial "notes") = .ok tokens ws' ∧
      textsOf tokens = ["(", "f", "-1", ")"] ∧
      CompileM.tokenize "(\n\nf\t-1 )" (.initial "notes") = .ok joined ws₂ ∧
      joined.map Token.face = tokens.map Token.face) ∧
    (∀ face ∈ [(.integer, "-42u"), (.operator, ":="), (.keyword, "let"), (.ident, "x_1"),
      (.rparen, ")")], Alone face) ∧
    ∃ tokens ws', CompileM.tokenize "-42u := let x_1 )" (.initial "notes") = .ok tokens ws' ∧
      tokens.map Token.face = [(.integer, "-42u"), (.operator, ":="), (.keyword, "let"),
        (.ident, "x_1"), (.rparen, ")"), (.eof, "")] := by
  have hcut : ∃ ws', CompileM.tokenize "(f -1)" (.initial "notes") =
      .ok [⟨.lparen, ⟨1, 1⟩, "("⟩, ⟨.ident, ⟨1, 2⟩, "f"⟩, ⟨.integer, ⟨1, 4⟩, "-1"⟩,
        ⟨.rparen, ⟨1, 6⟩, ")"⟩, .eof ⟨1, 7⟩] ws' := ⟨_, rfl⟩
  have hgaps : ∀ gap ∈ ["\n\n", "\t", " "], IsWhiteSpace gap := by
    simp [IsWhiteSpace]
  have halone : ∀ face ∈ [(.integer, "-42u"), (.operator, ":="), (.keyword, "let"),
      (.ident, "x_1"), (.rparen, ")")], Alone face := by
    simp only [List.forall_mem_cons]
    exact ⟨⟨.initial "notes", _, _, _, rfl⟩, ⟨.initial "notes", _, _, _, rfl⟩,
      ⟨.initial "notes", _, _, _, rfl⟩, ⟨.initial "notes", _, _, _, rfl⟩,
      ⟨.initial "notes", _, _, _, rfl⟩, by simp⟩
  obtain ⟨ws', hok⟩ := hcut
  refine ⟨?_, halone, tokenize_joined.2 _ halone (.initial "notes")⟩
  obtain ⟨joined, ws₂, hjoined, hfaces⟩ :=
    tokenize_joined.1 _ _ _ _ hok ["\n\n", "\t", " "] rfl hgaps (.initial "notes")
  exact ⟨_, ws', joined, ws₂, hok, rfl, hjoined, hfaces⟩

end ParenC
