/-
Tokenizing is maximal munch.

A text is taken apart into segments: blanks, comments and lexemes, each lexeme the longest that
stands where it starts.  `tokenize_munches` says that tokenizing succeeds just if the whole text
can be taken apart, that the tokens are then its lexemes, and that otherwise it fails where no
segment starts.

The places of tokens are not those that the walk over the text counts along, but are computed from
the bytes in front of them by `Location.after`.  The walk agrees with it at the start of every
segment but one: behind a comment it still has the place of the comment.  Since a comment reaches
to the end of its line, what follows it starts a new line or is the end of the text.

`Location.behind` is the place in numbers without bound, and `Location.after` what the counters of
a place hold of it.  In a text that is `Addressable` they are the same.
-/
import Mathlib.Data.List.DropRight
import ParenC.Proofs.Token.Lexeme

namespace ParenC

/-! ## Bytes -/

/-- The bytes of a text. -/
def bytesOf (cs : List Char) : List UInt8 := cs.flatMap String.utf8EncodeChar

/-- The byte of a line break. -/
def lineBreak : UInt8 := 10

@[simp] lemma bytesOf_append (first second : List Char) :
    bytesOf (first ++ second) = bytesOf first ++ bytesOf second := List.flatMap_append

lemma ne_lineBreak {n : Nat} (h : n % 256 ≠ 10) : lineBreak ≠ UInt8.ofNat n := by
  intro heq
  have := congrArg UInt8.toNat heq
  rw [UInt8.toNat_ofNat'] at this
  exact h this.symm

/-- The byte of a line break is part of no other character. -/
lemma lineBreak_notMem_utf8EncodeChar {c : Char} (h : c ≠ '\n') :
    lineBreak ∉ String.utf8EncodeChar c := by
  have hcode : c.val.toNat ≠ 10 := fun heq => h (Char.ext (UInt32.toNat_inj.mp heq))
  unfold String.utf8EncodeChar
  simp only
  split
  · simp only [List.mem_singleton]
    exact ne_lineBreak (by omega)
  · -- the bytes of all other characters are at least 128
    split
    · simp only [List.mem_cons, List.not_mem_nil, or_false, not_or]
      exact ⟨ne_lineBreak (by omega), ne_lineBreak (by omega)⟩
    · split
      · simp only [List.mem_cons, List.not_mem_nil, or_false, not_or]
        exact ⟨ne_lineBreak (by omega), ne_lineBreak (by omega), ne_lineBreak (by omega)⟩
      · simp only [List.mem_cons, List.not_mem_nil, or_false, not_or]
        exact ⟨ne_lineBreak (by omega), ne_lineBreak (by omega), ne_lineBreak (by omega),
          ne_lineBreak (by omega)⟩

lemma lineBreak_notMem_bytesOf {cs : List Char} (h : '\n' ∉ cs) : lineBreak ∉ bytesOf cs := by
  simp only [bytesOf, List.mem_flatMap, not_exists, not_and]
  intro c hc
  exact lineBreak_notMem_utf8EncodeChar fun heq => h (heq ▸ hc)

/-- A single-byte character is one byte. -/
lemma length_bytesOf {cs : List Char} (h : ∀ c ∈ cs, c.toNat < 128) :
    (bytesOf cs).length = cs.length := by
  induction cs with
  | nil => rfl
  | cons c cs ih =>
    have hc : c.utf8Size = 1 := by
      rw [Char.utf8Size_eq_one_iff, UInt32.le_iff_toNat_le]
      exact Nat.le_of_lt_succ (h c (by simp))
    rw [bytesOf, List.flatMap_cons, List.length_append, String.length_utf8EncodeChar, hc,
      List.length_cons, Nat.add_comm]
    exact congrArg (· + 1) (ih fun d hd => h d (by simp [hd]))

/-! ## Places -/

namespace Location

/-- The place behind a text: its line is told by the line breaks, its column by the bytes since
the last of them. -/
def behind (before : List Char) : Location :=
  ⟨1 + (bytesOf before).count lineBreak, 1 + ((bytesOf before).rtakeWhile (· != lineBreak)).length⟩

/-- The place behind a text, as counters hold it. -/
def after (before : List Char) : Location := (behind before).counted

@[simp] lemma after_nil : after [] = start := rfl

/-- The column does not matter for what the next line is. -/
lemma nextLine_right (loc : Location) (width : Nat) : (loc.right width).nextLine = loc.nextLine := by
  simp only [nextLine, right, counted, Nat.mod_add_mod]

lemma behind_append {text : List Char} (before : List Char) (h : '\n' ∉ text) :
    behind (before ++ text) =
      ⟨(behind before).line, (behind before).column + (bytesOf text).length⟩ := by
  have hbreak := lineBreak_notMem_bytesOf h
  have hcount : (bytesOf text).count lineBreak = 0 := List.count_eq_zero.mpr hbreak
  have htake : (bytesOf before ++ bytesOf text).rtakeWhile (· != lineBreak) =
      (bytesOf before).rtakeWhile (· != lineBreak) ++ bytesOf text := by
    have hall : ∀ b ∈ (bytesOf text).reverse, (b != lineBreak) = true := by
      intro b hb
      rw [bne_iff_ne]
      rintro rfl
      exact hbreak (List.mem_reverse.mp hb)
    rw [List.rtakeWhile, List.reverse_append, List.takeWhile_append_of_pos hall,
      List.reverse_append, List.reverse_reverse]
    rfl
  simp only [behind, bytesOf_append, List.count_append, hcount, htake, List.length_append,
    Nat.add_zero, Nat.add_assoc]

/-- Without a line break, the place moves along its line. -/
lemma after_append {text : List Char} (before : List Char) (h : '\n' ∉ text) :
    after (before ++ text) = (after before).right (bytesOf text).length := by
  simp only [after, right, counted, behind_append before h, Nat.mod_mod, Nat.mod_add_mod]

lemma behind_concat (before : List Char) :
    behind (before ++ ['\n']) = ⟨(behind before).line + 1, 1⟩ := by
  have hbytes : bytesOf ['\n'] = [lineBreak] := by decide
  have htake : (bytesOf before ++ [lineBreak]).rtakeWhile (· != lineBreak) = [] := by
    rw [List.rtakeWhile_concat]
    simp
  simp only [behind, bytesOf_append, hbytes, List.count_append, htake, List.length_nil,
    List.count_singleton_self, Nat.add_assoc]

/-- A line break starts the next line, wherever it stands. -/
lemma after_concat (before : List Char) : after (before ++ ['\n']) = (after before).nextLine := by
  simp only [after, nextLine, counted, behind_concat, Nat.mod_add_mod]

/-- A lexeme moves the place by one byte for each of its characters. -/
lemma after_lexeme {kind : TokenKind} {text : List Char} (before : List Char)
    (h : Lexeme kind text) : after (before ++ text) = (after before).right text.length := by
  rw [after_append before, length_bytesOf fun c hc => (h.isGraphic c hc).1]
  intro hbreak
  exact absurd (h.isGraphic _ hbreak).2 (by decide)

end Location

/-- The text is so short that counters tell all of its places apart. -/
def Addressable (text : List Char) : Prop := (bytesOf text).length + 1 < Location.counterRange

namespace Addressable

variable {text before : List Char}

instance : DecidablePred Addressable := fun text =>
  inferInstanceAs (Decidable ((bytesOf text).length + 1 < Location.counterRange))

lemma front (h : Addressable text) (hfront : before <+: text) : Addressable before := by
  obtain ⟨rest, rfl⟩ := hfront
  rw [Addressable, bytesOf_append, List.length_append] at h
  rw [Addressable]
  omega

/-- Behind a short text, no counter has started again. -/
lemma after_eq (h : Addressable text) : Location.after text = Location.behind text := by
  have hline : (bytesOf text).count lineBreak ≤ (bytesOf text).length := List.count_le_length
  have hcolumn : ((bytesOf text).rtakeWhile (· != lineBreak)).length ≤ (bytesOf text).length :=
    (List.rtakeWhile_suffix _ _).length_le
  rw [Addressable] at h
  simp only [Location.after, Location.counted, Location.behind]
  rw [Nat.mod_eq_of_lt (by omega), Nat.mod_eq_of_lt (by omega)]

end Addressable

/-! ## Segments -/

/-- A part of a text. -/
inductive Segment
  /-- A space, a tabulator, a carriage return or a line break. -/
  | blank (c : Char)
  /-- A comment, without the character that starts it. -/
  | comment (body : List Char)
  /-- A lexeme. -/
  | lexeme (kind : TokenKind) (text : List Char)

namespace Segment

/-- The characters of a segment. -/
def chars : Segment → List Char
  | blank c => [c]
  | comment body => ';' :: body
  | lexeme _ text => text

/-- Whether the segment may stand in front of a text: a comment ends with its line, and a lexeme
is as long as can be. -/
def Leads (rest : List Char) : Segment → Prop
  | blank c => c ∈ [' ', '\t', '\r', '\n']
  | comment body => '\n' ∉ body ∧ (rest = [] ∨ rest.head? = some '\n')
  | lexeme kind text => Munch kind text (text ++ rest)

/-- The bytes that a segment takes up, if each of its characters is one byte unless it stands in a
comment. -/
def width : Segment → Nat
  | blank _ => 1
  | comment body => 1 + (bytesOf body).length
  | lexeme _ text => text.length

end Segment

/-- The text that segments make. -/
def spelled (segments : List Segment) : List Char := segments.flatMap Segment.chars

@[simp] lemma spelled_nil : spelled [] = [] := rfl

@[simp] lemma spelled_cons (segment : Segment) (segments : List Segment) :
    spelled (segment :: segments) = segment.chars ++ spelled segments := rfl

/-- Each of the segments may stand in front of those after it, and of what follows them all. -/
def Lead (rest : List Char) : List Segment → Prop
  | [] => True
  | segment :: segments => segment.Leads (spelled segments ++ rest) ∧ Lead rest segments

/-- The segments take the text apart from left to right, up to `rest`. -/
def TakesApart (text : List Char) (segments : List Segment) (rest : List Char) : Prop :=
  text = spelled segments ++ rest ∧ Lead rest segments

instance (rest : List Char) : DecidablePred (Segment.Leads rest)
  | .blank c => inferInstanceAs (Decidable (c ∈ [' ', '\t', '\r', '\n']))
  | .comment body => inferInstanceAs (Decidable ('\n' ∉ body ∧ (rest = [] ∨ rest.head? = some '\n')))
  | .lexeme kind text => inferInstanceAs (Decidable (Munch kind text (text ++ rest)))

instance decidableLead (rest : List Char) : DecidablePred (Lead rest)
  | [] => isTrue trivial
  | segment :: segments =>
    have := decidableLead rest segments
    inferInstanceAs (Decidable (segment.Leads (spelled segments ++ rest) ∧ Lead rest segments))

instance (text rest : List Char) (segments : List Segment) :
    Decidable (TakesApart text segments rest) :=
  inferInstanceAs (Decidable (text = spelled segments ++ rest ∧ Lead rest segments))

/-- No segment starts the text. -/
def Stuck (text : List Char) : Prop :=
  text ≠ [] ∧ ∀ segment rest, text = Segment.chars segment ++ rest → ¬ segment.Leads rest

/-- The tokens of segments that stand behind the text `before`. -/
def lexemesOf (before : List Char) : List Segment → List Token
  | [] => []
  | .lexeme kind text :: segments =>
    ⟨kind, .after before, String.ofList text⟩ :: lexemesOf (before ++ text) segments
  | segment :: segments => lexemesOf (before ++ segment.chars) segments

/-- The place where the segments end; a comment at their end does not count. -/
def endOf (before : List Char) : List Segment → Location
  | [] | [.comment _] => .after before
  | segment :: segments => endOf (before ++ segment.chars) segments

/-- The tokens of segments are lexemes. -/
lemma mem_lexemesOf {before rest : List Char} {segments : List Segment} (h : Lead rest segments) :
    ∀ token ∈ lexemesOf before segments, Lexeme token.kind token.text.toList := by
  induction segments generalizing before with
  | nil => simp [lexemesOf]
  | cons segment segments ih =>
    cases segment with
    | blank c => exact ih h.2
    | comment body => exact ih h.2
    | lexeme kind text =>
      intro token htoken
      rcases List.mem_cons.mp htoken with rfl | htoken
      · simpa using h.1.lexeme
      · exact ih h.2 token htoken

/-! ## The walk over segments -/

namespace Scan

/-- Put tokens in front. -/
def behind (tokens : List Token) (scan : Scan) : Scan :=
  { scan with tokens := tokens ++ scan.tokens }

/-- The walk passes over the characters that a piece covers. -/
lemma walk_covered (loc : Location) (text rest : List Char) :
    walk text.length loc (text ++ rest) = walk 0 loc rest := by
  induction text with
  | nil => rfl
  | cons c text ih => exact ih

/-- A blank or a line break moves the place as its byte says. -/
lemma walk_blank {c : Char} (h : c ∈ [' ', '\t', '\r', '\n']) (before rest : List Char) :
    walk 0 (.after before) (c :: rest) = walk 0 (.after (before ++ [c])) rest := by
  simp only [List.mem_cons, List.not_mem_nil, or_false] at h
  rcases h with rfl | rfl | rfl | rfl
  · rw [Location.after_append before (by decide)]
    rfl
  · rw [Location.after_append before (by decide)]
    rfl
  · rw [Location.after_append before (by decide)]
    rfl
  · rw [Location.after_concat]
    rfl

/-- A comment keeps the place. -/
lemma walk_comment {body rest : List Char} (loc : Location)
    (h : (Segment.comment body).Leads rest) : walk 0 loc (';' :: body ++ rest) = walk 0 loc rest := by
  have hbody : ∀ c ∈ body, (c != '\n') = true := by
    intro c hc
    rw [bne_iff_ne]
    rintro rfl
    exact h.1 hc
  have hrest : rest.takeWhile (· != '\n') = [] := by
    rcases h.2 with rfl | hhead
    · rfl
    · obtain ⟨tail, rfl⟩ := List.head?_eq_some_iff.mp hhead
      rfl
  have hpiece : Piece.ofText ';' (body ++ rest) = .comment (1 + body.length) := by
    have : Piece.ofText ';' (body ++ rest) =
        .comment (1 + ((body ++ rest).takeWhile (· != '\n')).length) := rfl
    rw [this, List.takeWhile_append_of_pos hbody, hrest, List.append_nil]
  rw [List.cons_append, walk, hpiece]
  simp only [Nat.add_sub_cancel_left]
  exact walk_covered loc body rest

/-- A lexeme becomes a token and moves the place by its length. -/
lemma walk_lexeme {kind : TokenKind} {text rest : List Char} (before : List Char)
    (h : Munch kind text (text ++ rest)) : walk 0 (.after before) (text ++ rest) =
      behind [⟨kind, .after before, String.ofList text⟩] (walk 0 (.after (before ++ text)) rest) := by
  rw [Location.after_lexeme before h.lexeme]
  obtain ⟨c, cs, rfl⟩ := List.exists_cons_of_length_pos h.lexeme.length_pos
  have hpiece : Piece.ofText c (cs ++ rest) = .lexeme kind (c :: cs).length := h.ofText
  rw [List.cons_append, walk, hpiece]
  simp only [List.length_cons, Nat.add_sub_cancel, walk_covered]
  rw [← List.cons_append, ← List.length_cons, List.take_left]
  rfl

/-- Behind a comment, the next line starts or the text ends. -/
lemma starts_line {body rest : List Char} {next : Segment} {segments : List Segment}
    (h : Lead rest (.comment body :: next :: segments)) : next = .blank '\n' := by
  obtain ⟨⟨-, hhead⟩, hnext, -⟩ := h
  cases next with
  | blank c =>
    rcases hhead with hnil | hhead
    · cases hnil
    · cases hhead
      rfl
  | comment body =>
    rcases hhead with hnil | hhead
    · cases hnil
    · cases hhead
  | lexeme kind text =>
    obtain ⟨c, cs, rfl⟩ := List.exists_cons_of_length_pos hnext.lexeme.length_pos
    rcases hhead with hnil | hhead
    · cases hnil
    · cases hhead
      exact absurd (hnext.lexeme.isGraphic '\n' (by simp)).2 (by decide)

/-- The walk over segments gives their lexemes.  Behind a comment the walk has still the place of
the comment, so a comment and the line break after it are one step of the induction. -/
theorem walk_of_lead {rest : List Char} (before : List Char) :
    ∀ {segments : List Segment}, Lead rest segments →
      walk 0 (.after before) (spelled segments ++ rest) =
        behind (lexemesOf before segments) (walk 0 (endOf before segments) rest)
  | [], _ => rfl
  | .blank c :: segments, h => (walk_blank h.1 before _).trans (walk_of_lead (before ++ [c]) h.2)
  | .lexeme kind text :: segments, h => by
    calc walk 0 (.after before) (spelled (.lexeme kind text :: segments) ++ rest)
        = walk 0 (.after before) (text ++ (spelled segments ++ rest)) := by
          rw [spelled_cons, List.append_assoc]
          rfl
      _ = behind [⟨kind, .after before, String.ofList text⟩]
            (walk 0 (.after (before ++ text)) (spelled segments ++ rest)) :=
          walk_lexeme before h.1
      _ = _ := by
          rw [walk_of_lead (before ++ text) h.2]
          rfl
  | [.comment body], h => by
    have hwalk := walk_comment (.after before) h.1
    rw [spelled_nil, List.nil_append] at hwalk
    rw [spelled_cons, spelled_nil, List.append_nil]
    exact hwalk
  | .comment body :: next :: segments, h => by
    -- a comment goes on to the end of its line, so a line break comes next
    obtain rfl := starts_line h
    have hbreak : Location.after (before ++ ';' :: body ++ ['\n']) =
        (Location.after before).nextLine := by
      have hbody : '\n' ∉ ';' :: body := by
        rw [List.mem_cons, not_or]
        exact ⟨by decide, h.1.1⟩
      rw [Location.after_concat, Location.after_append before hbody, Location.nextLine_right]
    calc walk 0 (.after before) (spelled (.comment body :: .blank '\n' :: segments) ++ rest)
        = walk 0 (.after before) (';' :: body ++ (spelled (.blank '\n' :: segments) ++ rest)) := by
          rw [spelled_cons, List.append_assoc]
          rfl
      _ = walk 0 (.after before) ('\n' :: (spelled segments ++ rest)) :=
          walk_comment (.after before) h.1
      _ = walk 0 (.after (before ++ ';' :: body ++ ['\n'])) (spelled segments ++ rest) := by
          rw [hbreak]
          rfl
      _ = _ := walk_of_lead (before ++ ';' :: body ++ ['\n']) h.2.2

end Scan

/-! ## Taking a text apart -/

lemma Segment.Leads.length_pos {segment : Segment} {rest : List Char} (h : segment.Leads rest) :
    0 < segment.chars.length := by
  cases segment with
  | blank | comment => simp [Segment.chars]
  | lexeme kind text => exact h.lexeme.length_pos

/-- Every text can be taken apart up to a place where it ends or where nothing starts. -/
theorem exists_takesApart (text : List Char) :
    ∃ segments rest, TakesApart text segments rest ∧ (rest = [] ∨ Stuck rest) := by
  induction hlength : text.length using Nat.strong_induction_on generalizing text with
  | _ length ih =>
    by_cases hend : text = [] ∨ Stuck text
    · exact ⟨[], text, ⟨rfl, trivial⟩, hend⟩
    · simp only [Stuck, not_or, not_and, not_forall, not_not] at hend
      obtain ⟨segment, rest, rfl, hleads⟩ := hend.2 hend.1
      have hshorter : rest.length < length := by
        have := hleads.length_pos
        rw [← hlength, List.length_append]
        omega
      obtain ⟨segments, rest', ⟨rfl, hlead⟩, hrest⟩ := ih _ hshorter rest rfl
      refine ⟨segment :: segments, rest', ⟨?_, hleads, hlead⟩, hrest⟩
      rw [spelled_cons, List.append_assoc]

namespace Stuck

variable {text : List Char}

lemma not_blank {c : Char} {cs : List Char} (h : Stuck (c :: cs)) : c ∉ [' ', '\t', '\r', '\n'] :=
  h.2 (.blank c) cs rfl

/-- Where nothing starts, the look at the front of the text finds nothing: whatever it finds
starts the text. -/
lemma ofText_unknown {c : Char} {cs : List Char} (h : Stuck (c :: cs)) :
    Piece.ofText c cs = .unknown := by
  have hspec := Piece.ofText_spec c cs
  cases hpiece : Piece.ofText c cs with
  | newline =>
    rw [hpiece] at hspec
    obtain rfl := hspec
    exact absurd h.not_blank (by decide)
  | blank =>
    rw [hpiece] at hspec
    obtain rfl | rfl | rfl := hspec <;> exact absurd h.not_blank (by decide)
  | comment length =>
    rw [hpiece] at hspec
    obtain ⟨rfl, -⟩ := hspec
    -- the comment that was found would be one up to the next line break
    have hsplit := List.takeWhile_append_dropWhile (p := (· != '\n')) (l := cs)
    refine absurd ⟨?_, ?_⟩ (h.2 (.comment (cs.takeWhile (· != '\n')))
      (cs.dropWhile (· != '\n')) (congrArg (';' :: ·) hsplit.symm))
    · intro hbreak
      simpa using List.mem_takeWhile_imp hbreak
    · cases hrest : cs.dropWhile (· != '\n') with
      | nil => exact .inl rfl
      | cons d ds =>
        have := List.head?_dropWhile_not (fun d => d != '\n') cs
        rw [hrest] at this
        exact .inr (by simpa using this)
  | lexeme kind length =>
    rw [hpiece] at hspec
    obtain ⟨-, lexeme, hmunch, -⟩ := hspec
    obtain ⟨rest, hrest⟩ := hmunch.atFront
    rw [← hrest] at hmunch
    exact absurd hmunch (h.2 (.lexeme kind lexeme) rest hrest.symm)
  | unknown => rfl

/-- The walk ends where nothing starts. -/
lemma walk_unknown (h : Stuck text) (loc : Location) :
    Scan.walk 0 loc text = ⟨[], .unknown loc⟩ := by
  obtain ⟨c, cs, rfl⟩ := List.exists_cons_of_ne_nil h.1
  rw [Scan.walk, h.ofText_unknown]

/-- A comment does not stand before a place where nothing starts. -/
lemma endOf_eq (h : Stuck text) (before : List Char) :
    ∀ {segments : List Segment}, Lead text segments →
      endOf before segments = .after (before ++ spelled segments)
  | [], _ => by simp [endOf]
  | [.comment body], hlead => by
    rw [Lead, spelled_nil, List.nil_append] at hlead
    rcases hlead.1.2 with hnil | hhead
    · exact absurd hnil h.1
    · obtain ⟨rest, rfl⟩ := List.head?_eq_some_iff.mp hhead
      exact absurd h.not_blank (by decide)
  | .comment body :: next :: segments, hlead => by
    have ih := h.endOf_eq (before ++ ';' :: body) hlead.2
    rwa [List.append_assoc] at ih
  | .blank c :: segments, hlead => by
    have ih := h.endOf_eq (before ++ [c]) hlead.2
    rwa [List.append_assoc] at ih
  | .lexeme kind body :: segments, hlead => by
    have ih := h.endOf_eq (before ++ body) hlead.2
    rwa [List.append_assoc] at ih

end Stuck

/-! ## Slices -/

/-- A part of the segments at the front takes the text apart as far as it goes. -/
lemma TakesApart.of_append {text rest : List Char} {before after : List Segment}
    (h : TakesApart text (before ++ after) rest) :
    TakesApart text before (spelled after ++ rest) ∧ Lead rest after := by
  obtain ⟨rfl, hlead⟩ := h
  induction before with
  | nil => exact ⟨⟨rfl, trivial⟩, hlead⟩
  | cons segment before ih =>
    obtain ⟨⟨htext, hbefore⟩, hafter⟩ := ih hlead.2
    refine ⟨⟨?_, ?_, hbefore⟩, hafter⟩
    · simp only [List.cons_append, spelled_cons, List.append_assoc, htext]
    · rw [← htext]
      exact hlead.1

/-- What the walk over a text finds, told by segments that take the text apart. -/
lemma TakesApart.run_eq {source : String} {segments : List Segment} {rest : List Char}
    (h : TakesApart source.toList segments rest) :
    Scan.run source =
      Scan.behind (lexemesOf [] segments) (Scan.walk 0 (endOf [] segments) rest) := by
  rw [Scan.run, h.1]
  exact Scan.walk_of_lead [] h.2

/-- Tokenizing a text that can be taken apart. -/
lemma tokenize_of_takesApart {source : String} {segments : List Segment}
    (h : TakesApart source.toList segments []) (ws : Workspace) : ∃ ws',
      CompileM.tokenize source ws =
        .ok (lexemesOf [] segments ++ [Token.eof (endOf [] segments)]) ws' := by
  have hrun : Scan.run source = ⟨lexemesOf [] segments, .finished (endOf [] segments)⟩ := by
    rw [h.run_eq]
    simp [Scan.behind, Scan.walk]
  unfold CompileM.tokenize
  rw [hrun]
  exact ⟨_, rfl⟩

/-- Tokenizing a text that cannot be taken apart. -/
lemma tokenize_of_stuck {source : String} {segments : List Segment} {rest : List Char}
    (h : TakesApart source.toList segments rest) (hstuck : Stuck rest) (ws : Workspace) : ∃ ws',
      CompileM.tokenize source ws =
        .error (.error (.fatal ws.journal.file (.after (spelled segments)) "unknown syntax"
          ws.journal.diagnostics.toList)) ws' := by
  have hrun : Scan.run source =
      ⟨lexemesOf [] segments, .unknown (.after (spelled segments))⟩ := by
    rw [h.run_eq, hstuck.walk_unknown, hstuck.endOf_eq [] h.2]
    simp [Scan.behind]
  unfold CompileM.tokenize
  rw [hrun]
  exact ⟨_, rfl⟩

/-- A text that is cut into tokens can be taken apart. -/
lemma takesApart_of_tokenize {source : String} {ws ws' : Workspace} {tokens : List Token}
    (h : CompileM.tokenize source ws = .ok tokens ws') : ∃ segments,
      TakesApart source.toList segments [] ∧
        tokens = lexemesOf [] segments ++ [Token.eof (endOf [] segments)] := by
  obtain ⟨segments, rest, htakes, rfl | hstuck⟩ := exists_takesApart source.toList
  · obtain ⟨_, hok⟩ := tokenize_of_takesApart htakes ws
    rw [h] at hok
    cases hok
    exact ⟨segments, htakes, rfl⟩
  · obtain ⟨_, herror⟩ := tokenize_of_stuck htakes hstuck ws
    rw [h] at herror
    cases herror

end ParenC
