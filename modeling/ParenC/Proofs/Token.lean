/-
What the texts of tokens look like.

A token that was cut from a text has a text that its kind allows, and none of them is an end
marker; the end marker is put behind them.
-/
import Mathlib.Data.List.TakeWhile
import ParenC.Proofs.Literal
import ParenC.Proofs.Workspace

namespace ParenC

/-- The texts that tokens of a kind have. -/
def TokenKind.Allows (text : String) : TokenKind → Prop
  | lparen => text = "("
  | rparen => text = ")"
  | colon => text = ":"
  | keyword => text ∈ keywords
  | typeName => text ∈ typeNames
  | operator => text ∈ operators
  | integer => ∃ n : Numeral, text = n.text
  | ident => text ∉ keywords ∧ text ∉ typeNames
  | eof => text = ""

/-- The token has a text that its kind allows. -/
def Token.Lexical (token : Token) : Prop := token.kind.Allows token.text

/-! ## Literals -/

/-- The digits at the front of a text that belong to one literal. -/
lemma take_digitCount {d : Char} (cs : List Char) (hd : d.isDigit = true) :
    ∃ digits, (d :: cs).take (digitCount (d :: cs)) = digits ∧ digits.head? = some d ∧
      (∀ c ∈ digits, c.isDigit = true) ∧ (d = '0' → digits = ['0']) := by
  by_cases hzero : d = '0'
  · subst hzero
    exact ⟨['0'], rfl, rfl, by simp, fun _ => rfl⟩
  · have hcount : digitCount (d :: cs) = ((d :: cs).takeWhile Char.isDigit).length := by
      unfold digitCount
      split
      · rename_i heq
        cases heq
        exact absurd rfl hzero
      · rfl
    refine ⟨(d :: cs).takeWhile Char.isDigit, ?_, ?_, ?_, fun h => absurd h hzero⟩
    · rw [hcount]
      exact (List.prefix_iff_eq_take.mp (List.takeWhile_prefix _)).symm
    · simp [hd]
    · exact fun c hc => List.mem_takeWhile_imp hc

/-- A literal without its sign. -/
lemma take_magnitudeLength (cs : List Char) : ∃ unsigned : Bool,
    cs.take (magnitudeLength cs) =
      cs.take (digitCount cs) ++ if unsigned then ['u'] else [] := by
  unfold magnitudeLength
  split
  · rename_i hdrop
    refine ⟨true, ?_⟩
    rw [List.take_add, hdrop]
    rfl
  · exact ⟨false, by simp⟩

/-- The literal at the front of a text is a numeral. -/
lemma integerLength?_numeral {cs : List Char} {length : Nat}
    (h : integerLength? cs = some length) : ∃ n : Numeral, cs.take length = n.chars := by
  -- what follows the sign, if there is one
  have hmagnitude : ∀ {d : Char} (cs : List Char) (negative : Bool), d.isDigit = true →
      (d = '0' → negative = false) → ∃ n : Numeral,
        (if negative then ['-'] else []) ++ (d :: cs).take (magnitudeLength (d :: cs)) =
          n.chars := by
    intro d cs negative hd hsign
    obtain ⟨digits, htake, hhead, hdigits, hzero⟩ := take_digitCount cs hd
    obtain ⟨unsigned, hunsigned⟩ := take_magnitudeLength (d :: cs)
    have hnonempty : digits ≠ [] := by
      rintro rfl
      cases hhead
    refine ⟨⟨negative, digits, unsigned, hnonempty, hdigits, ?_⟩, ?_⟩
    · intro hfirst
      rw [hhead] at hfirst
      cases hfirst
      exact ⟨hzero rfl, hsign rfl⟩
    · rw [hunsigned, htake, ← List.append_assoc]
      rfl
  unfold integerLength? at h
  split at h
  · cases h
  · rename_i d cs
    split at h
    · rename_i hd
      cases h
      simp only [Bool.and_eq_true, bne_iff_ne, ne_eq] at hd
      obtain ⟨n, hn⟩ := hmagnitude cs true hd.1 fun heq => absurd heq hd.2
      refine ⟨n, ?_⟩
      rw [← hn, Nat.add_comm]
      rfl
    · cases h
  · split at h
    · rename_i hd
      cases h
      exact hmagnitude _ false hd fun _ => rfl
    · cases h

/-! ## Pieces of a text -/

lemma operatorLength?_operator {cs : List Char} {length : Nat}
    (h : operatorLength? cs = some length) : String.ofList (cs.take length) ∈ operators := by
  obtain ⟨op, hop, rfl⟩ := Option.map_eq_some_iff.mp h
  have hfound : op.toList.isPrefixOf cs = true := by simpa using List.find?_some hop
  have hprefix : op.toList <+: cs := List.isPrefixOf_iff_prefix.mp hfound
  have htake : cs.take op.length = op.toList := by
    rw [← String.length_toList]
    exact (List.prefix_iff_eq_take.mp hprefix).symm
  rw [htake, String.ofList_toList]
  exact List.mem_of_find?_eq_some hop

lemma wordKind_allows (word : String) :
    (wordKind word).Allows word ∧ wordKind word ≠ .eof := by
  unfold wordKind
  by_cases hkeyword : keywords.contains word = true
  · rw [if_pos hkeyword]
    exact ⟨List.contains_iff_mem.mp hkeyword, by decide⟩
  · rw [if_neg hkeyword]
    by_cases htype : typeNames.contains word = true
    · rw [if_pos htype]
      exact ⟨List.contains_iff_mem.mp htype, by decide⟩
    · rw [if_neg htype]
      exact ⟨⟨mt List.contains_iff_mem.mpr hkeyword, mt List.contains_iff_mem.mpr htype⟩,
        by decide⟩

/-- A lexeme has a text that its kind allows. -/
lemma Piece.lexeme_allows {c : Char} {cs : List Char} {kind : TokenKind} {length : Nat}
    (h : Piece.ofText c cs = .lexeme kind length) :
    kind.Allows (String.ofList ((c :: cs).take length)) ∧ kind ≠ .eof := by
  unfold Piece.ofText at h
  split at h
  · cases h
  split at h
  · cases h
  split at h
  · cases h
  split at h
  · rename_i n hinteger
    cases h
    obtain ⟨numeral, hnumeral⟩ := integerLength?_numeral hinteger
    refine ⟨⟨numeral, ?_⟩, by decide⟩
    rw [hnumeral]
    rfl
  split at h
  · rename_i n hoperator
    cases h
    exact ⟨operatorLength?_operator hoperator, by decide⟩
  split at h
  · rename_i hpunctuation
    cases h
    unfold punctuation? at hpunctuation
    split at hpunctuation
    · cases hpunctuation
      exact ⟨rfl, by decide⟩
    · cases hpunctuation
      exact ⟨rfl, by decide⟩
    · cases hpunctuation
      exact ⟨rfl, by decide⟩
    · cases hpunctuation
  split at h
  · cases h
    -- a word is a prefix of the text, so it is what the length cuts off
    have hprefix : c :: cs.takeWhile isWordChar <+: c :: cs :=
      List.cons_prefix_cons.mpr ⟨rfl, List.takeWhile_prefix _⟩
    rw [← List.prefix_iff_eq_take.mp hprefix]
    exact wordKind_allows _
  · cases h

/-! ## Whole texts -/

/-- By induction on the text: every lexeme that the walk meets becomes such a token. -/
lemma Scan.walk_lexical (covered : Nat) (loc : Location) (cs : List Char) :
    ∀ token ∈ (Scan.walk covered loc cs).tokens, token.Lexical ∧ token.kind ≠ .eof := by
  induction cs generalizing covered loc with
  | nil => cases covered <;> simp [Scan.walk]
  | cons c cs ih =>
    cases covered with
    | succ n => exact ih n loc
    | zero =>
      unfold Scan.walk
      cases hpiece : Piece.ofText c cs with
      | newline => exact ih 0 loc.nextLine
      | blank => exact ih 0 (loc.right 1)
      | comment n => exact ih (n - 1) loc
      | lexeme kind n =>
        intro token htoken
        rcases List.mem_cons.mp htoken with rfl | htoken
        · exact Piece.lexeme_allows hpiece
        · exact ih (n - 1) (loc.right n) token htoken
      | unknown => simp

/-- What cutting a text into tokens leaves: tokens in order, and the end marker. -/
theorem tokenize_eq_ok {source : String} {ws ws' : Workspace} {tokens : List Token}
    (h : CompileM.tokenize source ws = .ok tokens ws') : ∃ body loc,
      tokens = body ++ [Token.eof loc] ∧ ws'.toTables = ws.toTables ∧ (ws'.Quiet ↔ ws.Quiet) ∧
      ∀ token ∈ body, token.Lexical ∧ token.kind ≠ .eof := by
  unfold CompileM.tokenize at h
  obtain ⟨_, ws₁, hlog, h⟩ := CompileM.bind_eq_ok.mp h
  cases hlog
  cases hending : (Scan.run source).ending with
  | unknown loc =>
    rw [hending] at h
    cases h
  | finished loc =>
    rw [hending] at h
    cases h
    exact ⟨_, loc, rfl, rfl, Iff.rfl, Scan.walk_lexical 0 .start source.toList⟩

/-- The tokens before the end marker. -/
lemma takeWhile_body {body : List Token} (h : ∀ token ∈ body, token.kind ≠ .eof)
    (loc : Location) : (body ++ [Token.eof loc]).takeWhile (·.kind != .eof) = body := by
  rw [List.takeWhile_append_of_pos]
  · simp [Token.eof]
  · intro token htoken
    simpa using h token htoken

end ParenC
