/-
The lexical grammar, and what stands at the front of a text.

`Lexeme kind text` says which texts the tokens of a kind have.  It does not say how a longer text
is cut: that is `Munch`, the longest lexeme at the front of a text.  The main result here,
`Piece.ofText_spec`, is that the look at the front of a text finds the longest lexeme if there is
one at all, although it tries the kinds of lexemes one after the other.

A lexeme that starts with a given character is of few kinds: a digit starts an integer, a letter
starts a word, and a minus sign starts an integer or is an operator.  So most comparisons of
lengths are between lexemes of one kind, or with a lexeme of a single character.
-/
import ParenC.Proofs.Token

namespace ParenC

/-! ## Lexemes -/

/-- A word: a letter or an underscore, and then letters, digits and underscores. -/
def IsWord : List Char → Prop
  | [] => False
  | c :: cs => isWordStart c = true ∧ ∀ d ∈ cs, isWordChar d = true

instance : DecidablePred IsWord := fun text =>
  match text with
  | [] => inferInstanceAs (Decidable False)
  | c :: cs =>
    decidable_of_iff (isWordStart c = true ∧ cs.all isWordChar = true) (by simp [IsWord])

/-- The lexical grammar: the texts of the tokens of each kind. -/
inductive Lexeme : TokenKind → List Char → Prop
  /-- An opening parenthesis. -/
  | lparen : Lexeme .lparen ['(']
  /-- A closing parenthesis. -/
  | rparen : Lexeme .rparen [')']
  /-- A colon. -/
  | colon : Lexeme .colon [':']
  /-- An integer: an optional sign, digits without needless zeros and an optional mark. -/
  | integer (n : Numeral) : Lexeme .integer n.chars
  /-- An operator. -/
  | operator {op : String} (h : op ∈ operators) : Lexeme .operator op.toList
  /-- A word that selects a construct. -/
  | keyword {word : String} (h : word ∈ keywords) : Lexeme .keyword word.toList
  /-- A word that names a builtin type. -/
  | typeName {word : String} (h : word ∈ typeNames) : Lexeme .typeName word.toList
  /-- Any other word. -/
  | ident {text : List Char} (hword : IsWord text) (hkeyword : String.ofList text ∉ keywords)
      (htype : String.ofList text ∉ typeNames) : Lexeme .ident text

/-- The longest lexeme at the front of the text `cs`. -/
structure Munch (kind : TokenKind) (text cs : List Char) : Prop where
  /-- It is a lexeme of the kind. -/
  lexeme : Lexeme kind text
  /-- It stands at the front. -/
  atFront : text <+: cs
  /-- No lexeme of any kind that stands there is longer. -/
  longest : ∀ {other : TokenKind} {text' : List Char}, Lexeme other text' → text' <+: cs →
    text'.length ≤ text.length

/-- No lexeme stands at the front of the text. -/
def NoLexeme (cs : List Char) : Prop := ∀ {kind text}, Lexeme kind text → ¬ text <+: cs

/-! ## Words -/

lemma isWord_of_mem_keywords : ∀ word ∈ keywords, IsWord word.toList := by decide

lemma isWord_of_mem_typeNames : ∀ word ∈ typeNames, IsWord word.toList := by decide

/-- A word is a lexeme of the kind that the lists of reserved words give it. -/
lemma IsWord.lexeme {text : List Char} (h : IsWord text) :
    Lexeme (wordKind (String.ofList text)) text := by
  unfold wordKind
  by_cases hkeyword : keywords.contains (String.ofList text) = true
  · rw [if_pos hkeyword]
    simpa using Lexeme.keyword (List.contains_iff_mem.mp hkeyword)
  · rw [if_neg hkeyword]
    by_cases htype : typeNames.contains (String.ofList text) = true
    · rw [if_pos htype]
      simpa using Lexeme.typeName (List.contains_iff_mem.mp htype)
    · rw [if_neg htype]
      exact .ident h (mt List.contains_iff_mem.mpr hkeyword) (mt List.contains_iff_mem.mpr htype)

/-- The longest word at the front of a text. -/
lemma isWord_takeWhile {c : Char} (hstart : isWordStart c = true) (cs : List Char) :
    IsWord (c :: cs.takeWhile isWordChar) :=
  ⟨hstart, fun _ hd => List.mem_takeWhile_imp hd⟩

lemma IsWord.length_le {text cs : List Char} {c : Char} (h : IsWord text) (hfront : text <+: c :: cs) :
    text.length ≤ (c :: cs.takeWhile isWordChar).length := by
  cases text with
  | nil => cases h
  | cons d ds =>
    obtain ⟨rfl, rest, rfl⟩ := List.cons_prefix_cons.mp hfront
    rw [List.takeWhile_append_of_pos h.2]
    simp

lemma IsWord.isWordStart {text cs : List Char} {c : Char} (h : IsWord text)
    (hfront : text <+: c :: cs) : isWordStart c = true := by
  cases text with
  | nil => cases h
  | cons d ds =>
    obtain ⟨rfl, -⟩ := List.cons_prefix_cons.mp hfront
    exact h.1

/-! ## Integers -/

/-- The digits of an integer are all digits at the front of a text that belong to one literal,
or some of them. -/
lemma Numeral.length_le_digitCount (n : Numeral) (rest : List Char) :
    n.digits.length ≤ digitCount (n.digits ++ rest) ∧
      (rest.head? = some 'u' → digitCount (n.digits ++ rest) = n.digits.length) := by
  by_cases hzero : n.digits.head? = some '0'
  · rw [(n.leading hzero).1]
    exact ⟨Nat.le_refl 1, fun _ => rfl⟩
  · have hcount : digitCount (n.digits ++ rest) =
        (n.digits ++ rest.takeWhile Char.isDigit).length := by
      rw [← List.takeWhile_append_of_pos n.isDigit]
      obtain ⟨d, ds, hdigits⟩ := List.exists_cons_of_ne_nil n.nonempty
      rw [hdigits] at hzero ⊢
      unfold digitCount
      split
      · rename_i heq
        cases heq
        exact absurd rfl hzero
      · rfl
    rw [hcount, List.length_append]
    refine ⟨Nat.le_add_right _ _, fun hmark => ?_⟩
    cases rest with
    | nil => cases hmark
    | cons c cs =>
      cases hmark
      simp

lemma Numeral.length_le_magnitudeLength (n : Numeral) (rest : List Char) :
    (n.digits ++ if n.unsigned then ['u'] else []).length ≤
      magnitudeLength (n.digits ++ ((if n.unsigned then ['u'] else []) ++ rest)) := by
  have hcount := n.length_le_digitCount ((if n.unsigned then ['u'] else []) ++ rest)
  unfold magnitudeLength
  cases hunsigned : n.unsigned with
  | true =>
    simp only [hunsigned, if_true, List.singleton_append, List.head?_cons, forall_const] at hcount
    simp [hcount.2]
  | false =>
    simp only [hunsigned, Bool.false_eq_true, if_false, List.nil_append] at hcount ⊢
    simp only [List.append_nil]
    split <;> omega

/-- An integer at the front of a text is found, and nothing shorter is taken for it. -/
lemma Numeral.length_le {n : Numeral} {cs : List Char} (hfront : n.chars <+: cs) :
    ∃ length, integerLength? cs = some length ∧ n.chars.length ≤ length := by
  obtain ⟨rest, rfl⟩ := hfront
  have hle := n.length_le_magnitudeLength rest
  obtain ⟨d, ds, hdigits⟩ := List.exists_cons_of_ne_nil n.nonempty
  have hd : d.isDigit = true := n.isDigit d (by simp [hdigits])
  cases hnegative : n.negative with
  | true =>
    have hzero : d ≠ '0' := by
      rintro rfl
      have := (n.leading (by simp [hdigits])).2
      rw [hnegative] at this
      cases this
    refine ⟨_, ?_, Nat.add_le_add_left hle 1 |>.trans' ?_⟩
    · simp [chars, hnegative, hdigits, integerLength?, hd, hzero]
    · simp only [chars, hnegative, if_true, List.length_append, List.length_singleton]
      omega
  | false =>
    have hsign : d ≠ '-' := by
      rintro rfl
      exact absurd hd (by decide)
    refine ⟨_, ?_, hle.trans' ?_⟩
    · simp [chars, hnegative, hdigits, integerLength?, hd, hsign]
    · simp [chars, hnegative]

lemma Numeral.not_atFront {cs : List Char} (h : integerLength? cs = none) (n : Numeral) :
    ¬ n.chars <+: cs := by
  intro hfront
  obtain ⟨length, hsome, -⟩ := Numeral.length_le hfront
  rw [h] at hsome
  cases hsome

lemma digitCount_le (cs : List Char) : digitCount cs ≤ cs.length := by
  unfold digitCount
  split
  · simp
  · exact (List.takeWhile_prefix _).length_le

lemma magnitudeLength_le (cs : List Char) : magnitudeLength cs ≤ cs.length := by
  unfold magnitudeLength
  split
  · rename_i hdrop
    have hlength := congrArg List.length hdrop
    simp only [List.length_drop, List.length_cons] at hlength
    omega
  · exact digitCount_le cs

/-- An integer does not reach beyond the text. -/
lemma integerLength?_le {cs : List Char} {length : Nat} (h : integerLength? cs = some length) :
    length ≤ cs.length := by
  unfold integerLength? at h
  split at h
  · cases h
  · rename_i d cs
    split at h
    · cases h
      have := magnitudeLength_le (d :: cs)
      simp only [List.length_cons] at this ⊢
      omega
    · cases h
  · split at h
    · cases h
      exact magnitudeLength_le _
    · cases h

/-! ## Operators -/

/-- An operator is a prefix of no operator that comes after it. -/
lemma operators_ordered :
    operators.Pairwise fun first second => ¬ first.toList <+: second.toList := by decide

/-- The operator that is found at the front of a text is the longest one there. -/
lemma length_le_of_operatorLength? {cs : List Char} {length : Nat} {op : String}
    (h : operatorLength? cs = some length) (hop : op ∈ operators) (hfront : op.toList <+: cs) :
    op.toList.length ≤ length := by
  obtain ⟨found, hfound, rfl⟩ := Option.map_eq_some_iff.mp h
  obtain ⟨hsome, before, after, hsplit, hbefore⟩ := List.find?_eq_some_iff_append.mp hfound
  have hfoundFront : found.toList <+: cs := List.isPrefixOf_iff_prefix.mp hsome
  by_contra hlonger
  rw [Nat.not_le, ← String.length_toList] at hlonger
  have hinside : found.toList <+: op.toList :=
    List.prefix_of_prefix_length_le hfoundFront hfront hlonger.le
  -- the longer one would come before the one that is found, or after it
  have hordered := operators_ordered
  rw [hsplit, List.pairwise_append, List.pairwise_cons] at hordered
  rw [hsplit, List.mem_append, List.mem_cons] at hop
  rcases hop with hop | rfl | hop
  · have hnot := hbefore op hop
    rw [List.isPrefixOf_iff_prefix.mpr hfront] at hnot
    cases hnot
  · exact absurd hlonger (Nat.lt_irrefl _)
  · exact hordered.2.1.1 op hop hinside

lemma operator_not_atFront {cs : List Char} {op : String} (h : operatorLength? cs = none)
    (hop : op ∈ operators) : ¬ op.toList <+: cs := by
  have hall := List.find?_eq_none.mp (Option.map_eq_none_iff.mp h) op hop
  exact fun hfront => hall (List.isPrefixOf_iff_prefix.mpr hfront)

lemma operator_pos : ∀ op ∈ operators, 1 ≤ op.toList.length := by decide

/-! ## First characters -/

/-- A character that is no part of a lexeme: a blank, a line break or the start of a comment. -/
def isGap (c : Char) : Bool := c == '\n' || c == ' ' || c == '\t' || c == '\r' || c == ';'

/-- The codes of the characters that a word starts with. -/
lemma isWordStart_cases {c : Char} (h : isWordStart c = true) :
    (65 ≤ c.toNat ∧ c.toNat ≤ 90) ∨ (97 ≤ c.toNat ∧ c.toNat ≤ 122) ∨ c = '_' := by
  have hupper : c.isUpper = decide ('A'.val ≤ c.val ∧ c.val ≤ 'Z'.val) := rfl
  have hlower : c.isLower = (decide ('a'.val ≤ c.val) && decide (c.val ≤ 'z'.val)) := rfl
  have halpha : c.isAlpha = (c.isUpper || c.isLower) := rfl
  simp only [isWordStart, halpha, hupper, hlower, Bool.or_eq_true, Bool.and_eq_true,
    decide_eq_true_eq, beq_iff_eq, UInt32.le_iff_toNat_le] at h
  rcases h with (h | h) | h
  · exact .inl h
  · exact .inr (.inl h)
  · exact .inr (.inr h)

/-- The codes of digits. -/
lemma isDigit_cases {c : Char} (h : c.isDigit = true) : 48 ≤ c.toNat ∧ c.toNat ≤ 57 := by
  have hdigit : c.isDigit = (decide ('0'.val ≤ c.val) && decide (c.val ≤ '9'.val)) := rfl
  simp only [hdigit, Bool.and_eq_true, decide_eq_true_eq, UInt32.le_iff_toNat_le] at h
  exact h

/-- A word goes on with what it starts with, and with digits. -/
lemma isWordChar_iff {c : Char} : isWordChar c = true ↔ isWordStart c = true ∨ c.isDigit = true := by
  have halphanum : c.isAlphanum = (c.isAlpha || c.isDigit) := rfl
  simp only [isWordChar, isWordStart, halphanum, Bool.or_eq_true]
  tauto

/-- Lexemes are written in single-byte characters, none of which makes a gap. -/
def IsGraphic (c : Char) : Prop := c.toNat < 128 ∧ isGap c = false

instance : DecidablePred IsGraphic := fun _ => inferInstanceAs (Decidable (_ ∧ _))

lemma isGraphic_of_isWordChar {c : Char} (h : isWordChar c = true) : IsGraphic c := by
  have hcode : 48 ≤ c.toNat ∧ c.toNat ≤ 122 ∧ c.toNat ≠ 59 := by
    rcases isWordChar_iff.mp h with hstart | hdigit
    · rcases isWordStart_cases hstart with hupper | hlower | rfl
      · omega
      · omega
      · decide
    · have := isDigit_cases hdigit
      omega
  refine ⟨by omega, ?_⟩
  by_contra hgap
  simp only [isGap, Bool.not_eq_false, Bool.or_eq_true, beq_iff_eq] at hgap
  rcases hgap with (((rfl | rfl) | rfl) | rfl) | rfl <;> exact absurd hcode (by decide)

/-- A letter is neither a digit nor a sign. -/
lemma not_isDigit_of_isWordStart {c : Char} (h : isWordStart c = true) :
    c.isDigit = false ∧ c ≠ '-' ∧ punctuation? c = none := by
  refine ⟨?_, ?_, ?_⟩
  · by_contra hdigit
    have hcode := isDigit_cases (Bool.not_eq_false _ ▸ hdigit)
    rcases isWordStart_cases h with hupper | hlower | rfl
    · omega
    · omega
    · exact absurd hcode (by decide)
  · rintro rfl
    exact absurd h (by decide)
  · unfold punctuation?
    split <;> first | rfl | exact absurd h (by decide)

lemma operators_head : ∀ op ∈ operators, (op.toList.head?.all fun c =>
    !isGap c && !isWordStart c && !c.isDigit && (c != '-' || op.toList.length == 1)) = true := by
  decide

/-- What starts an operator starts no other lexeme, but for the sign. -/
lemma operator_first {op : String} {c : Char} {cs : List Char} (hop : op ∈ operators)
    (hfront : op.toList <+: c :: cs) :
    isGap c = false ∧ isWordStart c = false ∧ c.isDigit = false ∧
      (c = '-' → op.toList.length = 1) := by
  have hhead := operators_head op hop
  obtain ⟨d, ds, htext⟩ := List.exists_cons_of_length_pos (operator_pos op hop)
  rw [htext] at hfront hhead ⊢
  obtain ⟨rfl, -⟩ := List.cons_prefix_cons.mp hfront
  simp only [List.head?_cons, Option.all_some, Bool.and_eq_true, Bool.not_eq_true',
    Bool.or_eq_true, bne_iff_ne, beq_iff_eq] at hhead
  obtain ⟨⟨⟨hgap, hletter⟩, hdigit⟩, hsign⟩ := hhead
  exact ⟨hgap, hletter, hdigit, hsign.neg_resolve_left⟩

/-- The first character of an integer. -/
lemma integerLength?_head {c : Char} {cs : List Char} {length : Nat}
    (h : integerLength? (c :: cs) = some length) : c.isDigit = true ∨ c = '-' := by
  unfold integerLength? at h
  split at h
  · rename_i heq
    cases heq
  · rename_i heq
    cases heq
    exact .inr rfl
  · rename_i heq
    cases heq
    split at h
    · exact .inl ‹_›
    · cases h

/-! ## The look at the front of a text -/

/-- No lexeme is empty. -/
lemma Lexeme.length_pos {kind : TokenKind} {text : List Char} (h : Lexeme kind text) :
    1 ≤ text.length := by
  have hword : ∀ {word : List Char}, IsWord word → 1 ≤ word.length := by
    intro word hword
    cases word with
    | nil => cases hword
    | cons => simp
  cases h with
  | lparen | rparen | colon => exact Nat.le_refl 1
  | integer n =>
    have := List.length_pos_of_ne_nil n.nonempty
    simp only [Numeral.chars, List.length_append]
    omega
  | operator hop => exact operator_pos _ hop
  | keyword hmem => exact hword (isWord_of_mem_keywords _ hmem)
  | typeName hmem => exact hword (isWord_of_mem_typeNames _ hmem)
  | ident htext => exact hword htext

/-- The four kinds of lexemes, by the part of the look that finds them. -/
lemma Lexeme.cases_of_cons {kind : TokenKind} {c : Char} {text : List Char}
    (h : Lexeme kind (c :: text)) :
    (kind = .integer ∧ ∃ n : Numeral, n.chars = c :: text) ∨
      (kind = .operator ∧ ∃ op ∈ operators, op.toList = c :: text) ∨
      (punctuation? c = some kind ∧ text = []) ∨
      (kind = wordKind (String.ofList (c :: text)) ∧ IsWord (c :: text)) := by
  have hkeywords : ∀ word ∈ keywords, wordKind word = .keyword := by decide
  have htypeNames : ∀ word ∈ typeNames, wordKind word = .typeName := by decide
  generalize htext : c :: text = whole at h
  cases h with
  | lparen | rparen | colon =>
    cases htext
    exact .inr (.inr (.inl ⟨rfl, rfl⟩))
  | integer n => exact .inl ⟨rfl, n, rfl⟩
  | operator hop => exact .inr (.inl ⟨rfl, _, hop, rfl⟩)
  | keyword hmem =>
    refine .inr (.inr (.inr ⟨?_, isWord_of_mem_keywords _ hmem⟩))
    rw [String.ofList_toList, hkeywords _ hmem]
  | typeName hmem =>
    refine .inr (.inr (.inr ⟨?_, isWord_of_mem_typeNames _ hmem⟩))
    rw [String.ofList_toList, htypeNames _ hmem]
  | ident hword hkeyword htype =>
    refine .inr (.inr (.inr ⟨?_, hword⟩))
    simp [wordKind, hkeyword, htype]

/-- What it says that a piece stands at the front of the text `c :: cs`. -/
def Piece.StandsAt (c : Char) (cs : List Char) : Piece → Prop
  | newline => c = '\n'
  | blank => c = ' ' ∨ c = '\t' ∨ c = '\r'
  | comment length => c = ';' ∧ length = 1 + (cs.takeWhile (· != '\n')).length
  | lexeme kind length => isGap c = false ∧ ∃ text, Munch kind text (c :: cs) ∧ text.length = length
  | unknown => isGap c = false ∧ NoLexeme (c :: cs)

section Front

variable {c : Char} {cs : List Char} {length : Nat}

/-- A bound on lexemes at the front of a text, put together from bounds for each kind. -/
lemma Lexeme.length_le_of_kinds (hpos : 1 ≤ length)
    (hinteger : ∀ n : Numeral, n.chars <+: c :: cs → n.chars.length ≤ length)
    (hoperator : ∀ op ∈ operators, op.toList <+: c :: cs → op.toList.length ≤ length)
    (hword : ∀ word, IsWord word → word <+: c :: cs → word.length ≤ length)
    {kind : TokenKind} {text : List Char} (h : Lexeme kind text) (hfront : text <+: c :: cs) :
    text.length ≤ length := by
  cases text with
  | nil => exact Nat.zero_le _
  | cons d text =>
    rcases h.cases_of_cons with ⟨-, n, hn⟩ | ⟨-, op, hop, htext⟩ | ⟨-, rfl⟩ | ⟨-, htext⟩
    · exact hn ▸ hinteger n (hn ▸ hfront)
    · exact htext ▸ hoperator op hop (htext ▸ hfront)
    · exact hpos
    · exact hword _ htext hfront

/-- If an integer is found, it is the longest lexeme. -/
lemma munch_integer (h : integerLength? (c :: cs) = some length) :
    ∃ text, Munch .integer text (c :: cs) ∧ text.length = length := by
  obtain ⟨n, hn⟩ := integerLength?_numeral h
  have hlength : n.chars.length = length := by
    rw [← hn, List.length_take, Nat.min_eq_left (integerLength?_le h)]
  have hpos : 1 ≤ length := hlength ▸ (Lexeme.integer n).length_pos
  have hhead := integerLength?_head h
  refine ⟨n.chars, ⟨.integer n, hn ▸ List.take_prefix _ _, ?_⟩, hlength⟩
  rw [hlength]
  refine Lexeme.length_le_of_kinds hpos ?integer ?operator ?word
  case integer =>
    intro m hfront
    obtain ⟨found, hfound, hle⟩ := Numeral.length_le hfront
    rwa [Option.some.inj (h.symm.trans hfound)]
  case operator =>
    intro op hop hfront
    have hfirst := operator_first hop hfront
    rcases hhead with hdigit | hsign
    · exact absurd hdigit (by simp [hfirst.2.2.1])
    · exact (hfirst.2.2.2 hsign).trans_le hpos
  case word =>
    intro word hword hfront
    have hletter := not_isDigit_of_isWordStart (hword.isWordStart hfront)
    rcases hhead with hdigit | hsign
    · exact absurd hdigit (by simp [hletter.1])
    · exact absurd hsign hletter.2.1

/-- If an operator is found, and no integer, it is the longest lexeme. -/
lemma munch_operator (hinteger : integerLength? (c :: cs) = none)
    (h : operatorLength? (c :: cs) = some length) :
    ∃ text, Munch .operator text (c :: cs) ∧ text.length = length := by
  obtain ⟨op, hfound, hlength⟩ := Option.map_eq_some_iff.mp h
  rw [← String.length_toList] at hlength
  have hop := List.mem_of_find?_eq_some hfound
  have hopFront : op.toList <+: c :: cs :=
    List.isPrefixOf_iff_prefix.mp (by simpa using List.find?_some hfound)
  refine ⟨op.toList, ⟨.operator hop, hopFront, ?_⟩, hlength⟩
  rw [hlength]
  refine Lexeme.length_le_of_kinds (hlength ▸ operator_pos op hop) ?integer ?operator ?word
  case integer => exact fun n hfront => absurd hfront (n.not_atFront hinteger)
  case operator => exact fun other hother => length_le_of_operatorLength? h hother
  case word =>
    intro word hword hfront
    exact absurd (hword.isWordStart hfront) (by simp [(operator_first hop hopFront).2.1])

/-- If a parenthesis or a colon is found, and none of the former, it is the longest lexeme. -/
lemma munch_punctuation {kind : TokenKind} (hinteger : integerLength? (c :: cs) = none)
    (hoperator : operatorLength? (c :: cs) = none) (h : punctuation? c = some kind) :
    Munch kind [c] (c :: cs) := by
  have hlexeme : Lexeme kind [c] := by
    unfold punctuation? at h
    split at h
    · cases h
      exact .lparen
    · cases h
      exact .rparen
    · cases h
      exact .colon
    · cases h
  refine ⟨hlexeme, ⟨cs, rfl⟩, ?_⟩
  refine Lexeme.length_le_of_kinds (Nat.le_refl 1) ?integer ?operator ?word
  case integer => exact fun n hfront => absurd hfront (n.not_atFront hinteger)
  case operator => exact fun op hop hfront => absurd hfront (operator_not_atFront hoperator hop)
  case word =>
    intro word hword hfront
    have hletter := not_isDigit_of_isWordStart (hword.isWordStart hfront)
    rw [hletter.2.2] at h
    cases h

/-- If a letter is found, its word is the longest lexeme. -/
lemma munch_word (h : isWordStart c = true) :
    Munch (wordKind (String.ofList (c :: cs.takeWhile isWordChar)))
      (c :: cs.takeWhile isWordChar) (c :: cs) := by
  have hletter := not_isDigit_of_isWordStart h
  refine ⟨(isWord_takeWhile h cs).lexeme,
    List.cons_prefix_cons.mpr ⟨rfl, List.takeWhile_prefix _⟩, ?_⟩
  refine Lexeme.length_le_of_kinds (Nat.le_add_left 1 _) ?integer ?operator ?word
  case integer =>
    intro n hfront
    obtain ⟨length, hsome, -⟩ := Numeral.length_le hfront
    rcases integerLength?_head hsome with hdigit | hsign
    · exact absurd hdigit (by simp [hletter.1])
    · exact absurd hsign hletter.2.1
  case operator =>
    intro op hop hfront
    exact absurd h (by simp [(operator_first hop hfront).2.1])
  case word => exact fun word hword hfront => hword.length_le hfront

/-- If nothing of all this is found, there is no lexeme. -/
lemma noLexeme (hinteger : integerLength? (c :: cs) = none)
    (hoperator : operatorLength? (c :: cs) = none) (hpunctuation : punctuation? c = none)
    (hletter : isWordStart c = false) : NoLexeme (c :: cs) := by
  intro kind text h hfront
  cases text with
  | nil => exact absurd h.length_pos (by decide)
  | cons d text =>
    obtain ⟨rfl, -⟩ := List.cons_prefix_cons.mp hfront
    rcases h.cases_of_cons with ⟨-, n, hn⟩ | ⟨-, op, hop, htext⟩ | ⟨hsome, -⟩ | ⟨-, hword⟩
    · exact n.not_atFront hinteger (hn ▸ hfront)
    · exact operator_not_atFront hoperator hop (htext ▸ hfront)
    · rw [hpunctuation] at hsome
      cases hsome
    · rw [hword.1] at hletter
      cases hletter

/-- The look at the front of a text says what stands there. -/
theorem Piece.ofText_spec (c : Char) (cs : List Char) : (Piece.ofText c cs).StandsAt c cs := by
  unfold Piece.ofText
  split
  · rename_i hnewline
    exact beq_iff_eq.mp hnewline
  split
  · rename_i hblank
    simpa [Piece.StandsAt, or_assoc] using hblank
  split
  · rename_i hcomment
    exact ⟨beq_iff_eq.mp hcomment, rfl⟩
  have hgap : isGap c = false := by
    simp_all [isGap]
  cases hinteger : integerLength? (c :: cs) with
  | some length => exact ⟨hgap, munch_integer hinteger⟩
  | none =>
    cases hoperator : operatorLength? (c :: cs) with
    | some length => exact ⟨hgap, munch_operator hinteger hoperator⟩
    | none =>
      cases hpunctuation : punctuation? c with
      | some kind => exact ⟨hgap, [c], munch_punctuation hinteger hoperator hpunctuation, rfl⟩
      | none =>
        by_cases hletter : isWordStart c = true
        · simp only [hletter, if_true]
          exact ⟨hgap, _, munch_word hletter, rfl⟩
        · rw [Bool.not_eq_true] at hletter
          simp only [hletter, Bool.false_eq_true, if_false]
          exact ⟨hgap, noLexeme hinteger hoperator hpunctuation hletter⟩

end Front

/-! ## The characters of lexemes -/

lemma IsWord.isGraphic {word : List Char} (h : IsWord word) : ∀ c ∈ word, IsGraphic c := by
  cases word with
  | nil => cases h
  | cons c cs =>
    intro d hd
    rcases List.mem_cons.mp hd with rfl | hd
    · exact isGraphic_of_isWordChar (isWordChar_iff.mpr (.inl h.1))
    · exact isGraphic_of_isWordChar (h.2 d hd)

lemma operators_isGraphic :
    ∀ op ∈ operators, (op.toList.all fun c => decide (IsGraphic c)) = true := by decide

theorem Lexeme.isGraphic {kind : TokenKind} {text : List Char} (h : Lexeme kind text) :
    ∀ c ∈ text, IsGraphic c := by
  cases h with
  | lparen | rparen | colon =>
    intro c hc
    rw [List.mem_singleton.mp hc]
    decide
  | integer n =>
    intro c hc
    simp only [Numeral.chars, List.mem_append] at hc
    rcases hc with (hsign | hdigit) | hmark
    · have : c = '-' := by
        split at hsign <;> simp_all
      subst this
      decide
    · exact isGraphic_of_isWordChar (isWordChar_iff.mpr (.inr (n.isDigit c hdigit)))
    · have : c = 'u' := by
        split at hmark <;> simp_all
      subst this
      decide
  | operator hop =>
    exact fun c hc => of_decide_eq_true (List.all_eq_true.mp (operators_isGraphic _ hop) c hc)
  | keyword hmem => exact (isWord_of_mem_keywords _ hmem).isGraphic
  | typeName hmem => exact (isWord_of_mem_typeNames _ hmem).isGraphic
  | ident hword => exact hword.isGraphic

/-! ## One lexeme alone -/

section Alone

variable {c : Char} {cs : List Char}

lemma Piece.ofText_integer {length : Nat} (h : integerLength? (c :: cs) = some length) :
    Piece.ofText c cs = .lexeme .integer length := by
  have hgap : isGap c = false := by
    rcases integerLength?_head h with hdigit | rfl
    · exact (isGraphic_of_isWordChar (isWordChar_iff.mpr (.inr hdigit))).2
    · rfl
  simp only [isGap, Bool.or_eq_false_iff] at hgap
  simp [Piece.ofText, hgap, h]

lemma Piece.ofText_word (h : IsWord (c :: cs)) :
    Piece.ofText c cs = .lexeme (wordKind (String.ofList (c :: cs))) (c :: cs).length := by
  have hletter := not_isDigit_of_isWordStart h.1
  have hwhole : cs.takeWhile isWordChar = cs := List.takeWhile_eq_self_iff.mpr h.2
  have hinteger : integerLength? (c :: cs) = none := by
    cases hsome : integerLength? (c :: cs) with
    | none => rfl
    | some length =>
      rcases integerLength?_head hsome with hdigit | hsign
      · exact absurd hdigit (by simp [hletter.1])
      · exact absurd hsign hletter.2.1
  have hoperator : operatorLength? (c :: cs) = none := by
    refine Option.map_eq_none_iff.mpr (List.find?_eq_none.mpr fun op hop hfront => ?_)
    have hfirst := operator_first hop (List.isPrefixOf_iff_prefix.mp hfront)
    exact absurd h.1 (by simp [hfirst.2.1])
  have hgap := (isGraphic_of_isWordChar (isWordChar_iff.mpr (.inl h.1))).2
  simp only [isGap, Bool.or_eq_false_iff] at hgap
  simp only [Piece.ofText, hgap, hinteger, hoperator, hletter.2.2, h.1, hwhole,
    Bool.or_self, Bool.false_eq_true, if_false, if_true]

lemma operators_alone : ∀ op ∈ operators,
    op.toList.head?.map (Piece.ofText · op.toList.tail) =
      some (.lexeme .operator op.toList.length) := by decide

/-- The look sees the kind of a lexeme that stands alone. -/
lemma Lexeme.ofText_alone {kind : TokenKind} (h : Lexeme kind (c :: cs)) :
    ∃ length, Piece.ofText c cs = .lexeme kind length := by
  rcases h.cases_of_cons with ⟨rfl, n, hn⟩ | ⟨rfl, op, hop, htext⟩ | ⟨hsome, rfl⟩ | ⟨rfl, hword⟩
  · obtain ⟨length, hfound, -⟩ := Numeral.length_le (List.prefix_refl n.chars)
    exact ⟨length, Piece.ofText_integer (hn ▸ hfound)⟩
  · have halone := operators_alone op hop
    rw [htext] at halone
    exact ⟨_, Option.some.inj halone⟩
  · unfold punctuation? at hsome
    split at hsome
    · cases hsome
      exact ⟨1, by decide⟩
    · cases hsome
      exact ⟨1, by decide⟩
    · cases hsome
      exact ⟨1, by decide⟩
    · cases hsome
  · exact ⟨_, Piece.ofText_word hword⟩

end Alone

/-- A text is a lexeme of one kind only. -/
theorem Lexeme.kind_unique {kind other : TokenKind} {text : List Char} (h : Lexeme kind text)
    (h' : Lexeme other text) : kind = other := by
  cases text with
  | nil => exact absurd h.length_pos (by decide)
  | cons c cs =>
    obtain ⟨_, hkind⟩ := h.ofText_alone
    obtain ⟨_, hother⟩ := h'.ofText_alone
    exact (Piece.lexeme.inj (hkind.symm.trans hother)).1

/-- The longest lexeme at the front of a text is unique. -/
lemma Munch.unique {kind other : TokenKind} {text text' cs : List Char} (h : Munch kind text cs)
    (h' : Munch other text' cs) : kind = other ∧ text = text' := by
  have htext : text = text' := by
    have hlength := Nat.le_antisymm (h'.longest h.lexeme h.atFront) (h.longest h'.lexeme h'.atFront)
    rw [List.prefix_iff_eq_take.mp h.atFront, List.prefix_iff_eq_take.mp h'.atFront, hlength]
  exact ⟨h.lexeme.kind_unique (htext ▸ h'.lexeme), htext⟩

lemma Munch.isGap_head {kind : TokenKind} {text cs : List Char} {c : Char}
    (h : Munch kind text (c :: cs)) : isGap c = false := by
  obtain ⟨d, ds, rfl⟩ := List.exists_cons_of_length_pos h.lexeme.length_pos
  obtain ⟨rfl, -⟩ := List.cons_prefix_cons.mp h.atFront
  exact (h.lexeme.isGraphic d (by simp)).2

/-- The look at the front of a text finds the longest lexeme there. -/
theorem Munch.ofText {kind : TokenKind} {text cs : List Char} {c : Char}
    (h : Munch kind text (c :: cs)) : Piece.ofText c cs = .lexeme kind text.length := by
  have hgap := h.isGap_head
  have hspec := Piece.ofText_spec c cs
  cases hpiece : Piece.ofText c cs with
  | newline =>
    rw [hpiece] at hspec
    obtain rfl := hspec
    cases hgap
  | blank =>
    rw [hpiece] at hspec
    obtain rfl | rfl | rfl := hspec <;> cases hgap
  | comment length =>
    rw [hpiece] at hspec
    obtain ⟨rfl, -⟩ := hspec
    cases hgap
  | lexeme other length =>
    rw [hpiece] at hspec
    obtain ⟨-, text', hmunch, rfl⟩ := hspec
    obtain ⟨rfl, rfl⟩ := h.unique hmunch
    rfl
  | unknown =>
    rw [hpiece] at hspec
    exact absurd h.atFront (hspec.2 h.lexeme)

lemma munch_iff_ofText {kind : TokenKind} {text cs : List Char} {c : Char} :
    Munch kind text (c :: cs) ↔
      text <+: c :: cs ∧ Piece.ofText c cs = .lexeme kind text.length := by
  refine ⟨fun h => ⟨h.atFront, h.ofText⟩, fun ⟨hfront, hpiece⟩ => ?_⟩
  have hspec := Piece.ofText_spec c cs
  rw [hpiece] at hspec
  obtain ⟨-, text', hmunch, hlength⟩ := hspec
  obtain rfl : text' = text := by
    rw [List.prefix_iff_eq_take.mp hmunch.atFront, List.prefix_iff_eq_take.mp hfront, hlength]
  exact hmunch

/-- What the longest lexeme is can be looked up. -/
instance {kind : TokenKind} {text : List Char} : (cs : List Char) → Decidable (Munch kind text cs)
  | [] => isFalse fun h => by
    have := h.lexeme.length_pos
    rw [List.prefix_nil.mp h.atFront] at this
    exact absurd this (by decide)
  | _ :: _ => decidable_of_iff _ munch_iff_ofText.symm

end ParenC
