/-
Matching parentheses loses nothing.

The tokens of the data that come out are the tokens that went in, and a sequence of tokens in
which the parentheses match comes out as the data that one reads off it.  The first is used to
find the tokens of what was read, the second to find the data for a sequence that a grammar
derives.
-/
import ParenC.Datum
import ParenC.Proofs.Token

namespace ParenC

/-! ## The tokens of data -/

/-- The token that closes a list, if it is in the text. -/
def Token.closer (token : Token) : List Token := if token.kind = .eof then [] else [token]

namespace Datum

mutual

/-- The tokens that a datum is made of. -/
def tokens (datum : Datum) : List Token :=
  match datum with
  | atom token => [token]
  | list opening items closing => opening :: (tokensAll items ++ closing.closer)
termination_by structural datum

/-- The tokens of data, one after the other. -/
def tokensAll (data : List Datum) : List Token :=
  match data with
  | [] => []
  | datum :: rest => datum.tokens ++ tokensAll rest
termination_by structural data

end

@[simp] lemma tokens_atom (token : Token) : (atom token).tokens = [token] := rfl

@[simp] lemma tokensAll_nil : tokensAll [] = [] := rfl

@[simp] lemma tokensAll_cons (datum : Datum) (rest : List Datum) :
    tokensAll (datum :: rest) = datum.tokens ++ tokensAll rest := rfl

lemma tokensAll_append (xs ys : List Datum) :
    tokensAll (xs ++ ys) = tokensAll xs ++ tokensAll ys := by
  induction xs with
  | nil => rfl
  | cons datum rest ih => simp [ih]

lemma tokens_list {opening closing : Token} (items : List Datum) (h : closing.kind = .rparen) :
    (list opening items closing).tokens = opening :: (tokensAll items ++ [closing]) := by
  simp [tokens, Token.closer, h]

/-- Lists start with an opening parenthesis, and all tokens have texts that their kinds allow. -/
inductive Proper : Datum → Prop
  | atom {token : Token} (lexical : token.Lexical) : Proper (.atom token)
  | list {opening closing : Token} {items : List Datum} (isOpening : opening.kind = .lparen)
      (lexical : opening.Lexical) (closed : closing.Lexical)
      (inner : ∀ datum ∈ items, Proper datum) : Proper (.list opening items closing)

lemma Proper.lexical {token : Token} (h : (Datum.atom token).Proper) : token.Lexical := by
  cases h
  assumption

lemma Proper.inner {opening closing : Token} {items : List Datum}
    (h : (Datum.list opening items closing).Proper) : ∀ datum ∈ items, datum.Proper := by
  cases h
  assumption

end Datum

/-! ## From tokens to data and back -/

/-- The tokens from a point of a text to the end of the list around it. -/
def Remainder.tokens (remainder : Remainder) : List Token :=
  Datum.tokensAll remainder.items ++ remainder.closing.closer

namespace Nesting

/-- The tokens from a point of a text to its end. -/
def tokens (nesting : Nesting) : List Token :=
  nesting.inner.tokens ++ nesting.outer.flatMap Remainder.tokens

/-- Each list is closed by a parenthesis, up to the outermost one, which the end marker closes. -/
def EndsAt (eof : Token) : Remainder → List Remainder → Prop
  | inner, [] => inner.closing = eof
  | inner, next :: outer => inner.closing.kind = .rparen ∧ EndsAt eof next outer

variable {eof : Token}

lemma ofTokens_endsAt (eof : Token) (tokens : List Token) :
    EndsAt eof (ofTokens eof tokens).inner (ofTokens eof tokens).outer := by
  induction tokens with
  | nil => rfl
  | cons token rest ih =>
    -- what is put in front leaves the closing tokens alone
    have hcons : ∀ (datum : Datum) (inner : Remainder) (outer : List Remainder),
        EndsAt eof inner outer → EndsAt eof { inner with items := datum :: inner.items } outer := by
      intro datum inner outer h
      cases outer <;> exact h
    unfold ofTokens
    dsimp only
    generalize ofTokens eof rest = nesting at ih
    obtain ⟨inner, outer⟩ := nesting
    split
    · cases outer with
      | nil => exact ih
      | cons next outer => exact hcons _ next outer ih.2
    · rename_i hkind
      exact ⟨hkind, ih⟩
    · exact hcons _ inner outer ih

/-- The data have the tokens that they were made of. -/
theorem ofTokens_tokens (heof : eof.kind = .eof) {tokens : List Token}
    (h : ∀ token ∈ tokens, token.kind ≠ .eof) : (ofTokens eof tokens).tokens = tokens := by
  induction tokens with
  | nil => simp [ofTokens, Nesting.tokens, Remainder.tokens, Token.closer, heof]
  | cons token rest ih =>
    have hrest := ih fun t ht => h t (by simp [ht])
    have hends := ofTokens_endsAt eof rest
    have htoken : token.kind ≠ .eof := h token (by simp)
    unfold ofTokens
    dsimp only
    generalize ofTokens eof rest = nesting at hrest hends
    obtain ⟨inner, outer⟩ := nesting
    simp only [Nesting.tokens, Remainder.tokens] at hrest
    split
    · cases outer with
      | nil =>
        -- the list was never closed: the end marker is not a token of the text
        have hclosing : inner.closing.closer = [] := by
          rw [show inner.closing = eof from hends]
          simp [Token.closer, heof]
        simp only [hclosing, List.append_nil, List.flatMap_nil] at hrest
        simp [enter, Nesting.tokens, Remainder.tokens, Datum.tokens, hclosing, hrest]
      | cons next outer =>
        simp only [enter, cons, Nesting.tokens, Remainder.tokens, Datum.tokensAll_cons,
          Datum.tokens]
        rw [← hrest]
        simp [Remainder.tokens]
    · rw [← hrest]
      simp [close, Nesting.tokens, Remainder.tokens, Token.closer, htoken]
    · rw [← hrest]
      simp [cons, Nesting.tokens, Remainder.tokens]

/-- If the top level goes on to the end of the text, the whole text is in its data. -/
lemma tokensAll_of_closing (heof : eof.kind = .eof) {tokens : List Token}
    (h : ∀ token ∈ tokens, token.kind ≠ .eof)
    (hclosing : (ofTokens eof tokens).inner.closing.kind = .eof) :
    Datum.tokensAll (ofTokens eof tokens).inner.items = tokens := by
  have htokens := ofTokens_tokens heof h
  have hends := ofTokens_endsAt eof tokens
  generalize ofTokens eof tokens = nesting at hclosing htokens hends
  obtain ⟨inner, outer⟩ := nesting
  simp only at hclosing
  -- only the outermost list is closed by the end marker
  cases outer with
  | nil => simpa [Nesting.tokens, Remainder.tokens, Token.closer, hclosing] using htokens
  | cons next outer =>
    have hkind : inner.closing.kind = .rparen := hends.1
    rw [hclosing] at hkind
    cases hkind

/-- Nothing but the text and its end marker goes into the data: what holds of single tokens, and
of lists between tokens if it holds of what is in them, holds of all data. -/
lemma ofTokens_all {closes : Token → Prop} {good : Datum → Prop} {tokens : List Token}
    (heof : closes eof) (htokens : ∀ token ∈ tokens, closes token ∧ good (.atom token))
    (hlist : ∀ opening ∈ tokens, opening.kind = .lparen → ∀ items closing, closes closing →
      (∀ datum ∈ items, good datum) → good (.list opening items closing)) :
    ∀ remainder ∈ (ofTokens eof tokens).inner :: (ofTokens eof tokens).outer,
      closes remainder.closing ∧ ∀ datum ∈ remainder.items, good datum := by
  induction tokens with
  | nil => simp [ofTokens, heof]
  | cons token rest ih =>
    have hrest := ih (fun t ht => htokens t (by simp [ht])) fun t ht => hlist t (by simp [ht])
    have htoken := htokens token (by simp)
    unfold ofTokens
    dsimp only
    generalize ofTokens eof rest = nesting at hrest
    obtain ⟨inner, outer⟩ := nesting
    have hinner := hrest inner (by simp)
    split
    · rename_i hkind
      -- the list that is closed inside goes to the rest around it
      have hentered : good (.list token inner.items inner.closing) :=
        hlist token (by simp) hkind _ _ hinner.1 hinner.2
      cases outer with
      | nil =>
        simp only [enter, List.mem_singleton, forall_eq]
        exact ⟨hinner.1, hentered⟩
      | cons next outer =>
        have hnext := hrest next (by simp)
        intro remainder hmem
        rcases List.mem_cons.mp hmem with rfl | hmem
        · refine ⟨hnext.1, fun datum hdatum => ?_⟩
          rcases List.mem_cons.mp hdatum with rfl | hdatum
          · exact hentered
          · exact hnext.2 datum hdatum
        · exact hrest remainder (List.mem_cons_of_mem _ (List.mem_cons_of_mem _ hmem))
    · intro remainder hmem
      rcases List.mem_cons.mp hmem with rfl | hmem
      · exact ⟨htoken.1, fun datum hdatum => nomatch hdatum⟩
      · exact hrest remainder hmem
    · intro remainder hmem
      rcases List.mem_cons.mp hmem with rfl | hmem
      · refine ⟨hinner.1, fun datum hdatum => ?_⟩
        rcases List.mem_cons.mp hdatum with rfl | hdatum
        · exact htoken.2
        · exact hinner.2 datum hdatum
      · exact hrest remainder (List.mem_cons_of_mem _ hmem)

/-- Texts that the kinds of tokens allow are kept. -/
lemma ofTokens_proper (heof : eof.Lexical) {tokens : List Token}
    (h : ∀ token ∈ tokens, token.Lexical) :
    ∀ remainder ∈ (ofTokens eof tokens).inner :: (ofTokens eof tokens).outer,
      remainder.closing.Lexical ∧ ∀ datum ∈ remainder.items, datum.Proper :=
  ofTokens_all heof (fun token htoken => ⟨h token htoken, .atom (h token htoken)⟩)
    fun opening hopening hkind _ _ hclosing hitems =>
      .list hkind (h opening hopening) hclosing hitems

/-! ## Sequences in which the parentheses match -/

/-- Put data in front. -/
def prepend (data : List Datum) (nesting : Nesting) : Nesting :=
  { nesting with inner := { nesting.inner with items := data ++ nesting.inner.items } }

/-- Whatever follows them, the tokens become the data. -/
def Nests (eof : Token) (tokens : List Token) (data : List Datum) : Prop :=
  ∀ rest, ofTokens eof (tokens ++ rest) = (ofTokens eof rest).prepend data

namespace Nests

variable {xs ys : List Token} {data others : List Datum}

lemma nil : Nests eof [] [] := fun _ => rfl

lemma atom {token : Token} (hopening : token.kind ≠ .lparen) (hclosing : token.kind ≠ .rparen) :
    Nests eof [token] [.atom token] := by
  intro rest
  cases hkind : token.kind with
  | lparen => exact absurd hkind hopening
  | rparen => exact absurd hkind hclosing
  | _ => simp [ofTokens, hkind, Nesting.cons, prepend]

lemma append (h₁ : Nests eof xs data) (h₂ : Nests eof ys others) :
    Nests eof (xs ++ ys) (data ++ others) := by
  intro rest
  rw [List.append_assoc, h₁, h₂]
  simp [prepend]

lemma list {opening closing : Token} (hopening : opening.kind = .lparen)
    (hclosing : closing.kind = .rparen) (h : Nests eof xs data) :
    Nests eof (opening :: (xs ++ [closing])) [.list opening data closing] := by
  intro rest
  have hclose : ofTokens eof (closing :: rest) = (ofTokens eof rest).close closing := by
    simp [ofTokens, hclosing]
  calc ofTokens eof (opening :: (xs ++ [closing]) ++ rest)
      = (ofTokens eof (xs ++ closing :: rest)).enter opening := by simp [ofTokens, hopening]
    _ = (((ofTokens eof rest).close closing).prepend data).enter opening := by rw [h, hclose]
    _ = (ofTokens eof rest).prepend [.list opening data closing] := by
        simp [close, prepend, enter, Nesting.cons]

/-- A whole text. -/
lemma inner_eq (h : Nests eof xs data) : (ofTokens eof xs).inner = ⟨data, eof⟩ := by
  have := h []
  rw [List.append_nil] at this
  rw [this]
  simp [prepend, ofTokens]

end Nests

end Nesting

/-! ## Streams -/

/-- The top level of a text that was cut into tokens. -/
lemma Remainder.ofStream_eq {body : List Token} (h : ∀ token ∈ body, token.kind ≠ .eof)
    (loc : Location) :
    Remainder.ofStream (.ofTokens (body ++ [Token.eof loc])) =
      (Nesting.ofTokens (Token.eof loc) body).inner := by
  have hlist : (TokenStream.ofTokens (body ++ [Token.eof loc])).toList =
      body ++ [Token.eof loc] := by
    cases body with
    | nil => rfl
    | cons first rest =>
      simp [TokenStream.ofTokens, TokenStream.toList, List.getLastD_eq_getLast?, Token.eof]
  have hbody : (TokenStream.ofTokens (body ++ [Token.eof loc])).body = body := by
    rw [TokenStream.body, hlist]
    exact takeWhile_body h loc
  have heof : (TokenStream.ofTokens (body ++ [Token.eof loc])).eof = Token.eof loc := by
    have hnone : body.find? (·.kind == .eof) = none := by
      rw [List.find?_eq_none]
      intro token htoken
      simpa using h token htoken
    rw [TokenStream.eof, hlist, List.find?_append, hnone]
    rfl
  rw [Remainder.ofStream, hbody, heof]

end ParenC
