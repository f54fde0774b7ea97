/-
What lies ahead of a cursor.

Matching the parentheses of the tokens from a cursor on gives the data that follow up to the end of
the list around it, and what follows that list, from the inside outwards.  A step of the cursor
takes the first token away from there, so that where a cursor stands among the data determines its
next token, and the step where it stands then.  `Stands` says where that is.

A cursor only moves on, and it never passes an end marker; `Advances` says so of two points of a
stream.
-/
import ParenC.Proofs.Datum

namespace ParenC

namespace TokenStream

variable {s s₁ s₂ : TokenStream}

/-! ## Moving on -/

/-- The stream has an end marker ahead. -/
def Ended (s : TokenStream) : Prop := ∃ token ∈ s.toList, token.kind = .eof

/-- The second stream is the first one after some tokens, none of which is an end marker. -/
def Advances (s s' : TokenStream) : Prop :=
  ∃ passed : List Token, (∀ token ∈ passed, token.kind ≠ .eof) ∧ s.toList = passed ++ s'.toList

/-- The second stream is the first one after at least one token, and no end marker is passed. -/
def StrictlyAdvances (s s' : TokenStream) : Prop := s.Advances s' ∧ s'.later.length < s.later.length

lemma toList_injective (h : s₁.toList = s₂.toList) : s₁ = s₂ := by
  cases s₁
  cases s₂
  simpa [toList] using h

/-- A stream over tokens has an end marker. -/
lemma ofTokens_ended (tokens : List Token) : (ofTokens tokens).Ended := by
  cases tokens with
  | nil => exact ⟨_, List.mem_cons_self, rfl⟩
  | cons first rest =>
    by_cases hlast : (rest.getLastD first).kind = .eof
    · refine ⟨rest.getLastD first, ?_, hlast⟩
      simp only [ofTokens, hlast, if_true, toList]
      exact List.getLastD_mem_cons ..
    · refine ⟨Token.eof (rest.getLastD first).location, ?_, rfl⟩
      simp only [ofTokens, hlast, if_false, toList]
      simp

namespace Advances

lemma refl (s : TokenStream) : s.Advances s := ⟨[], by simp, rfl⟩

lemma trans (h₁ : s.Advances s₁) (h₂ : s₁.Advances s₂) : s.Advances s₂ := by
  obtain ⟨xs, hxs, htokens⟩ := h₁
  obtain ⟨ys, hys, htokens'⟩ := h₂
  refine ⟨xs ++ ys, ?_, by rw [htokens, htokens', List.append_assoc]⟩
  intro token htoken
  rcases List.mem_append.mp htoken with hmem | hmem
  · exact hxs token hmem
  · exact hys token hmem

/-- The end markers are all still ahead. -/
lemma ended (h : s.Advances s₁) (hended : s.Ended) : s₁.Ended := by
  obtain ⟨passed, hpassed, htokens⟩ := h
  obtain ⟨token, hmem, heof⟩ := hended
  rw [htokens] at hmem
  rcases List.mem_append.mp hmem with hmem | hmem
  · exact absurd heof (hpassed token hmem)
  · exact ⟨token, hmem, heof⟩

lemma length_le (h : s.Advances s₁) : s₁.later.length ≤ s.later.length := by
  obtain ⟨passed, -, htokens⟩ := h
  have hlength := congrArg List.length htokens
  simp only [toList, List.length_cons, List.length_append] at hlength
  omega

/-- Moving on is moving strictly, unless it is staying. -/
lemma strictly (h : s.Advances s₁) (hne : s₁ ≠ s) : s.StrictlyAdvances s₁ := by
  refine ⟨h, ?_⟩
  obtain ⟨passed, -, htokens⟩ := h
  have hlength := congrArg List.length htokens
  simp only [toList, List.length_cons, List.length_append] at hlength
  cases passed with
  | nil => exact absurd (toList_injective htokens).symm hne
  | cons token passed =>
    simp only [List.length_cons] at hlength
    omega

end Advances

lemma StrictlyAdvances.trans (h : s.StrictlyAdvances s₁) (h' : s₁.Advances s₂) :
    s.StrictlyAdvances s₂ := ⟨h.1.trans h', h'.length_le.trans_lt h.2⟩

/-- A step away from the end. -/
lemma toList_advance (hended : s.Ended) (h : s.next.kind ≠ .eof) :
    s.advance.toList = s.later := by
  obtain ⟨token, hmem, heof⟩ := hended
  obtain ⟨next, later⟩ := s
  cases later with
  | nil =>
    rw [List.mem_singleton.mp hmem] at heof
    exact absurd heof h
  | cons token later => simp [advance, toList, show next.kind ≠ .eof from h]

/-- A step at the end leads nowhere. -/
lemma advance_eof (h : s.next.kind = .eof) : s.advance = s := by simp [advance, h]

lemma advances_advance (hended : s.Ended) : s.Advances s.advance := by
  by_cases heof : s.next.kind = .eof
  · rw [advance_eof heof]
    exact .refl s
  · exact ⟨[s.next], by simpa using heof, by rw [toList_advance hended heof]; rfl⟩

lemma advance_ne (hended : s.Ended) (h : s.next.kind ≠ .eof) : s.advance ≠ s := by
  intro heq
  have hlater := toList_advance hended h
  rw [heq] at hlater
  exact List.cons_ne_self _ _ hlater

/-- The token after the next one is the next one after a step. -/
lemma peek_one (hended : s.Ended) (h : s.next.kind ≠ .eof) : s.peek 1 = s.advance.next := by
  have hlater := toList_advance hended h
  simp [peek, ← hlater, toList]

/-! ## The data ahead -/

/-- Everything that follows the cursor. -/
def nesting (s : TokenStream) : Nesting := .ofTokens s.eof s.body

lemma eof_kind (hended : s.Ended) : s.eof.kind = .eof := by
  obtain ⟨token, hmem, heof⟩ := hended
  cases hfind : s.toList.find? (·.kind == .eof) with
  | none => exact absurd heof (by simpa using List.find?_eq_none.mp hfind token hmem)
  | some found => simpa [eof, hfind] using List.find?_some hfind

lemma nesting_eof (h : s.next.kind = .eof) : s.nesting = ⟨⟨[], s.next⟩, []⟩ := by
  have hbody : s.body = [] := by simp [body, toList, h]
  have heof : s.eof = s.next := by simp [eof, toList, h]
  rw [nesting, hbody, heof]
  rfl

/-- What follows the cursor is its next token in front of what follows it after a step. -/
lemma nesting_advance (hended : s.Ended) (h : s.next.kind ≠ .eof) :
    s.nesting = match s.next.kind with
      | .lparen => s.advance.nesting.enter s.next
      | .rparen => s.advance.nesting.close s.next
      | _ => s.advance.nesting.cons (.atom s.next) := by
  have hlater := toList_advance hended h
  have hbody : s.body = s.next :: s.advance.body := by
    simp only [body, hlater]
    simp [toList, h]
  have heof : s.eof = s.advance.eof := by
    simp only [eof, hlater]
    simp [toList, h]
  rw [nesting, hbody, heof]
  rfl

/-- The data ahead of the cursor are `items`; the list around them is closed by `closing`, and
`outer` follows it. -/
structure Stands (s : TokenStream) (items : List Datum) (closing : Token)
    (outer : List Remainder) : Prop where
  /-- There is an end marker ahead. -/
  ended : s.Ended
  /-- The parentheses ahead are matched so. -/
  nesting_eq : s.nesting = ⟨⟨items, closing⟩, outer⟩

namespace Stands

variable {items rest : List Datum} {datum : Datum} {closing : Token} {outer : List Remainder}

/-- Every cursor stands somewhere among data. -/
lemma of_ended (hended : s.Ended) :
    s.Stands s.nesting.inner.items s.nesting.inner.closing s.nesting.outer := ⟨hended, rfl⟩

/-- So does one at an end marker: no data are left. -/
lemma of_isEof (h : s.isEof = true) : s.Stands [] s.next [] := by
  have heof : s.next.kind = .eof := by simpa [isEof] using h
  exact ⟨⟨s.next, List.mem_cons_self, heof⟩, nesting_eof heof⟩

/-- A cursor that stands at the end of a list has the closing token ahead. -/
lemma next_nil (h : s.Stands [] closing outer) :
    s.next = closing ∧ (closing.kind = .rparen ∨ closing.kind = .eof) := by
  have heq := h.nesting_eq
  by_cases heof : s.next.kind = .eof
  · rw [nesting_eof heof] at heq
    cases heq
    exact ⟨rfl, .inr heof⟩
  · rw [nesting_advance h.ended heof] at heq
    split at heq
    · unfold Nesting.enter at heq
      split at heq <;> cases heq
    · rename_i hkind
      cases heq
      exact ⟨rfl, .inl hkind⟩
    · cases heq

/-- Once it has passed the closing parenthesis, it stands after the list. -/
lemma leave {remainder : Remainder} (h : s.Stands [] closing (remainder :: outer)) :
    s.advance.Stands remainder.items remainder.closing outer := by
  have heq := h.nesting_eq
  by_cases heof : s.next.kind = .eof
  · rw [nesting_eof heof] at heq
    cases heq
  · refine ⟨(advances_advance h.ended).ended h.ended, ?_⟩
    rw [nesting_advance h.ended heof] at heq
    split at heq
    · unfold Nesting.enter at heq
      split at heq <;> cases heq
    · cases heq
      rfl
    · cases heq

/-- The next token of a cursor is the first token of the datum ahead. -/
lemma next_cons (h : s.Stands (datum :: rest) closing outer) :
    s.next = datum.first ∧ s.next.kind ≠ .rparen ∧ s.next.kind ≠ .eof := by
  have heq := h.nesting_eq
  by_cases heof : s.next.kind = .eof
  · rw [nesting_eof heof] at heq
    cases heq
  · rw [nesting_advance h.ended heof] at heq
    split at heq
    · rename_i hkind
      refine ⟨?_, by simp [hkind], heof⟩
      unfold Nesting.enter at heq
      split at heq <;>
      · cases heq
        rfl
    · cases heq
    · rename_i hkind
      cases heq
      exact ⟨rfl, hkind, heof⟩

/-- A cursor passes an atom in one step. -/
lemma atom {token : Token} (h : s.Stands (.atom token :: rest) closing outer) :
    token.kind ≠ .lparen ∧ s.advance.Stands rest closing outer := by
  have heq := h.nesting_eq
  have heof := h.next_cons.2.2
  rw [nesting_advance h.ended heof] at heq
  split at heq
  · unfold Nesting.enter at heq
    split at heq <;> cases heq
  · cases heq
  · rename_i hkind _
    cases heq
    exact ⟨hkind, (advances_advance h.ended).ended h.ended, rfl⟩

/-- A step at a list leads into it.  What follows its closing parenthesis, if it has one, is what
follows the list. -/
lemma list {opening close : Token}
    (h : s.Stands (.list opening items close :: rest) closing outer) :
    opening.kind = .lparen ∧ ∃ around, s.advance.Stands items close around ∧
      (close.kind = .rparen → around = ⟨rest, closing⟩ :: outer) := by
  have heq := h.nesting_eq
  have heof := h.next_cons.2.2
  have hended := (advances_advance h.ended).ended h.ended
  rw [nesting_advance h.ended heof] at heq
  split at heq
  · rename_i hkind
    have hends := Nesting.ofTokens_endsAt s.advance.eof s.advance.body
    rw [← nesting] at hends
    generalize hnesting : s.advance.nesting = nesting at heq hends
    obtain ⟨⟨inner, close'⟩, around⟩ := nesting
    cases around with
    | nil =>
      -- the list is never closed: the end marker is not a parenthesis
      cases heq
      refine ⟨hkind, [], ⟨hended, hnesting⟩, fun hclose => ?_⟩
      rw [show close' = s.advance.eof from hends, eof_kind hended] at hclose
      cases hclose
    | cons remainder around =>
      cases heq
      exact ⟨hkind, _, ⟨hended, hnesting⟩, fun _ => rfl⟩
  · cases heq
  · cases heq

end Stands

end TokenStream

end ParenC
