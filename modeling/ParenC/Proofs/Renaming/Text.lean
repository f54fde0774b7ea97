/-
Texts with other names.

Names are the texts of one kind of token, and `rename` replaces them in tokens, in data and in
nested lists.  Matching parentheses does not look at names.

The names of functions are the ones that follow the keyword of a definition or of an external
declaration, at the front of a list.  They can be told from the tokens of a text, and a map that
keeps them keeps the names of the functions in its data.
-/
import ParenC.Proofs.Datum

namespace ParenC

variable {f : String → String}

/-! ## Tokens -/

namespace Token

/-- The token with another name, if it is a name. -/
def rename (f : String → String) (token : Token) : Token :=
  { token with text := if token.kind = .ident then f token.text else token.text }

/-- The token with another text. -/
def respell (f : String → String) (token : Token) : Token := { token with text := f token.text }

lemma rename_kind (token : Token) : (token.rename f).kind = token.kind := rfl

lemma rename_of_ident {token : Token} (h : token.kind = .ident) :
    token.rename f = token.respell f := by
  rw [rename, if_pos h, respell]

lemma rename_of_ne {token : Token} (h : token.kind ≠ .ident) : token.rename f = token := by
  rw [rename, if_neg h]

/-- Keywords are no names. -/
lemma rename_is_keyword (token : Token) (text : String) :
    (token.rename f).is .keyword text = token.is .keyword text := by
  by_cases h : token.kind = .ident
  · simp only [is, rename_kind, h]
    rfl
  · rw [rename_of_ne h]

/-- The token is the keyword of a list that declares a function. -/
def declaresFunction (token : Token) : Bool :=
  token.is .keyword "defun" || token.is .keyword "exfun"

/-- Names with types, under other names. -/
def respellBound (f : String → String) (bound : List (Token × TypeId)) : List (Token × TypeId) :=
  bound.map (Prod.map (respell f) id)

end Token

/-! ## Data -/

namespace Datum

mutual

/-- The datum with other names. -/
def rename (f : String → String) (datum : Datum) : Datum :=
  match datum with
  | atom token => atom (token.rename f)
  | list opening items closing =>
    list (opening.rename f) (renameAll f items) (closing.rename f)
termination_by structural datum

/-- Several data with other names. -/
def renameAll (f : String → String) (items : List Datum) : List Datum :=
  match items with
  | [] => []
  | datum :: rest => datum.rename f :: renameAll f rest
termination_by structural items

end

lemma rename_first (datum : Datum) : (datum.rename f).first = datum.first.rename f := by
  cases datum <;> rfl

/-- The data do not start with a name that is replaced by another one. -/
def KeepsName (f : String → String) : List Datum → Prop
  | atom name :: _ => name.kind = .ident → f name.text = name.text
  | _ => True

/-- What a list declares is no function, or the name of the function is kept. -/
def KeepsHead (f : String → String) : List Datum → Prop
  | atom head :: rest => head.declaresFunction = true → KeepsName f rest
  | _ => True

mutual

/-- The names of the functions in a datum are kept. -/
def Keeps (f : String → String) (datum : Datum) : Prop :=
  match datum with
  | atom _ => True
  | list _ items _ => KeepsHead f items ∧ KeepsAll f items
termination_by structural datum

/-- The names of the functions in several data are kept. -/
def KeepsAll (f : String → String) (items : List Datum) : Prop :=
  match items with
  | [] => True
  | datum :: rest => datum.Keeps f ∧ KeepsAll f rest
termination_by structural items

end

end Datum

/-! ## Texts -/

/-- The rest of a list with other names. -/
def Remainder.rename (f : String → String) (remainder : Remainder) : Remainder :=
  ⟨Datum.renameAll f remainder.items, remainder.closing.rename f⟩

namespace Nesting

/-- The rests of nested lists with other names. -/
def rename (f : String → String) (nesting : Nesting) : Nesting :=
  ⟨nesting.inner.rename f, nesting.outer.map (Remainder.rename f)⟩

/-- Parentheses are no names. -/
lemma ofTokens_rename (eof : Token) (tokens : List Token) :
    ofTokens (eof.rename f) (tokens.map (Token.rename f)) = (ofTokens eof tokens).rename f := by
  induction tokens with
  | nil => rfl
  | cons token rest ih =>
    simp only [List.map_cons, ofTokens, Token.rename_kind, ih]
    split
    · -- an opening parenthesis closes the innermost rest to a list
      rcases ofTokens eof rest with ⟨inner, _ | ⟨outer, others⟩⟩ <;> rfl
    · rfl
    · rfl

/-- The names of the functions in nested lists are kept. -/
def Keeps (f : String → String) (nesting : Nesting) : Prop :=
  Datum.KeepsAll f nesting.inner.items ∧
    ∀ remainder ∈ nesting.outer, Datum.KeepsAll f remainder.items

end Nesting

/-- The name of the function that a list declares which starts with the tokens. -/
def functionName? : List Token → Option String
  | head :: name :: _ =>
    if head.declaresFunction && name.kind == .ident then some name.text else none
  | _ => none

/-- The names of the functions that a text defines or declares as defined elsewhere. -/
def functionNames : List Token → List String
  | [] => []
  | token :: rest =>
    (if token.kind = .lparen then (functionName? rest).toList else []) ++ functionNames rest

lemma functionName?_append {tokens : List Token} {name : String}
    (h : functionName? tokens = some name) (others : List Token) :
    functionName? (tokens ++ others) = some name := by
  match tokens with
  | [] | [_] => cases h
  | _ :: _ :: _ => exact h

/-- More text has the same functions, and perhaps others. -/
lemma functionNames_subset_append (tokens others : List Token) :
    functionNames tokens ⊆ functionNames (tokens ++ others) := by
  induction tokens with
  | nil => exact List.nil_subset _
  | cons token rest ih =>
    intro name hname
    rw [functionNames, List.mem_append] at hname
    rw [List.cons_append, functionNames, List.mem_append]
    rcases hname with hhere | hlater
    · left
      split at hhere
      · rename_i hopening
        rw [if_pos hopening]
        rw [Option.mem_toList] at hhere ⊢
        exact functionName?_append hhere others
      · cases hhere
    · exact Or.inr (ih hlater)

namespace Nesting

variable {eof : Token} {tokens : List Token}

/-- What the data start with is what the tokens start with. -/
lemma keepsName_ofTokens (h : ∀ token rest, tokens = token :: rest → token.kind = .ident →
    f token.text = token.text) : Datum.KeepsName f (ofTokens eof tokens).inner.items := by
  cases tokens with
  | nil => trivial
  | cons token rest =>
    rw [ofTokens]
    split
    · rcases ofTokens eof rest with ⟨inner, _ | ⟨outer, others⟩⟩ <;> trivial
    · trivial
    · exact h token rest rfl

lemma keepsHead_ofTokens (h : ∀ name ∈ functionName? tokens, f name = name) :
    Datum.KeepsHead f (ofTokens eof tokens).inner.items := by
  cases tokens with
  | nil => trivial
  | cons head rest =>
    rw [ofTokens]
    split
    · rcases ofTokens eof rest with ⟨inner, _ | ⟨outer, others⟩⟩ <;> trivial
    · trivial
    · intro hdeclares
      refine keepsName_ofTokens ?_
      rintro name others rfl hkind
      exact h name.text (by simp [functionName?, hdeclares, hkind])

/-- If the names of the functions in a text are kept, so are they in its data. -/
theorem ofTokens_keeps (h : ∀ name ∈ functionNames tokens, f name = name) :
    (ofTokens eof tokens).Keeps f := by
  induction tokens with
  | nil => exact ⟨trivial, by simp [ofTokens]⟩
  | cons token rest ih =>
    have hrest := ih fun name hname => h name (List.mem_append_right _ hname)
    have hhead : token.kind = .lparen → Datum.KeepsHead f (ofTokens eof rest).inner.items := by
      intro hopening
      refine keepsHead_ofTokens fun name hname => h name ?_
      rw [functionNames, if_pos hopening]
      exact List.mem_append_left _ (Option.mem_toList.mpr hname)
    rw [ofTokens]
    split
    · have hkeeps := hhead ‹_›
      generalize ofTokens eof rest = nesting at hkeeps hrest
      obtain ⟨inner, _ | ⟨outer, others⟩⟩ := nesting
      · exact ⟨⟨⟨hkeeps, hrest.1⟩, trivial⟩, by simp [enter]⟩
      · exact ⟨⟨⟨hkeeps, hrest.1⟩, hrest.2 outer (by simp)⟩,
          fun remainder hremainder => hrest.2 remainder (by simp_all [enter, cons])⟩
    · exact ⟨trivial, by simpa [close, Keeps] using hrest⟩
    · exact ⟨⟨trivial, hrest.1⟩, hrest.2⟩

end Nesting

/-! ## Names of a text -/

/-- The names in a text, each as often as it is there. -/
def identifiers (tokens : List Token) : List String :=
  (tokens.filter (·.kind = .ident)).map Token.text

lemma mem_identifiers {tokens : List Token} {name : String} :
    name ∈ identifiers tokens ↔ ∃ token ∈ tokens, token.kind = .ident ∧ token.text = name := by
  simp [identifiers, and_assoc]

/-- Only what becomes of the names in a text matters. -/
lemma rename_congr {g : String → String} {tokens : List Token}
    (h : ∀ name ∈ identifiers tokens, g name = f name) :
    tokens.map (Token.rename g) = tokens.map (Token.rename f) := by
  refine List.map_congr_left fun token htoken => ?_
  by_cases hident : token.kind = .ident
  · have hname := h token.text (mem_identifiers.mpr ⟨token, htoken, hident, rfl⟩)
    rw [Token.rename_of_ident hident, Token.rename_of_ident hident, Token.respell, Token.respell,
      hname]
  · rw [Token.rename_of_ne hident, Token.rename_of_ne hident]

lemma functionName?_mem {tokens : List Token} {name : String}
    (h : functionName? tokens = some name) : name ∈ identifiers tokens := by
  match tokens with
  | [] | [_] => cases h
  | head :: second :: rest =>
    simp only [functionName?, Option.ite_none_right_eq_some, Bool.and_eq_true, beq_iff_eq,
      Option.some.injEq] at h
    exact mem_identifiers.mpr ⟨second, by simp, h.1.2, h.2⟩

/-- The names of functions are names of the text. -/
lemma functionNames_subset (tokens : List Token) : functionNames tokens ⊆ identifiers tokens := by
  induction tokens with
  | nil => exact List.nil_subset _
  | cons token rest ih =>
    have hrest : identifiers rest ⊆ identifiers (token :: rest) := by
      intro name hname
      obtain ⟨other, hmem, hother⟩ := mem_identifiers.mp hname
      exact mem_identifiers.mpr ⟨other, List.mem_cons_of_mem _ hmem, hother⟩
    intro name hname
    rw [functionNames, List.mem_append] at hname
    rcases hname with hhere | hlater
    · split at hhere
      · exact hrest (functionName?_mem (Option.mem_toList.mp hhere))
      · cases hhere
    · exact hrest (ih hlater)

end ParenC
