/-
The grammar of programs.

`Derives` is the grammar as one writes it down, over sequences of tokens.  The same grammar over
data, whose parentheses are matched already, follows the recursion of the reader.  The two agree:
what the data grammar accepts has tokens that the grammar derives, and tokens that the grammar
derives become data that the data grammar accepts.
-/
import ParenC.Proofs.Datum
import ParenC.Reading.Form

namespace ParenC

/-! ## Sequences of tokens -/

/-- The nonterminals of the grammar. -/
inductive Phrase
  /-- Any number of lists. -/
  | lists
  /-- A list. -/
  | list
  /-- What stands between the parentheses of a list. -/
  | body
  /-- The branches of a condition: lists that are no alternative, and perhaps an alternative. -/
  | branches
  /-- Any number of items. -/
  | items
  /-- A list, a literal or a name. -/
  | item
  /-- A type. -/
  | type
  /-- Any number of names with their types. -/
  | bindings

/-- The sequences of tokens that belong to a nonterminal. -/
inductive Derives : Phrase → List Token → Prop
  | noLists : Derives .lists []
  | lists {xs ys : List Token} (first : Derives .list xs) (rest : Derives .lists ys) :
      Derives .lists (xs ++ ys)
  | list {opening closing : Token} {xs : List Token} (isOpening : opening.kind = .lparen)
      (body : Derives .body xs) (isClosing : closing.kind = .rparen) :
      Derives .list (opening :: (xs ++ [closing]))
  | empty : Derives .body []
  | block {xs ys : List Token} (first : Derives .list xs) (rest : Derives .lists ys) :
      Derives .body (xs ++ ys)
  | operation {head : Token} {xs : List Token} (isOperator : head.kind = .operator)
      (operands : Derives .items xs) : Derives .body (head :: xs)
  | application {head : Token} {xs : List Token} (isName : head.kind = .ident)
      (operands : Derives .items xs) : Derives .body (head :: xs)
  | cast {head : Token} {xs : List Token} (isType : head.kind = .typeName)
      (operands : Derives .items xs) : Derives .body (head :: xs)
  | variableDecl {head name : Token} {xs : List Token} (isLet : head.is .keyword "let" = true)
      (type : Derives .type xs) (isName : name.kind = .ident) :
      Derives .body (head :: (xs ++ [name]))
  | definition {head name : Token} {xs : List Token} (isTypedef : head.is .keyword "typedef" = true)
      (isName : name.kind = .ident) (type : Derives .type xs) : Derives .body (head :: name :: xs)
  | external {head name : Token} (isExfun : head.is .keyword "exfun" = true)
      (isName : name.kind = .ident) : Derives .body [head, name]
  | prototype {head name opening closing : Token} {xs ys : List Token}
      (isExfun : head.is .keyword "exfun" = true) (isName : name.kind = .ident)
      (isOpening : opening.kind = .lparen) (params : Derives .bindings xs)
      (isClosing : closing.kind = .rparen) (result : Derives .type ys) :
      Derives .body (head :: name :: opening :: (xs ++ closing :: ys))
  | function {head name opening closing : Token} {xs ys zs : List Token}
      (isDefun : head.is .keyword "defun" = true) (isName : name.kind = .ident)
      (isOpening : opening.kind = .lparen) (params : Derives .bindings xs)
      (isClosing : closing.kind = .rparen) (result : Derives .type ys)
      (body : Derives .lists zs) :
      Derives .body (head :: name :: opening :: (xs ++ closing :: (ys ++ zs)))
  | conditional {head : Token} {xs ys : List Token} (isIf : head.is .keyword "if" = true)
      (cond : Derives .item xs) (branches : Derives .branches ys) :
      Derives .body (head :: (xs ++ ys))
  | alternative {head : Token} {xs : List Token} (isElse : head.is .keyword "else" = true)
      (body : Derives .lists xs) : Derives .body (head :: xs)
  | whileLoop {head : Token} {xs ys : List Token} (isWhile : head.is .keyword "while" = true)
      (cond : Derives .item xs) (body : Derives .lists ys) : Derives .body (head :: (xs ++ ys))
  | forLoop {head : Token} {xs ys zs us : List Token} (isFor : head.is .keyword "for" = true)
      (init : Derives .item xs) (cond : Derives .item ys) (step : Derives .item zs)
      (body : Derives .lists us) : Derives .body (head :: (xs ++ (ys ++ (zs ++ us))))
  | returnVoid {head : Token} (isReturn : head.is .keyword "return" = true) : Derives .body [head]
  | returnValue {head : Token} {xs : List Token} (isReturn : head.is .keyword "return" = true)
      (value : Derives .item xs) : Derives .body (head :: xs)
  | noBranches : Derives .branches []
  | nonelse {opening closing : Token} {xs ys : List Token} (isOpening : opening.kind = .lparen)
      (body : Derives .body xs) (isOther : ∀ head ∈ xs.head?, head.is .keyword "else" = false)
      (isClosing : closing.kind = .rparen) (rest : Derives .branches ys) :
      Derives .branches (opening :: (xs ++ closing :: ys))
  | otherwise {opening head closing : Token} {xs : List Token} (isOpening : opening.kind = .lparen)
      (isElse : head.is .keyword "else" = true) (body : Derives .lists xs)
      (isClosing : closing.kind = .rparen) : Derives .branches (opening :: head :: (xs ++ [closing]))
  | noItems : Derives .items []
  | items {xs ys : List Token} (first : Derives .item xs) (rest : Derives .items ys) :
      Derives .items (xs ++ ys)
  | listItem {xs : List Token} (list : Derives .list xs) : Derives .item xs
  | integer {token : Token} {n : Numeral} (isInteger : token.kind = .integer)
      (text : token.text = n.text) (inRange : n.InRange) : Derives .item [token]
  | yes {token : Token} (isTrue : token.is .keyword "true" = true) : Derives .item [token]
  | no {token : Token} (isFalse : token.is .keyword "false" = true) : Derives .item [token]
  | name {token : Token} (isName : token.kind = .ident) : Derives .item [token]
  | builtinType {token : Token} (isType : token.kind = .typeName) : Derives .type [token]
  | namedType {token : Token} (isName : token.kind = .ident) : Derives .type [token]
  | struct {opening head closing : Token} {xs : List Token} (isOpening : opening.kind = .lparen)
      (isStruct : head.is .keyword "struct" = true) (fields : Derives .bindings xs)
      (isClosing : closing.kind = .rparen) : Derives .type (opening :: head :: (xs ++ [closing]))
  | noBindings : Derives .bindings []
  | bindings {name colon : Token} {xs ys : List Token} (isName : name.kind = .ident)
      (isColon : colon.kind = .colon) (type : Derives .type xs) (rest : Derives .bindings ys) :
      Derives .bindings (name :: colon :: (xs ++ ys))

/-! ## Keywords -/

namespace Reading

/-- The keyword that selects a construct. -/
def Construct.keyword : Construct → String
  | binding => "let"
  | external => "exfun"
  | function => "defun"
  | conditional => "if"
  | alternative => "else"
  | whileLoop => "while"
  | forLoop => "for"
  | definition => "typedef"
  | result => "return"

lemma Construct.ofKeyword?_eq_some {text : String} {construct : Construct} :
    Construct.ofKeyword? text = some construct ↔ text = construct.keyword := by
  constructor
  · intro h
    simp only [ofKeyword?, List.lookup_cons] at h
    repeat' split at h
    all_goals first
      | cases h; rename_i heq; exact LawfulBEq.eq_of_beq heq
      | simp at h
  · rintro rfl
    cases construct <;> decide

end Reading

open Reading

lemma Token.is_iff {token : Token} {kind : TokenKind} {text : String} :
    token.is kind text = true ↔ token.kind = kind ∧ token.text = text := by
  simp [Token.is]

/-! ## Data -/

/-- The token is a literal or a name. -/
def Token.IsValue (token : Token) : Prop :=
  (token.kind = .integer ∧ ∃ n : Numeral, token.text = n.text ∧ n.InRange) ∨
    token.is .keyword "true" = true ∨ token.is .keyword "false" = true ∨ token.kind = .ident

namespace Datum

/-- The datum is a token of the given kind. -/
def IsToken (kind : TokenKind) (datum : Datum) : Prop := ∃ token, datum = atom token ∧ token.kind = kind

mutual

/-- The datum is a type. -/
def IsType (datum : Datum) : Prop :=
  match datum with
  | atom token => token.kind = .typeName ∨ token.kind = .ident
  | list opening items closing =>
    match items with
    | atom head :: rest => opening.kind = .lparen ∧ head.is .keyword "struct" = true ∧
        AreBindings rest ∧ closing.kind = .rparen
    | _ => False
termination_by structural datum

/-- The data are names with their types. -/
def AreBindings (data : List Datum) : Prop :=
  match data with
  | [] => True
  | name :: afterName =>
    match afterName with
    | [] => False
    | colon :: afterColon =>
      match afterColon with
      | [] => False
      | type :: rest => name.IsToken .ident ∧ colon.IsToken .colon ∧ IsType type ∧ AreBindings rest
termination_by structural data

end

/-- The datum is the list of the parameters of a function. -/
def IsParams : Datum → Prop
  | atom _ => False
  | list opening items closing =>
    opening.kind = .lparen ∧ AreBindings items ∧ closing.kind = .rparen

/-- The data declare a variable, after the keyword. -/
def IsVariable : List Datum → Prop
  | [type, name] => type.IsType ∧ name.IsToken .ident
  | _ => False

/-- The data declare a name for a type, after the keyword. -/
def IsDefinition : List Datum → Prop
  | [name, type] => name.IsToken .ident ∧ type.IsType
  | _ => False

/-- The data declare a function that is defined elsewhere, after the keyword. -/
def IsExternal : List Datum → Prop
  | [name] => name.IsToken .ident
  | [name, params, type] => name.IsToken .ident ∧ params.IsParams ∧ type.IsType
  | _ => False

mutual

/-- The datum is a list of the grammar. -/
def IsForm (datum : Datum) : Prop :=
  match datum with
  | atom _ => False
  | list opening items closing =>
    opening.kind = .lparen ∧ IsBody items ∧ closing.kind = .rparen
termination_by structural datum

/-- The datum is an item of the grammar. -/
def IsItem (datum : Datum) : Prop :=
  match datum with
  | atom token => token.IsValue
  | list opening items closing =>
    opening.kind = .lparen ∧ IsBody items ∧ closing.kind = .rparen
termination_by structural datum

/-- The data are what stands between the parentheses of a list. -/
def IsBody (data : List Datum) : Prop :=
  match data with
  | [] => True
  | first :: rest =>
    match first.atom? with
    | none => IsForm first ∧ AreForms rest
    | some head =>
      match head.kind with
      | .operator | .ident | .typeName => AreItems rest
      | .keyword =>
        match Construct.ofKeyword? head.text with
        | none => False
        | some .binding => IsVariable rest
        | some .definition => IsDefinition rest
        | some .external => IsExternal rest
        | some .function =>
          match rest with
          | name :: params :: type :: body =>
            name.IsToken .ident ∧ params.IsParams ∧ type.IsType ∧ AreForms body
          | _ => False
        | some .conditional =>
          match rest with
          | [] => False
          | cond :: branches => IsItem cond ∧ AreBranches branches
        | some .alternative => AreForms rest
        | some .whileLoop =>
          match rest with
          | [] => False
          | cond :: body => IsItem cond ∧ AreForms body
        | some .forLoop =>
          match rest with
          | init :: cond :: step :: body =>
            IsItem init ∧ IsItem cond ∧ IsItem step ∧ AreForms body
          | _ => False
        | some .result =>
          match rest with
          | [] => True
          | [value] => IsItem value
          | _ => False
      | _ => False
termination_by structural data

/-- The data are lists of the grammar. -/
def AreForms (data : List Datum) : Prop :=
  match data with
  | [] => True
  | datum :: rest => IsForm datum ∧ AreForms rest
termination_by structural data

/-- The data are items of the grammar. -/
def AreItems (data : List Datum) : Prop :=
  match data with
  | [] => True
  | datum :: rest => IsItem datum ∧ AreItems rest
termination_by structural data

/-- The data are the branches of a condition. -/
def AreBranches (data : List Datum) : Prop :=
  match data with
  | [] => True
  | datum :: rest =>
    IsForm datum ∧ if isAlternative datum = true then rest = [] else AreBranches rest
termination_by structural data

end

/-! ## From data to tokens -/

mutual

/-- The tokens of a type. -/
theorem IsType.derives (datum : Datum) (h : datum.IsType) : Derives .type datum.tokens := by
  match datum with
  | atom token =>
    rcases h with hkind | hkind
    · exact .builtinType hkind
    · exact .namedType hkind
  | list opening [] closing => exact h.elim
  | list opening (list _ _ _ :: _) closing => exact h.elim
  | list opening (atom head :: rest) closing =>
    obtain ⟨hopening, hstruct, hfields, hclosing⟩ := h
    rw [tokens_list _ hclosing]
    exact .struct hopening hstruct (AreBindings.derives rest hfields) hclosing

/-- The tokens of names with their types. -/
theorem AreBindings.derives (data : List Datum) (h : AreBindings data) :
    Derives .bindings (tokensAll data) := by
  match data, h with
  | [], _ => exact .noBindings
  | name :: colon :: type :: rest, ⟨hname, hcolon, htype, hrest⟩ =>
    obtain ⟨nameToken, rfl, hname⟩ := hname
    obtain ⟨colonToken, rfl, hcolon⟩ := hcolon
    have := Derives.bindings hname hcolon (IsType.derives type htype)
      (AreBindings.derives rest hrest)
    simpa using this

end

lemma IsParams.derives {datum : Datum} (h : datum.IsParams) : ∃ opening xs closing,
    datum.tokens = opening :: (xs ++ [closing]) ∧ opening.kind = .lparen ∧
      Derives .bindings xs ∧ closing.kind = .rparen := by
  cases datum with
  | atom token => exact h.elim
  | list opening items closing =>
    obtain ⟨hopening, hbindings, hclosing⟩ := h
    exact ⟨opening, tokensAll items, closing, tokens_list _ hclosing, hopening,
      AreBindings.derives items hbindings, hclosing⟩

lemma IsValue.derives {token : Token} (h : token.IsValue) : Derives .item [token] := by
  rcases h with ⟨hkind, n, htext, hrange⟩ | htrue | hfalse | hname
  · exact .integer hkind htext hrange
  · exact .yes htrue
  · exact .no hfalse
  · exact .name hname

lemma IsVariable.derives {head : Token} (hhead : head.is .keyword "let" = true)
    {data : List Datum} (h : IsVariable data) : Derives .body (head :: tokensAll data) := by
  match data, h with
  | [type, name], ⟨htype, hname⟩ =>
    obtain ⟨nameToken, rfl, hkind⟩ := hname
    exact .variableDecl hhead (IsType.derives type htype) hkind

lemma IsDefinition.derives {head : Token} (hhead : head.is .keyword "typedef" = true)
    {data : List Datum} (h : IsDefinition data) : Derives .body (head :: tokensAll data) := by
  match data, h with
  | [name, type], ⟨hname, htype⟩ =>
    obtain ⟨nameToken, rfl, hkind⟩ := hname
    have := Derives.definition hhead hkind (IsType.derives type htype)
    simpa using this

lemma IsExternal.derives {head : Token} (hhead : head.is .keyword "exfun" = true)
    {data : List Datum} (h : IsExternal data) : Derives .body (head :: tokensAll data) := by
  match data, h with
  | [name], hname =>
    obtain ⟨nameToken, rfl, hkind⟩ := hname
    exact .external hhead hkind
  | [name, params, type], ⟨hname, hparams, htype⟩ =>
    obtain ⟨nameToken, rfl, hkind⟩ := hname
    obtain ⟨opening, xs, closing, htokens, hopening, hxs, hclosing⟩ := hparams.derives
    have := Derives.prototype hhead hkind hopening hxs hclosing (IsType.derives type htype)
    simpa [htokens] using this

/-- A keyword selects its construct. -/
lemma is_keyword {head : Token} (hkind : head.kind = .keyword) {construct : Construct}
    (hselected : Construct.ofKeyword? head.text = some construct) :
    head.is .keyword construct.keyword = true :=
  Token.is_iff.mpr ⟨hkind, Construct.ofKeyword?_eq_some.mp hselected⟩

lemma areBranches_cons {datum : Datum} {rest : List Datum} : AreBranches (datum :: rest) ↔
    IsForm datum ∧ if isAlternative datum = true then rest = [] else AreBranches rest := by
  rw [AreBranches]

/-- What follows the keyword of a construct. -/
def Takes : Construct → List Datum → Prop
  | .binding, data => IsVariable data
  | .definition, data => IsDefinition data
  | .external, data => IsExternal data
  | .function, name :: params :: type :: body =>
    name.IsToken .ident ∧ params.IsParams ∧ type.IsType ∧ AreForms body
  | .conditional, cond :: branches => cond.IsItem ∧ AreBranches branches
  | .alternative, data => AreForms data
  | .whileLoop, cond :: body => cond.IsItem ∧ AreForms body
  | .forLoop, init :: cond :: step :: body =>
    init.IsItem ∧ cond.IsItem ∧ step.IsItem ∧ AreForms body
  | .result, [] => True
  | .result, [value] => value.IsItem
  | _, _ => False

/-- A keyword asks for what its construct takes. -/
lemma isBody_keyword {head : Token} {construct : Construct}
    (h : head.is .keyword construct.keyword = true) (data : List Datum) :
    IsBody (atom head :: data) ↔ Takes construct data := by
  obtain ⟨hkind, htext⟩ := Token.is_iff.mp h
  have hselected := Construct.ofKeyword?_eq_some.mpr htext
  unfold IsBody
  simp only [atom?, hkind, hselected]
  -- nothing after the third datum decides between the cases
  rcases data with _ | ⟨_, _ | ⟨_, _ | ⟨_, _⟩⟩⟩ <;> cases construct <;> exact Iff.rfl

/-- The body of an alternative. -/
lemma isBody_else {head : Token} (h : head.is .keyword "else" = true) (data : List Datum) :
    IsBody (atom head :: data) ↔ AreForms data :=
  isBody_keyword (show head.is .keyword Construct.alternative.keyword = true from h) data

mutual

/-- The tokens of a list. -/
theorem IsForm.derives (datum : Datum) (h : datum.IsForm) : Derives .list datum.tokens := by
  match datum, h with
  | list opening items closing, ⟨hopening, hbody, hclosing⟩ =>
    rw [tokens_list _ hclosing]
    exact .list hopening (IsBody.derives items hbody) hclosing

/-- The tokens of an item. -/
theorem IsItem.derives (datum : Datum) (h : datum.IsItem) : Derives .item datum.tokens := by
  match datum, h with
  | atom token, hvalue => exact IsValue.derives hvalue
  | list opening items closing, ⟨hopening, hbody, hclosing⟩ =>
    rw [tokens_list _ hclosing]
    exact .listItem (.list hopening (IsBody.derives items hbody) hclosing)

/-- The tokens between the parentheses of a list. -/
theorem IsBody.derives (data : List Datum) (h : IsBody data) :
    Derives .body (tokensAll data) := by
  match data with
  | [] => exact .empty
  | list opening items closing :: rest =>
    obtain ⟨hform, hrest⟩ : IsForm (list opening items closing) ∧ AreForms rest := h
    exact .block (IsForm.derives _ hform) (AreForms.derives rest hrest)
  | atom head :: rest =>
    unfold IsBody at h
    simp only [atom?] at h
    rw [tokensAll_cons, tokens_atom, List.singleton_append]
    -- the first token decides what the list is
    split at h
    · exact .operation ‹_› (AreItems.derives rest h)
    · exact .application ‹_› (AreItems.derives rest h)
    · exact .cast ‹_› (AreItems.derives rest h)
    · rename_i hkind
      split at h
      · exact h.elim
      · exact h.derives (is_keyword hkind ‹_›)
      · exact h.derives (is_keyword hkind ‹_›)
      · exact h.derives (is_keyword hkind ‹_›)
      · have hhead := is_keyword hkind ‹_›
        match rest, h with
        | name :: params :: type :: body, ⟨hname, hparams, htype, hbody⟩ =>
          obtain ⟨nameToken, rfl, hname⟩ := hname
          obtain ⟨opening, xs, closing, htokens, hopening, hxs, hclosing⟩ := hparams.derives
          have := Derives.function hhead hname hopening hxs hclosing (IsType.derives type htype)
            (AreForms.derives body hbody)
          simpa [htokens] using this
      · have hhead := is_keyword hkind ‹_›
        match rest, h with
        | cond :: branches, ⟨hcond, hbranches⟩ =>
          exact .conditional hhead (IsItem.derives cond hcond)
            (AreBranches.derives branches hbranches)
      · have hhead := is_keyword hkind ‹_›
        exact .alternative hhead (AreForms.derives rest h)
      · have hhead := is_keyword hkind ‹_›
        match rest, h with
        | cond :: body, ⟨hcond, hbody⟩ =>
          exact .whileLoop hhead (IsItem.derives cond hcond) (AreForms.derives body hbody)
      · have hhead := is_keyword hkind ‹_›
        match rest, h with
        | init :: cond :: step :: body, ⟨hinit, hcond, hstep, hbody⟩ =>
          exact .forLoop hhead (IsItem.derives init hinit) (IsItem.derives cond hcond)
            (IsItem.derives step hstep) (AreForms.derives body hbody)
      · have hhead := is_keyword hkind ‹_›
        match rest, h with
        | [], _ => exact .returnVoid hhead
        | [value], hvalue =>
          have := Derives.returnValue hhead (IsItem.derives value hvalue)
          simpa using this
    · exact h.elim

/-- The tokens of lists. -/
theorem AreForms.derives (data : List Datum) (h : AreForms data) :
    Derives .lists (tokensAll data) := by
  match data, h with
  | [], _ => exact .noLists
  | datum :: rest, ⟨hform, hrest⟩ =>
    exact .lists (IsForm.derives datum hform) (AreForms.derives rest hrest)

/-- The tokens of items. -/
theorem AreItems.derives (data : List Datum) (h : AreItems data) :
    Derives .items (tokensAll data) := by
  match data, h with
  | [], _ => exact .noItems
  | datum :: rest, ⟨hitem, hrest⟩ =>
    exact .items (IsItem.derives datum hitem) (AreItems.derives rest hrest)

/-- The tokens of branches. -/
theorem AreBranches.derives (data : List Datum) (h : AreBranches data) :
    Derives .branches (tokensAll data) := by
  match data with
  | [] => exact .noBranches
  | atom _ :: _ => exact (areBranches_cons.mp h).1.elim
  | list opening items closing :: rest =>
    obtain ⟨⟨hopening, hbody, hclosing⟩, hrest⟩ := areBranches_cons.mp h
    rw [tokensAll_cons, tokens_list _ hclosing, List.cons_append, List.append_assoc,
      List.singleton_append]
    split at hrest
    · rename_i halternative
      subst hrest
      match items with
      | [] => simp [isAlternative] at halternative
      | list _ _ _ :: _ => simp [isAlternative] at halternative
      | atom head :: bodyData =>
        rw [isBody_else halternative] at hbody
        exact .otherwise hopening halternative (AreForms.derives bodyData hbody) hclosing
    · rename_i hother
      refine .nonelse hopening (IsBody.derives items hbody) ?_ hclosing
        (AreBranches.derives rest hrest)
      -- a list inside of the list starts with a parenthesis, which is no keyword
      intro head hhead
      match items, hbody with
      | atom first :: _, _ =>
        cases hhead
        simpa [isAlternative] using hother
      | list inner innerItems innerClosing :: _, hbody =>
        obtain ⟨⟨hinner, -⟩, -⟩ : IsForm (list inner innerItems innerClosing) ∧ _ := hbody
        cases hhead
        simp [Token.is, hinner]

end

/-! ## From tokens to data -/

lemma isBody_items {head : Token}
    (h : head.kind = .operator ∨ head.kind = .ident ∨ head.kind = .typeName) {data : List Datum}
    (hdata : AreItems data) : IsBody (atom head :: data) := by
  unfold IsBody
  rcases h with h | h | h <;> simp only [atom?, h] <;> exact hdata

end Datum

open Datum Nesting

/-- What a nonterminal asks of data. -/
def Phrase.Holds : Phrase → List Datum → Prop
  | lists, data => AreForms data
  | list, data => ∃ datum, data = [datum] ∧ datum.IsForm
  | body, data => IsBody data
  | branches, data => AreBranches data
  | items, data => AreItems data
  | item, data => ∃ datum, data = [datum] ∧ datum.IsItem
  | type, data => ∃ datum, data = [datum] ∧ datum.IsType
  | bindings, data => AreBindings data

/-- Whatever follows them, the tokens become the data, which have these tokens. -/
structure Becomes (eof : Token) (tokens : List Token) (data : List Datum) : Prop where
  /-- The parentheses match. -/
  nests : Nests eof tokens data
  /-- Nothing is lost. -/
  tokensAll : tokensAll data = tokens

namespace Becomes

variable {eof head : Token} {xs ys : List Token} {data others : List Datum}

lemma nil : Becomes eof [] [] := ⟨.nil, rfl⟩

lemma append (h₁ : Becomes eof xs data) (h₂ : Becomes eof ys others) :
    Becomes eof (xs ++ ys) (data ++ others) where
  nests := h₁.nests.append h₂.nests
  tokensAll := by rw [tokensAll_append, h₁.tokensAll, h₂.tokensAll]

/-- A datum in front. -/
lemma cons {datum : Datum} (h₁ : Becomes eof xs [datum]) (h₂ : Becomes eof ys data) :
    Becomes eof (xs ++ ys) (datum :: data) := h₁.append h₂

/-- A token that is no parenthesis. -/
lemma single (hopening : head.kind ≠ .lparen) (hclosing : head.kind ≠ .rparen) :
    Becomes eof [head] [.atom head] := ⟨.atom hopening hclosing, rfl⟩

/-- A name in front. -/
lemma name (hkind : head.kind = .ident) (h : Becomes eof xs data) :
    Becomes eof (head :: xs) (.atom head :: data) :=
  (single (by simp [hkind]) (by simp [hkind])).cons h

/-- A keyword in front. -/
lemma keyword {text : String} (hhead : head.is .keyword text = true) (h : Becomes eof xs data) :
    Becomes eof (head :: xs) (.atom head :: data) := by
  have hkind := (Token.is_iff.mp hhead).1
  exact (single (by simp [hkind]) (by simp [hkind])).cons h

/-- Parentheses around. -/
lemma list {opening closing : Token} (hopening : opening.kind = .lparen)
    (hclosing : closing.kind = .rparen) (h : Becomes eof xs data) :
    Becomes eof (opening :: (xs ++ [closing])) [.list opening data closing] where
  nests := .list hopening hclosing h.nests
  tokensAll := by simp [tokens_list _ hclosing, h.tokensAll]

end Becomes

/-- The tokens become data of the nonterminal. -/
def Yields (eof : Token) (phrase : Phrase) (tokens : List Token) : Prop :=
  ∃ data, Becomes eof tokens data ∧ phrase.Holds data

namespace Yields

variable {eof head name opening closing : Token} {xs ys zs us : List Token}

/-- A keyword with what its construct takes. -/
lemma construct {data : List Datum} {construct : Construct} (htakes : Takes construct data)
    (h : Becomes eof xs data) (hhead : head.is .keyword construct.keyword = true) :
    Yields eof .body (head :: xs) :=
  ⟨_, h.keyword hhead, (isBody_keyword hhead data).mpr htakes⟩

/-- The parameters of a function. -/
lemma params (hopening : opening.kind = .lparen) (hparams : Yields eof .bindings xs)
    (hclosing : closing.kind = .rparen) :
    ∃ datum, Becomes eof (opening :: (xs ++ [closing])) [datum] ∧ datum.IsParams := by
  obtain ⟨data, hdata, hbindings⟩ := hparams
  exact ⟨_, hdata.list hopening hclosing, hopening, hbindings, hclosing⟩

lemma prototype (hhead : head.is .keyword "exfun" = true) (hname : name.kind = .ident)
    (hopening : opening.kind = .lparen) (hparams : Yields eof .bindings xs)
    (hclosing : closing.kind = .rparen) (hresult : Yields eof .type ys) :
    Yields eof .body (head :: name :: opening :: (xs ++ closing :: ys)) := by
  obtain ⟨params, hlist, hisParams⟩ := Yields.params hopening hparams hclosing
  obtain ⟨_, htype, type, rfl, hisType⟩ := hresult
  have htakes : Takes .external [.atom name, params, type] :=
    ⟨⟨_, rfl, hname⟩, hisParams, hisType⟩
  have hall := Yields.construct htakes (.name hname (hlist.cons htype)) hhead
  simpa only [List.cons_append, List.append_assoc, List.nil_append] using hall

lemma function (hhead : head.is .keyword "defun" = true) (hname : name.kind = .ident)
    (hopening : opening.kind = .lparen) (hparams : Yields eof .bindings xs)
    (hclosing : closing.kind = .rparen) (hresult : Yields eof .type ys)
    (hbody : Yields eof .lists zs) :
    Yields eof .body (head :: name :: opening :: (xs ++ closing :: (ys ++ zs))) := by
  obtain ⟨params, hlist, hisParams⟩ := Yields.params hopening hparams hclosing
  obtain ⟨_, htype, type, rfl, hisType⟩ := hresult
  obtain ⟨forms, hdata, hforms⟩ := hbody
  have htakes : Takes .function (.atom name :: params :: type :: forms) :=
    ⟨⟨_, rfl, hname⟩, hisParams, hisType, hforms⟩
  have hall := Yields.construct htakes (.name hname (hlist.cons (htype.cons hdata))) hhead
  simpa only [List.cons_append, List.append_assoc, List.nil_append] using hall

lemma forLoop (hhead : head.is .keyword "for" = true) (hinit : Yields eof .item xs)
    (hcond : Yields eof .item ys) (hstep : Yields eof .item zs) (hbody : Yields eof .lists us) :
    Yields eof .body (head :: (xs ++ (ys ++ (zs ++ us)))) := by
  obtain ⟨_, hfirst, init, rfl, hisInit⟩ := hinit
  obtain ⟨_, hsecond, cond, rfl, hisCond⟩ := hcond
  obtain ⟨_, hthird, step, rfl, hisStep⟩ := hstep
  obtain ⟨data, hdata, hforms⟩ := hbody
  have htakes : Takes .forLoop (init :: cond :: step :: data) :=
    ⟨hisInit, hisCond, hisStep, hforms⟩
  exact .construct htakes (hfirst.cons (hsecond.cons (hthird.cons hdata))) hhead

/-- A list whose first token is no `else` is no alternative. -/
lemma isAlternative_eq_false {data : List Datum} (h : Becomes eof xs data)
    (hother : ∀ head ∈ xs.head?, head.is .keyword "else" = false) :
    isAlternative (.list opening data closing) = false := by
  cases data with
  | nil => rfl
  | cons first rest =>
    cases first with
    | atom head =>
      -- the first token is that of the first datum
      have hfirst : xs.head? = some head := by
        rw [← h.tokensAll]
        rfl
      exact hother head hfirst
    | list => rfl

lemma nonelse (hopening : opening.kind = .lparen) (hbody : Yields eof .body xs)
    (hother : ∀ head ∈ xs.head?, head.is .keyword "else" = false)
    (hclosing : closing.kind = .rparen) (hrest : Yields eof .branches ys) :
    Yields eof .branches (opening :: (xs ++ closing :: ys)) := by
  obtain ⟨data, hdata, hisBody⟩ := hbody
  obtain ⟨others, hothers, hbranches⟩ := hrest
  have hform : IsForm (.list opening data closing) := ⟨hopening, hisBody, hclosing⟩
  have hall := (hdata.list hopening hclosing).cons hothers
  simp only [List.cons_append, List.append_assoc, List.nil_append] at hall
  refine ⟨_, hall, areBranches_cons.mpr ⟨hform, ?_⟩⟩
  rw [if_neg (by simp [isAlternative_eq_false hdata hother])]
  exact hbranches

lemma otherwise (hopening : opening.kind = .lparen) (hhead : head.is .keyword "else" = true)
    (hbody : Yields eof .lists xs) (hclosing : closing.kind = .rparen) :
    Yields eof .branches (opening :: head :: (xs ++ [closing])) := by
  obtain ⟨data, hdata, hforms⟩ := hbody
  have hform : IsForm (.list opening (.atom head :: data) closing) :=
    ⟨hopening, (isBody_else hhead data).mpr hforms, hclosing⟩
  exact ⟨_, (hdata.keyword hhead).list hopening hclosing,
    areBranches_cons.mpr ⟨hform, by simp [isAlternative, hhead]⟩⟩

/-- One name with its type in front of others. -/
lemma bindings {colon : Token} (hname : name.kind = .ident) (hcolon : colon.kind = .colon)
    (htype : Yields eof .type xs) (hrest : Yields eof .bindings ys) :
    Yields eof .bindings (name :: colon :: (xs ++ ys)) := by
  obtain ⟨_, hfirst, type, rfl, hisType⟩ := htype
  obtain ⟨data, hdata, hbindings⟩ := hrest
  have hmark : Becomes eof [colon] [.atom colon] :=
    .single (by simp [hcolon]) (by simp [hcolon])
  exact ⟨_, .name hname (hmark.cons (hfirst.cons hdata)),
    ⟨_, rfl, hname⟩, ⟨_, rfl, hcolon⟩, hisType, hbindings⟩

end Yields

/-- By induction on the derivation: its tokens become data of the nonterminal. -/
theorem Derives.yields (eof : Token) {phrase : Phrase} {xs : List Token} (h : Derives phrase xs) :
    Yields eof phrase xs := by
  induction h with
  | noLists | noBranches | noItems | noBindings | empty => exact ⟨[], .nil, trivial⟩
  | lists first rest ihFirst ihRest =>
    obtain ⟨_, hfirst, datum, rfl, hform⟩ := ihFirst
    obtain ⟨others, hrest, hforms⟩ := ihRest
    exact ⟨_, hfirst.cons hrest, hform, hforms⟩
  | list isOpening body isClosing ih =>
    obtain ⟨data, hdata, hbody⟩ := ih
    exact ⟨_, hdata.list isOpening isClosing, _, rfl, isOpening, hbody, isClosing⟩
  | block first rest ihFirst ihRest =>
    obtain ⟨_, hfirst, datum, rfl, hform⟩ := ihFirst
    obtain ⟨others, hrest, hforms⟩ := ihRest
    refine ⟨_, hfirst.cons hrest, ?_⟩
    -- `IsBody` looks at the first datum, and a form is a list
    cases datum with
    | atom token => exact hform.elim
    | list opening items closing => exact ⟨hform, hforms⟩
  | operation isOperator operands ih =>
    obtain ⟨data, hdata, hitems⟩ := ih
    exact ⟨_, (Becomes.single (by simp [isOperator]) (by simp [isOperator])).cons hdata,
      isBody_items (.inl isOperator) hitems⟩
  | application isName operands ih =>
    obtain ⟨data, hdata, hitems⟩ := ih
    exact ⟨_, hdata.name isName, isBody_items (.inr (.inl isName)) hitems⟩
  | cast isType operands ih =>
    obtain ⟨data, hdata, hitems⟩ := ih
    exact ⟨_, (Becomes.single (by simp [isType]) (by simp [isType])).cons hdata,
      isBody_items (.inr (.inr isType)) hitems⟩
  | variableDecl isLet type isName ih =>
    obtain ⟨_, htype, datum, rfl, hisType⟩ := ih
    have htakes : Takes .binding [datum, .atom _] := ⟨hisType, _, rfl, isName⟩
    exact .construct htakes (htype.cons (.name isName .nil)) isLet
  | definition isTypedef isName type ih =>
    obtain ⟨_, htype, datum, rfl, hisType⟩ := ih
    have htakes : Takes .definition [.atom _, datum] := ⟨⟨_, rfl, isName⟩, hisType⟩
    exact .construct htakes (.name isName htype) isTypedef
  | external isExfun isName =>
    have htakes : Takes .external [.atom _] := ⟨_, rfl, isName⟩
    exact .construct htakes (.name isName .nil) isExfun
  | prototype isExfun isName isOpening params isClosing result ihParams ihResult =>
    exact .prototype isExfun isName isOpening ihParams isClosing ihResult
  | function isDefun isName isOpening params isClosing result body ihParams ihResult ihBody =>
    exact .function isDefun isName isOpening ihParams isClosing ihResult ihBody
  | conditional isIf cond branches ihCond ihBranches =>
    obtain ⟨_, hcond, datum, rfl, hitem⟩ := ihCond
    obtain ⟨data, hdata, hbranches⟩ := ihBranches
    have htakes : Takes .conditional (datum :: data) := ⟨hitem, hbranches⟩
    exact .construct htakes (hcond.cons hdata) isIf
  | alternative isElse body ih =>
    obtain ⟨data, hdata, hforms⟩ := ih
    have htakes : Takes .alternative data := hforms
    exact .construct htakes hdata isElse
  | whileLoop isWhile cond body ihCond ihBody =>
    obtain ⟨_, hcond, datum, rfl, hitem⟩ := ihCond
    obtain ⟨data, hdata, hforms⟩ := ihBody
    have htakes : Takes .whileLoop (datum :: data) := ⟨hitem, hforms⟩
    exact .construct htakes (hcond.cons hdata) isWhile
  | forLoop isFor init cond step body ihInit ihCond ihStep ihBody =>
    exact .forLoop isFor ihInit ihCond ihStep ihBody
  | returnVoid isReturn =>
    have htakes : Takes .result [] := trivial
    exact .construct htakes .nil isReturn
  | returnValue isReturn value ih =>
    obtain ⟨_, hvalue, datum, rfl, hitem⟩ := ih
    have htakes : Takes .result [datum] := hitem
    exact .construct htakes hvalue isReturn
  | nonelse isOpening body isOther isClosing rest ihBody ihRest =>
    exact .nonelse isOpening ihBody isOther isClosing ihRest
  | otherwise isOpening isElse body isClosing ih => exact .otherwise isOpening isElse ih isClosing
  | items first rest ihFirst ihRest =>
    obtain ⟨_, hfirst, datum, rfl, hitem⟩ := ihFirst
    obtain ⟨others, hrest, hitems⟩ := ihRest
    exact ⟨_, hfirst.cons hrest, hitem, hitems⟩
  | listItem list ih =>
    obtain ⟨_, hdata, datum, rfl, hform⟩ := ih
    refine ⟨_, hdata, datum, rfl, ?_⟩
    cases datum with
    | atom token => exact hform.elim
    | list opening items closing => exact hform
  | integer isInteger text inRange =>
    exact ⟨_, .single (by simp [isInteger]) (by simp [isInteger]), _, rfl,
      .inl ⟨isInteger, _, text, inRange⟩⟩
  | yes isTrue => exact ⟨_, .keyword isTrue .nil, _, rfl, .inr (.inl isTrue)⟩
  | no isFalse => exact ⟨_, .keyword isFalse .nil, _, rfl, .inr (.inr (.inl isFalse))⟩
  | name isName => exact ⟨_, .name isName .nil, _, rfl, .inr (.inr (.inr isName))⟩
  | builtinType isType =>
    exact ⟨_, .single (by simp [isType]) (by simp [isType]), _, rfl, .inl isType⟩
  | namedType isName => exact ⟨_, .name isName .nil, _, rfl, .inr isName⟩
  | struct isOpening isStruct fields isClosing ih =>
    obtain ⟨data, hdata, hbindings⟩ := ih
    exact ⟨_, (hdata.keyword isStruct).list isOpening isClosing, _, rfl,
      isOpening, isStruct, hbindings, isClosing⟩
  | bindings isName isColon type rest ihType ihRest =>
    exact .bindings isName isColon ihType ihRest

/-- A text belongs to the grammar just if its top level, as data, does. -/
theorem derives_iff {body : List Token} (h : ∀ token ∈ body, token.kind ≠ .eof) {eof : Token}
    (heof : eof.kind = .eof) : Derives .lists body ↔
      AreForms (ofTokens eof body).inner.items ∧ (ofTokens eof body).inner.closing.kind = .eof := by
  constructor
  · intro hderives
    obtain ⟨data, hdata, hforms⟩ := hderives.yields eof
    rw [hdata.nests.inner_eq]
    exact ⟨hforms, heof⟩
  · rintro ⟨hforms, hclosing⟩
    have hderives := AreForms.derives _ hforms
    rwa [tokensAll_of_closing heof h hclosing] at hderives

end ParenC
