/-
Texts of one line.

Findings are shown one to a line, so a finding whose text held a line break would be taken for
two.  Its text is put together from fixed words, numbers, and texts that the program brings along:
tokens, names, and types written out.  None of these holds a line break as long as no name does.
-/
import Mathlib.Tactic.Common
import ParenC.Lowering.Basic
import ParenC.Reading.Complaint
import ParenC.Typing.Violation
import ParenC.Workspace

namespace ParenC

/-- The text holds no line break. -/
structure OneLine (text : String) : Prop where
  /-- None of its characters is one. -/
  notMem : '\n' ∉ text.toList

namespace OneLine

variable {s t : String}

/-- A text whose characters are known. -/
lemma ofList {text : List Char} (h : '\n' ∉ text) : OneLine (String.ofList text) :=
  ⟨by rwa [String.toList_ofList]⟩

lemma append_iff : OneLine (s ++ t) ↔ OneLine s ∧ OneLine t := by
  constructor
  · rintro ⟨h⟩
    rw [String.toList_append, List.mem_append, not_or] at h
    exact ⟨⟨h.1⟩, ⟨h.2⟩⟩
  · rintro ⟨⟨hs⟩, ⟨ht⟩⟩
    exact ⟨by simp [String.toList_append, hs, ht]⟩

lemma append (hs : OneLine s) (ht : OneLine t) : OneLine (s ++ t) := append_iff.mpr ⟨hs, ht⟩

lemma join {texts : List String} (h : ∀ text ∈ texts, OneLine text) :
    OneLine (String.join texts) := by
  refine ⟨fun hmem => ?_⟩
  rw [String.toList_join, List.mem_flatMap] at hmem
  obtain ⟨text, htext, hmem⟩ := hmem
  exact (h text htext).notMem hmem

lemma intercalate {texts : List String} (hs : OneLine s) (h : ∀ text ∈ texts, OneLine text) :
    OneLine (s.intercalate texts) := by
  induction texts with
  | nil => exact .ofList (by decide)
  | cons first rest ih =>
    cases rest with
    | nil => simpa using h first (by simp)
    | cons second rest =>
      rw [String.intercalate_cons_cons]
      exact ((h first (by simp)).append hs).append (ih fun text htext => h text (by simp [htext]))

/-- Numbers are written in digits. -/
lemma nat (n : Nat) : OneLine (toString n) := by
  rw [show toString n = String.ofList (Nat.toDigits 10 n) from Nat.repr_eq_ofList_toDigits]
  refine .ofList fun hmem => ?_
  exact absurd (Nat.isDigit_of_mem_toDigits (by decide) (by decide) hmem) (by decide)

lemma describe_kind (kind : TokenKind) : OneLine kind.describe := by
  cases kind <;> exact .ofList (by decide)

/-- A token is spoken of by its kind and its text. -/
lemma describe {token : Token} (h : OneLine token.text) : OneLine token.describe := by
  have hkind := describe_kind token.kind
  unfold Token.describe
  split
  · exact ((hkind.append (.ofList (by decide))).append h).append (.ofList (by decide))
  · exact hkind

end OneLine

/-! ## Names -/

/-- The names that a type brings along. -/
def Shape.names : Shape → List String
  | builtin _ => []
  | struct fields => fields.map Field.name
  | definition name _ => [name]

/-- The names that a symbol brings along. -/
def Symbol.names (symbol : Symbol) : List String :=
  symbol.name :: match symbol.kind with
    | .function params _ _ => params.map Param.name
    | _ => []

/-- The names of fields and definitions are of one line. -/
def TypeTable.Plain (table : TypeTable) : Prop :=
  ∀ info ∈ table.entries, ∀ name ∈ info.shape.names, OneLine name

/-- The names of symbols and parameters are of one line. -/
def SymbolTable.Plain (table : SymbolTable) : Prop :=
  ∀ symbol ∈ table.entries, ∀ name ∈ symbol.names, OneLine name

/-- All names in the tables are of one line. -/
structure Tables.Plain (tables : Tables) : Prop where
  /-- Those of types. -/
  types : tables.types.Plain
  /-- Those of symbols. -/
  symbols : tables.symbols.Plain

/-! ## Results -/

/-- The computation ends well with a result of which `good` holds, or with a failure of which `bad`
holds. -/
def Ends {ε α : Type} (x : Except ε α) (good : α → Prop) (bad : ε → Prop) : Prop :=
  match x with
  | .ok a => good a
  | .error e => bad e

namespace Ends

variable {ε α β : Type} {x : Except ε α} {next : α → Except ε β} {good : α → Prop}
  {better : β → Prop} {bad : ε → Prop}

lemma error {e : ε} (h : Ends x good bad) (hx : x = .error e) : bad e := by
  subst hx
  exact h

lemma pure {a : α} (h : good a) : Ends (Pure.pure a) good bad := h

lemma throw {e : ε} (h : bad e) : Ends (.error e : Except ε α) good bad := h

lemma bind (h : Ends x good bad) (hnext : ∀ a, good a → Ends (next a) better bad) :
    Ends (x >>= next) better bad := by
  cases x with
  | ok a => exact hnext a h
  | error e => exact h

lemma ite {c : Prop} [Decidable c] {x' : Except ε α} (h : Ends x good bad)
    (h' : Ends x' good bad) : Ends (if c then x else x') good bad := by
  split
  · exact h
  · exact h'

/-- Whatever the result is. -/
lemma any (h : ∀ e, bad e) : Ends x (fun _ => True) bad := by
  cases x with
  | ok a => trivial
  | error e => exact h e

/-- The results of a list are as each of them is. -/
lemma mapM {f : α → Except ε β} {xs : List α} (each : β → Prop)
    (h : ∀ x ∈ xs, Ends (f x) each bad) :
    Ends (xs.mapM f) (fun ys => ∀ y ∈ ys, each y) bad := by
  induction xs with
  | nil => exact pure (by simp)
  | cons x xs ih =>
    rw [List.mapM_cons]
    refine bind (h x (by simp)) fun y hy => ?_
    refine bind (ih fun x hx => h x (by simp [hx])) fun ys hys => pure ?_
    simpa using ⟨hy, hys⟩

end Ends

/-! ## Types written out -/

namespace TypeTable

variable {table : TypeTable}

lemma Plain.get (h : table.Plain) {id : TypeId} :
    Ends (table.get id) (fun info => ∀ name ∈ info.shape.names, OneLine name) fun _ => True := by
  unfold TypeTable.get
  split
  · exact h _ (Array.mem_of_getElem? ‹_›)
  · trivial

/-- A type is written with the names of its fields. -/
lemma describeWithin_oneLine (h : table.Plain) (levels : Nat) (id : TypeId) :
    Ends (table.describeWithin levels id) OneLine fun _ => True := by
  induction levels generalizing id with
  | zero => trivial
  | succ levels ih =>
    unfold describeWithin
    refine h.get.bind fun info hnames => ?_
    split
    · rename_i which hshape
      refine Ends.pure ?_
      cases which <;> exact .ofList (by decide)
    · rename_i name target hshape
      exact Ends.pure (hnames name (by simp [hshape, Shape.names]))
    · rename_i fields hshape
      refine (Ends.mapM OneLine fun field hfield => ?_).bind fun texts htexts => ?_
      · refine (ih field.type).bind fun text htext => Ends.pure ?_
        have hname : OneLine field.name :=
          hnames _ (by simpa [hshape, Shape.names] using ⟨field, hfield, rfl⟩)
        exact ((hname.append (.ofList (by decide))).append htext).append (.ofList (by decide))
      · refine Ends.pure (.append (.append ?_ (.join htexts)) ?_) <;> exact .ofList (by decide)

lemma describe_oneLine (h : table.Plain) (id : TypeId) :
    Ends (table.describe id) OneLine fun _ => True :=
  describeWithin_oneLine h table.size id

lemma describeAll_oneLine (h : table.Plain) (ids : List TypeId) :
    Ends (table.describeAll ids) OneLine fun _ => True := by
  refine (Ends.mapM OneLine fun id _ => describe_oneLine h id).bind
    fun texts htexts => Ends.pure ?_
  refine .append (.append ?_ (.intercalate ?_ htexts)) ?_ <;> exact .ofList (by decide)

end TypeTable

/-! ## Messages -/

/-- The names in a complaint. -/
def Complaint.names : Complaint → List String
  | undeclared name | notVariable name | foreignVariable name | notCallable name
  | undeclaredType name | redeclared name | duplicateField name | operandCount name _
  | nestedFunction name | scopedFunction name => [name]
  | castOperandCount _ | returnOutside | strayElse | mainAndStatements => []

lemma Complaint.message_oneLine {complaint : Complaint}
    (h : ∀ name ∈ complaint.names, OneLine name) : OneLine complaint.message := by
  cases complaint with
  | undeclared name | notVariable name | foreignVariable name | notCallable name
  | undeclaredType name | redeclared name | duplicateField name | nestedFunction name
  | scopedFunction name =>
    have hname := h name (List.mem_singleton_self name)
    exact (OneLine.append (.ofList (by decide)) hname).append (.ofList (by decide))
  | operandCount op count =>
    have hop := h op (List.mem_singleton_self op)
    exact ((OneLine.append (.ofList (by decide)) hop).append (.ofList (by decide))).append
      (.nat count)
  | castOperandCount count => exact OneLine.append (.ofList (by decide)) (.nat count)
  | returnOutside | strayElse | mainAndStatements => exact .ofList (by decide)

/-- The text of the literal that has no value. -/
def LiteralFault.text : LiteralFault → String
  | negativeUnsigned text | invalid text _ => text

lemma LiteralFault.message_oneLine {fault : LiteralFault} (h : OneLine fault.text) :
    OneLine fault.message := by
  cases fault with
  | negativeUnsigned literal =>
    exact (OneLine.append (.ofList (by decide)) h).append (.ofList (by decide))
  | invalid literal digit =>
    have hdigit : OneLine digit.message := by cases digit <;> exact .ofList (by decide)
    exact ((OneLine.append (.ofList (by decide)) h).append (.ofList (by decide))).append hdigit

lemma IntegerValue.ofText_fault (text : String) :
    Ends (ofText text) (fun _ => True) fun fault => fault.text = text := by
  unfold ofText
  dsimp only
  split
  · split
    · rfl
    · split <;> trivial
  · split <;> trivial

/-- The refusal is about the token. -/
inductive Refusal.Concerns (got : Token) : Refusal → Prop
  | expected (kind : TokenKind) : Concerns got (.expected kind got)
  | unexpected : Concerns got (.unexpected got)
  | literal {fault : LiteralFault} (isInteger : got.kind = .integer)
      (text : fault.text = got.text) :
      Concerns got (.literal fault)

lemma Refusal.Concerns.message_oneLine {got : Token} {refusal : Refusal}
    (h : refusal.Concerns got) (htext : OneLine got.text) : OneLine refusal.message := by
  have hgot := OneLine.describe htext
  cases h with
  | expected kind =>
    have hkind := OneLine.describe_kind kind
    exact ((OneLine.append (.ofList (by decide)) hkind).append (.ofList (by decide))).append hgot
  | unexpected => exact OneLine.append (.ofList (by decide)) hgot
  | literal _ text => exact LiteralFault.message_oneLine (text ▸ htext)

/-- The line that shows a finding is one line. -/
lemma OneLine.findingLine {file severity message : String} {loc : Location} (hfile : OneLine file)
    (hseverity : OneLine severity) (hmessage : OneLine message) :
    OneLine (findingLine file loc severity message) := by
  have hloc : OneLine loc.text := ((nat _).append (.ofList (by decide))).append (nat _)
  exact (((((hfile.append (.ofList (by decide))).append hloc).append (.ofList (by decide))).append
    hseverity).append (.ofList (by decide))).append hmessage

/-- The names in a violation. -/
def Violation.names : Violation → List String
  | voidArgument callee | argumentTypes callee _ _ => [callee]
  | parameterType param function _ => [param, function]
  | resultType function _ => [function]
  | _ => []

lemma Violation.message_oneLine {types : TypeTable} {violation : Violation}
    (htypes : types.Plain) (h : ∀ name ∈ violation.names, OneLine name) :
    Ends (violation.message types) OneLine fun _ => True := by
  have hone := fun id => types.describe_oneLine htypes id
  have hall := fun ids => types.describeAll_oneLine htypes ids
  -- a message is fixed text around the names of types and of symbols
  cases violation with
  | voidLeft | voidRight =>
    exact (hone _).bind fun text htext => Ends.pure (.append (.ofList (by decide)) htext)
  | castTarget type | castSource type | voidVariable type =>
    exact (hone type).bind fun text htext => Ends.pure (.append (.ofList (by decide)) htext)
  | structOperands type =>
    exact (hone type).bind fun text htext => Ends.pure
      ((OneLine.append (.ofList (by decide)) htext).append (.ofList (by decide)))
  | notStorage => exact Ends.pure (.ofList (by decide))
  | operandMismatch lhs rhs =>
    refine (hone lhs).bind fun left hleft => (hone rhs).bind fun right hright => Ends.pure ?_
    exact ((OneLine.append (.ofList (by decide)) hleft).append (.ofList (by decide))).append hright
  | unexpectedType got expected =>
    refine (hone expected).bind fun left hleft => (hone got).bind fun right hright => Ends.pure ?_
    exact ((OneLine.append (.ofList (by decide)) hleft).append (.ofList (by decide))).append hright
  | voidArgument callee =>
    have hcallee := h callee (List.mem_singleton_self callee)
    refine (hone _).bind fun text htext => Ends.pure ?_
    exact (((OneLine.append (.ofList (by decide)) htext).append (.ofList (by decide))).append
      hcallee).append (.ofList (by decide))
  | argumentCount got expected =>
    refine (hall got).bind fun left hleft => (hall expected).bind fun right hright => Ends.pure ?_
    exact ((((((OneLine.append (.ofList (by decide)) (.nat _)).append (.ofList (by decide))).append
      (.nat _)).append (.ofList (by decide))).append hleft).append (.ofList (by decide))).append
      hright
  | argumentTypes callee got expected =>
    have hcallee := h callee (List.mem_singleton_self callee)
    refine (hall got).bind fun left hleft => (hall expected).bind fun right hright => Ends.pure ?_
    exact ((((OneLine.append (.ofList (by decide)) hcallee).append (.ofList (by decide))).append
      hleft).append (.ofList (by decide))).append hright
  | parameterType param function type =>
    have hparam := h param (by simp [names])
    have hfunction := h function (by simp [names])
    refine (hone type).bind fun text htext => Ends.pure ?_
    exact ((((OneLine.append (.ofList (by decide)) hparam).append (.ofList (by decide))).append
      hfunction).append (.ofList (by decide))).append htext
  | resultType function type =>
    have hfunction := h function (List.mem_singleton_self function)
    refine (hone type).bind fun text htext => Ends.pure ?_
    exact ((OneLine.append (.ofList (by decide)) hfunction).append (.ofList (by decide))).append
      htext

/-- The names in a limit. -/
def Limit.names : Limit → List String
  | stackParameters function => [function]
  | stackArgument => []
  | registerValue type => [type]

lemma Limit.feature_oneLine {limit : Limit} (h : ∀ name ∈ limit.names, OneLine name) :
    OneLine limit.feature := by
  cases limit with
  | stackParameters name | registerValue name =>
    have hname := h name (List.mem_singleton_self name)
    exact (OneLine.append (.ofList (by decide)) hname).append (.ofList (by decide))
  | stackArgument => exact .ofList (by decide)

end ParenC
