/-
Placing variables changes offsets and nothing else.

Two symbol tables are alike if they agree on everything but the places of variables.  What reading
and checking established does not look at places, so it holds of both or of none.
-/
import ParenC.Proofs.Typing

namespace ParenC

/-- The kind without a place. -/
def SymbolKind.unplaced : SymbolKind → SymbolKind
  | localVar _ owner => localVar none owner
  | kind => kind

/-- The symbol without its place. -/
def Symbol.unplaced (symbol : Symbol) : Symbol := { symbol with kind := symbol.kind.unplaced }

namespace Symbol

variable {a b : Symbol}

lemma unplaced_place (symbol : Symbol) (offset : Nat) :
    (symbol.place offset).unplaced = symbol.unplaced := by
  rcases symbol with ⟨name, type?, kind⟩
  cases kind <;> rfl

lemma type?_eq (h : a.unplaced = b.unplaced) : a.type? = b.type? :=
  show a.unplaced.type? = b.unplaced.type? from congrArg Symbol.type? h

lemma name_eq (h : a.unplaced = b.unplaced) : a.name = b.name :=
  show a.unplaced.name = b.unplaced.name from congrArg Symbol.name h

lemma type_eq (h : a.unplaced = b.unplaced) : a.type = b.type := by
  rw [type, type, type?_eq h, name_eq h]

lemma kind_eq (h : a.unplaced = b.unplaced) : a.kind.unplaced = b.kind.unplaced :=
  show a.unplaced.kind = b.unplaced.kind from congrArg Symbol.kind h

lemma sort_eq (h : a.unplaced = b.unplaced) : a.kind.sort = b.kind.sort := by
  have hsort : ∀ kind : SymbolKind, kind.unplaced.sort = kind.sort := by
    intro kind
    cases kind <;> rfl
  rw [← hsort, kind_eq h, hsort]

lemma isVariableOf_eq (h : a.unplaced = b.unplaced) (owner : Option SymbolId) :
    a.isVariableOf owner = b.isVariableOf owner := by
  have hvar : ∀ symbol : Symbol, symbol.unplaced.isVariableOf owner = symbol.isVariableOf owner := by
    rintro ⟨name, type?, kind⟩
    cases kind <;> rfl
  rw [← hvar, h, hvar]

/-- Only variables have places. -/
lemma unplaced_of_sort_ne {symbol : Symbol} (h : symbol.kind.sort ≠ .localVar) :
    symbol.unplaced = symbol := by
  rcases symbol with ⟨name, type?, kind⟩
  cases kind with
  | localVar => exact absurd rfl h
  | function | type => rfl

lemma offset_eq_ok {symbol : Symbol} {place : Nat} :
    symbol.offset = .ok place ↔ ∃ owner, symbol.kind = .localVar (some place) owner := by
  unfold offset
  rcases symbol.kind with ⟨_ | place', owner⟩ | _ | _ <;> simp

/-- Symbols that differ at most in their places, and have the same place, are the same. -/
lemma eq_of_offset (h : a.unplaced = b.unplaced) {place : Nat} (ha : a.offset = .ok place)
    (hb : b.offset = .ok place) : a = b := by
  obtain ⟨owner, hkind⟩ := offset_eq_ok.mp ha
  obtain ⟨owner', hkind'⟩ := offset_eq_ok.mp hb
  have howner := kind_eq h
  rw [hkind, hkind', SymbolKind.unplaced, SymbolKind.unplaced, SymbolKind.localVar.injEq] at howner
  have hname := name_eq h
  have htype := type?_eq h
  cases a
  cases b
  simp_all

/-- The kind of a function says nothing of places. -/
lemma kind_eq_of_function (h : a.unplaced = b.unplaced) {params : List Param}
    {prototyped external : Bool} (hkind : a.kind = .function params prototyped external) :
    b.kind = .function params prototyped external := by
  have hb := kind_eq h
  rw [hkind] at hb
  cases hkind' : b.kind with
  | localVar offset function => simp [hkind', SymbolKind.unplaced] at hb
  | function params' prototyped' external' => simpa [hkind', SymbolKind.unplaced] using hb.symm
  | type => simp [hkind', SymbolKind.unplaced] at hb

end Symbol

namespace SymbolTable

variable {symbols symbols' : SymbolTable}

/-- The tables agree on everything but the places of variables. -/
def Alike (symbols symbols' : SymbolTable) : Prop :=
  ∀ i : Nat, symbols.entries[i]?.map Symbol.unplaced = symbols'.entries[i]?.map Symbol.unplaced

lemma Alike.refl (symbols : SymbolTable) : symbols.Alike symbols := fun _ => rfl

lemma Alike.symm (h : symbols.Alike symbols') : symbols'.Alike symbols := fun i => (h i).symm

lemma Alike.trans {a b c : SymbolTable} (h₁ : a.Alike b) (h₂ : b.Alike c) : a.Alike c :=
  fun i => (h₁ i).trans (h₂ i)

lemma Alike.entry (h : symbols.Alike symbols') {i : Nat} {symbol : Symbol}
    (hget : symbols.entries[i]? = some symbol) :
    ∃ symbol', symbols'.entries[i]? = some symbol' ∧ symbol.unplaced = symbol'.unplaced := by
  have := h i
  rw [hget, Option.map_some] at this
  cases hget' : symbols'.entries[i]? with
  | none => simp [hget'] at this
  | some symbol' =>
    rw [hget', Option.map_some] at this
    exact ⟨symbol', rfl, Option.some.inj this⟩

lemma Alike.get (h : symbols.Alike symbols') {id : SymbolId} {symbol : Symbol}
    (hget : symbols.get id = .ok symbol) :
    ∃ symbol', symbols'.get id = .ok symbol' ∧ symbol.unplaced = symbol'.unplaced := by
  obtain ⟨symbol', hget', heq⟩ := h.entry (get_eq_ok_iff.mp hget)
  exact ⟨symbol', get_eq_ok_iff.mpr hget', heq⟩

lemma Alike.get_error (h : symbols.Alike symbols') {id : SymbolId} {defect : Defect}
    (hget : symbols.get id = .error defect) : symbols'.get id = .error defect := by
  have hsame := h id.index
  unfold SymbolTable.get at hget ⊢
  split at hget
  · cases hget
  · rename_i hnone
    rw [hnone, Option.map_none, eq_comm, Option.map_eq_none_iff] at hsame
    rw [hsame]
    exact hget

/-- What is made of a symbol without a look at its place is the same for both tables. -/
lemma Alike.get_bind {α : Type} (h : symbols.Alike symbols') (id : SymbolId)
    {next : Symbol → Except Defect α}
    (hnext : ∀ {a b : Symbol}, a.unplaced = b.unplaced → next a = next b) :
    (symbols.get id >>= next) = (symbols'.get id >>= next) := by
  cases hget : symbols.get id with
  | error defect => rw [h.get_error hget]
  | ok symbol =>
    obtain ⟨symbol', hget', heq⟩ := h.get hget
    rw [hget']
    exact hnext heq

lemma Alike.nameOf (h : symbols.Alike symbols') (id : SymbolId) :
    symbols.nameOf id = symbols'.nameOf id := by
  have hname : ∀ table : SymbolTable, table.nameOf id =
      ((table.entries[id.index]?.map Symbol.unplaced).map Symbol.name).getD "" := by
    intro table
    unfold SymbolTable.nameOf
    cases table.entries[id.index]? <;> rfl
  rw [hname, hname, h id.index]

lemma Alike.size_eq (h : symbols.Alike symbols') : symbols.size = symbols'.size := by
  have hlt : ∀ {a b : SymbolTable}, a.Alike b → ∀ i, i < a.size → i < b.size := by
    intro a b hab i hi
    obtain ⟨symbol', hget, -⟩ := hab.entry (Array.getElem?_eq_getElem hi)
    exact lt_size_of_getElem? hget
  have h₁ := hlt h
  have h₂ := hlt h.symm
  rcases Nat.lt_trichotomy symbols.size symbols'.size with hlt | heq | hgt
  · exact absurd (h₂ _ hlt) (Nat.lt_irrefl _)
  · exact heq
  · exact absurd (h₁ _ hgt) (Nat.lt_irrefl _)

lemma Alike.hasSort (h : symbols.Alike symbols') {sort : SymbolSort} {id : SymbolId}
    (hid : symbols.HasSort sort id) : symbols'.HasSort sort id := by
  obtain ⟨symbol, hget, hsort⟩ := hid
  obtain ⟨symbol', hget', heq⟩ := h.entry hget
  exact ⟨symbol', hget', (Symbol.sort_eq heq).symm.trans hsort⟩

lemma Alike.hasVariable (h : symbols.Alike symbols') {owner : Option SymbolId} {id : SymbolId}
    (hid : symbols.HasVariable owner id) : symbols'.HasVariable owner id := by
  obtain ⟨symbol, hget, hvar⟩ := hid
  obtain ⟨symbol', hget', heq⟩ := h.entry hget
  exact ⟨symbol', hget', (Symbol.isVariableOf_eq heq owner).symm.trans hvar⟩

lemma Alike.locals (h : symbols.Alike symbols') (owner : Option SymbolId) :
    symbols.locals owner = symbols'.locals owner := by
  refine localsFrom_congr ?_ 0
  apply List.ext_getElem?
  intro i
  simp only [List.getElem?_map, Array.getElem?_toList]
  cases hget : symbols.entries[i]? with
  | none =>
    have := h i
    rw [hget] at this
    cases hget' : symbols'.entries[i]? with
    | none => rfl
    | some symbol => simp [hget'] at this
  | some symbol =>
    obtain ⟨symbol', hget', heq⟩ := h.entry hget
    rw [hget']
    simp [Symbol.isVariableOf_eq heq owner]

/-- A symbol may be replaced by one that differs in its place. -/
lemma alike_replace {id : SymbolId} {old new : Symbol}
    (hold : symbols.entries[id.index]? = some old) (heq : new.unplaced = old.unplaced) :
    (symbols.replace id new).Alike symbols := by
  intro i
  rw [replace_getElem? (lt_size_of_getElem? hold)]
  split
  · rename_i hi
    rw [hi, hold, Option.map_some, Option.map_some, heq]
  · rfl

end SymbolTable

/-! ## What does not look at places -/

namespace Node

variable {types : TypeTable} {symbols symbols' : SymbolTable} {node : Node}

lemma symbolType_eq (h : symbols.Alike symbols') (symbol? : Option SymbolId) :
    symbolType symbols symbol? = symbolType symbols' symbol? := by
  cases symbol? with
  | none => rfl
  | some id =>
    refine h.get_bind id fun heq => ?_
    rw [Symbol.type?_eq heq]

lemma type_eq (h : symbols.Alike symbols') (node : Node) :
    node.type symbols = node.type symbols' := by
  induction node using Node.induction with
  | step node ih =>
    cases node with
    | binary loc op lhs rhs =>
      cases op with
      | compare op => rfl
      | assign | arith op => exact ih lhs (by simp [parts])
    | varDecl loc symbol? | varRef loc symbol? => exact symbolType_eq h symbol?
    | call loc callee? args =>
      cases callee? with
      | none => rfl
      | some id =>
        refine h.get_bind id fun {a b} heq => ?_
        have hsort := Symbol.sort_eq heq
        rw [Symbol.type?_eq heq]
        cases ha : a.kind <;> cases hb : b.kind <;> simp_all [SymbolKind.sort]
    | integer loc value => cases value <;> rfl
    | _ => rfl

lemma type_congr (h : symbols.Alike symbols') (node : Node) {type : TypeId}
    (htype : node.type symbols = .ok type) : node.type symbols' = .ok type :=
  (type_eq h node).symm.trans htype

lemma types_congr (h : symbols.Alike symbols') {nodes : List Node} {got : List TypeId}
    (hgot : nodes.mapM (·.type symbols) = .ok got) :
    nodes.mapM (·.type symbols') = .ok got := by
  have hsame : (fun node : Node => node.type symbols') = fun node => node.type symbols :=
    funext fun node => (type_eq h node).symm
  rw [hsame]
  exact hgot

lemma deepType_eq (h : symbols.Alike symbols') (node : Node) :
    node.deepType ⟨types, symbols⟩ = node.deepType ⟨types, symbols'⟩ := by
  rw [deepType, deepType, type_eq h]

lemma deepType_congr (h : symbols.Alike symbols') {root : TypeId}
    (hroot : node.deepType ⟨types, symbols⟩ = .ok root) :
    node.deepType ⟨types, symbols'⟩ = .ok root :=
  (deepType_eq h node).symm.trans hroot

lemma Valid.congr (h : symbols.Alike symbols') (hnode : node.Valid ⟨types, symbols⟩) :
    node.Valid ⟨types, symbols'⟩ := by
  cases node with
  | varDecl loc symbol? => exact fun id hid => h.hasSort (hnode id hid)
  | varRef loc symbol? => exact fun id hid => h.hasSort (hnode id hid)
  | externDecl loc symbol? => exact fun id hid => h.hasSort (hnode id hid)
  | call loc callee? args => exact fun id hid => h.hasSort (hnode id hid)
  | typedefDecl loc symbol? => exact fun id hid => h.hasSort (hnode id hid)
  | functionDef loc symbol? params body =>
    exact ⟨fun id hid => h.hasSort (hnode.1 id hid), fun id hid => h.hasSort (hnode.2 id hid)⟩
  | returnVoid loc function => exact h.hasSort hnode
  | returnValue loc value function => exact h.hasSort hnode
  | _ => exact hnode

lemma Fits.congr (h : symbols.Alike symbols') {owner : Option SymbolId}
    (hnode : node.Fits symbols owner) : node.Fits symbols' owner := by
  induction hnode with
  | @intro owner node named flat below ih =>
    refine .intro ?_ flat ih
    cases node with
    | varRef loc symbol? =>
      obtain ⟨id, hid, hvar⟩ := named
      exact ⟨id, hid, h.hasVariable hvar⟩
    | _ => exact named

lemma ReturnRule.congr (h : symbols.Alike symbols') {got : TypeId} {function : SymbolId}
    (hrule : ReturnRule ⟨types, symbols⟩ got function) :
    ReturnRule ⟨types, symbols'⟩ got function := by
  obtain ⟨symbol, hget, htype⟩ := hrule
  obtain ⟨symbol', hget', heq⟩ := h.get hget
  exact ⟨symbol', hget', (Symbol.type?_eq heq).symm.trans htype⟩

lemma SignatureRule.congr (h : symbols.Alike symbols') {symbol? : Option SymbolId}
    (hrule : SignatureRule ⟨types, symbols⟩ symbol?) :
    SignatureRule ⟨types, symbols'⟩ symbol? := by
  intro id hid symbol' hget' params prototyped external hkind'
  obtain ⟨symbol, hget, heq⟩ := h.symm.get hget'
  obtain ⟨hparams, result, hresult, hfits⟩ := hrule id hid symbol hget params prototyped external
    (Symbol.kind_eq_of_function heq hkind')
  exact ⟨hparams, result, (Symbol.type?_eq heq).trans hresult, hfits⟩

lemma CallRule.congr (h : symbols.Alike symbols') {callee? : Option SymbolId} {args : List Node}
    (hrule : CallRule ⟨types, symbols⟩ callee? args) :
    CallRule ⟨types, symbols'⟩ callee? args := by
  intro id hid symbol' hget' params prototyped external hkind'
  obtain ⟨symbol, hget, heq⟩ := h.symm.get hget'
  have hcall := hrule id hid symbol hget params prototyped external
    (Symbol.kind_eq_of_function heq hkind')
  cases prototyped with
  | true => exact types_congr h hcall
  | false =>
    intro arg harg hvoid
    exact hcall arg harg (type_congr h.symm arg hvoid)

/-- The rules do not look at places. -/
lemma Rule.congr (h : symbols.Alike symbols') (hrule : node.Rule ⟨types, symbols⟩) :
    node.Rule ⟨types, symbols'⟩ := by
  cases node with
  | binary loc op lhs rhs =>
    obtain ⟨type, hleft, hright, hrest⟩ := hrule
    exact ⟨type, type_congr h lhs hleft, type_congr h rhs hright, hrest⟩
  | call loc callee? args => exact CallRule.congr h hrule
  | ifThen loc cond body => exact type_congr h cond hrule
  | ifElse loc cond thenBody elseBody => exact type_congr h cond hrule
  | whileLoop loc cond body => exact type_congr h cond hrule
  | forLoop loc init cond step body => exact type_congr h cond hrule
  | cast loc target operand =>
    obtain ⟨hstruct, source, info, hdeep, hrest⟩ := hrule
    exact ⟨hstruct, source, info, deepType_congr h hdeep, hrest⟩
  | varDecl loc symbol? =>
    obtain ⟨type, root, htype, hrest⟩ := hrule
    exact ⟨type, root, (symbolType_eq h symbol?).symm.trans htype, hrest⟩
  | functionDef loc symbol? params body => exact SignatureRule.congr h hrule
  | externDecl loc symbol? => exact SignatureRule.congr h hrule
  | returnVoid loc function => exact ReturnRule.congr h hrule
  | returnValue loc value function =>
    obtain ⟨got, hgot, hreturn⟩ := hrule
    exact ⟨got, type_congr h value hgot, ReturnRule.congr h hreturn⟩
  | _ => trivial

lemma Accepted.congr (h : symbols.Alike symbols') (hnode : node.Accepted ⟨types, symbols⟩) :
    node.Accepted ⟨types, symbols'⟩ := by
  refine ⟨hnode.rule.congr h, ?_⟩
  have hsupported := hnode.supported
  cases node with
  | cast loc target operand =>
    cases hdeep : operand.deepType ⟨types, symbols⟩ with
    | error defect => simp [unsupportedCast?, hdeep, bind, Except.bind] at hsupported
    | ok source =>
      simp only [unsupportedCast?, hdeep, bind, Except.bind] at hsupported
      simp only [unsupportedCast?, deepType_congr h hdeep, bind, Except.bind]
      exact hsupported
  | _ => rfl

/-- A node that was read and checked without findings, with everything below it. -/
structure Checked (tables : Tables) (owner : Option SymbolId) (node : Node) : Prop where
  /-- Numbers are numbers of entries. -/
  valid : node.AllValid tables
  /-- Rules are kept. -/
  accepted : ∀ n ∈ node.checkOrder, n.Accepted tables
  /-- Names mean what they have to. -/
  fits : node.Fits tables.symbols owner

namespace Checked

variable {tables : Tables} {owner : Option SymbolId}

lemma part (h : node.Checked tables owner) {part : Node} (hpart : part ∈ node.parts) :
    part.Checked tables (node.frame owner) where
  valid := h.valid.part hpart
  accepted n hn := h.accepted n
    (mem_checkOrder.mpr (Or.inr (mem_checkOrderAll.mpr ⟨part, hpart, hn⟩)))
  fits := h.fits.parts part hpart

lemma rule (h : node.Checked tables owner) : node.Rule tables :=
  (h.accepted node (self_mem_checkOrder node)).rule

lemma congr (h : symbols.Alike symbols') (hnode : node.Checked ⟨types, symbols⟩ owner) :
    node.Checked ⟨types, symbols'⟩ owner where
  valid n hn := (hnode.valid n hn).congr h
  accepted n hn := (hnode.accepted n hn).congr h
  fits := hnode.fits.congr h

end Checked

end Node

/-- Completeness does not look at places. -/
lemma Tables.Complete.congr {types : TypeTable} {symbols symbols' : SymbolTable}
    (h : symbols.Alike symbols') (hscopes : symbols'.scopes = symbols.scopes)
    (complete : (⟨types, symbols⟩ : Tables).Complete) :
    (⟨types, symbols'⟩ : Tables).Complete := by
  refine ⟨⟨complete.sound.types, ?_, ?_⟩, ?_⟩
  · intro i symbol' hget'
    obtain ⟨symbol, hget, heq⟩ := h.symm.entry hget'
    have hsound := complete.sound.symbol hget
    refine ⟨?_, ?_, ?_, ?_⟩
    · intro type htype
      exact hsound.typed ((Symbol.type?_eq heq).symm.trans htype)
    · intro hsort
      rw [Symbol.sort_eq heq] at hsort
      rw [Symbol.type?_eq heq]
      exact hsound.named hsort
    · intro params prototyped external hkind
      exact hsound.params (Symbol.kind_eq_of_function heq hkind)
    · intro offset f hkind
      -- a variable may have got a place, but its owner is the same
      have hkinds := Symbol.kind_eq heq
      rw [hkind] at hkinds
      cases hold : symbol.kind with
      | localVar offset' function =>
        rw [hold] at hkinds
        simp only [SymbolKind.unplaced, SymbolKind.localVar.injEq, true_and] at hkinds
        rw [← hkinds] at hold
        exact h.size_eq ▸ hsound.owner hold
      | function => simp [hold, SymbolKind.unplaced] at hkinds
      | type => simp [hold, SymbolKind.unplaced] at hkinds
  · intro scope hscope pair hpair
    rw [hscopes] at hscope
    exact h.size_eq ▸ complete.sound.scopes scope hscope pair hpair
  · intro i symbol' hget'
    obtain ⟨symbol, hget, heq⟩ := h.symm.entry hget'
    rw [Symbol.type?_eq heq]
    exact complete.typed hget

end ParenC
