/-
The typing rules as a judgement, and checking as its decision procedure.

`Node.WellTyped` says what a construct has to satisfy, given the function around it: it knows
nothing of the order in which rules are applied, of findings or of failures.  Types are compared
under the names that the program gives them; where a rule asks what values are made of,
`TypeTable.Deep` follows the definitions.  Checking a program that was read without findings
accepts it just if every construct in it is well-typed, and it gives up just on a cast from a
struct.
-/
import Mathlib.Data.List.Forall2
import ParenC.Proofs.Reading.Resolution
import ParenC.Proofs.Typing

namespace ParenC

/-! ## What a type is made of -/

namespace TypeTable

variable {table : TypeTable} {id root : TypeId} {shape : Shape}

/-- Values of the type `id` are made of `shape`, which is found by following definitions. -/
inductive Deep (table : TypeTable) : TypeId → Shape → Prop
  | builtin {id : TypeId} {info : TypeInfo} {which : Builtin}
      (hget : table.entries[id.index]? = some info) (hshape : info.shape = .builtin which) :
      Deep table id (.builtin which)
  | struct {id : TypeId} {info : TypeInfo} {fields : List Field}
      (hget : table.entries[id.index]? = some info) (hshape : info.shape = .struct fields) :
      Deep table id (.struct fields)
  | definition {id target : TypeId} {info : TypeInfo} {name : String} {shape : Shape}
      (hget : table.entries[id.index]? = some info)
      (hshape : info.shape = .definition name target) (htarget : Deep table target shape) :
      Deep table id shape

/-- A type is made of one thing only. -/
lemma Deep.unique {shape' : Shape} (h : table.Deep id shape) (h' : table.Deep id shape') :
    shape = shape' := by
  induction h with
  | builtin hget hshape | struct hget hshape =>
    cases h' with
    | builtin hget' hshape' | struct hget' hshape' | definition hget' hshape' htarget' =>
      rw [hget] at hget'
      cases hget'
      simp_all
  | definition hget hshape htarget ih =>
    cases h' with
    | builtin hget' hshape' | struct hget' hshape' =>
      rw [hget] at hget'
      cases hget'
      simp_all
    | definition hget' hshape' htarget' =>
      rw [hget] at hget'
      cases hget'
      rw [hshape] at hshape'
      cases hshape'
      exact ih htarget'

/-- What is not a definition is made of itself. -/
lemma Deep.of_concrete {info : TypeInfo} (hget : table.entries[id.index]? = some info)
    (hconcrete : ∀ name target, info.shape ≠ .definition name target) :
    table.Deep id info.shape := by
  cases hshape : info.shape with
  | builtin which => exact .builtin hget hshape
  | struct fields => exact .struct hget hshape
  | definition name target => exact absurd hshape (hconcrete name target)

lemma deep_of_resolveWithin {steps : Nat} (h : table.resolveWithin steps id = .ok root)
    (hroot : table.Deep root shape) : table.Deep id shape := by
  induction steps generalizing id with
  | zero => simp [resolveWithin] at h
  | succ steps ih =>
    cases hget : table.get id with
    | error defect => simp [resolveWithin, hget, bind, Except.bind] at h
    | ok info =>
      simp only [resolveWithin, hget, bind, Except.bind] at h
      split at h
      · rename_i name target hshape
        exact .definition (get_eq_ok_iff.mp hget) hshape (ih h)
      · cases h
        exact hroot

lemma Denotes.deep {info : TypeInfo} (h : table.Denotes id root info) :
    table.Deep id info.shape :=
  deep_of_resolveWithin h.resolve (.of_concrete (get_eq_ok_iff.mp h.get) h.concrete)

lemma Denotes.deep_iff {info : TypeInfo} (h : table.Denotes id root info) :
    table.Deep id shape ↔ info.shape = shape :=
  ⟨fun hdeep => h.deep.unique hdeep, fun heq => heq ▸ h.deep⟩

/-- Values of the type fit into a register. -/
def Scalar (table : TypeTable) (id : TypeId) : Prop :=
  ∃ which, table.Deep id (.builtin which) ∧ which.isScalar = true

/-- The type is a struct, under whatever name. -/
def Composite (table : TypeTable) (id : TypeId) : Prop := ∃ fields, table.Deep id (.struct fields)

lemma Sound.isScalar_iff (sound : table.Sound) (h : table.Has id) :
    table.isScalar id = .ok true ↔ table.Scalar id := by
  obtain ⟨root, info, hd⟩ := sound.denotes h
  cases hshape : info.shape <;>
    simp [isScalar, Scalar, hd.deepShape, hd.deep_iff, hshape, bind, Except.bind, pure, Except.pure]

lemma Sound.isStruct_iff (sound : table.Sound) (h : table.Has id) :
    table.isStruct id = .ok false ↔ ¬ table.Composite id := by
  obtain ⟨root, info, hd⟩ := sound.denotes h
  cases hshape : info.shape <;>
    simp [isStruct, Composite, hd.deepShape, hd.deep_iff, hshape, bind, Except.bind, pure,
      Except.pure]

end TypeTable

/-! ## The judgement -/

namespace Node

variable {tables : Tables} {owner : Option SymbolId} {node : Node}

/-- The node has this type, under the name that the program gives it. -/
def HasType (tables : Tables) (node : Node) (type : TypeId) : Prop :=
  node.type tables.symbols = .ok type

/-- The function `id` has these parameters and this result. -/
def Signature (tables : Tables) (id : SymbolId) (params : List Param) (prototyped : Bool)
    (result : TypeId) : Prop :=
  ∃ symbol external, tables.symbols.entries[id.index]? = some symbol ∧
    symbol.kind = .function params prototyped external ∧ symbol.type? = some result

/-- What goes into a function and what comes out of it fits into registers. -/
def SignatureFits (tables : Tables) (function? : Option SymbolId) : Prop :=
  ∃ id params prototyped result, function? = some id ∧
    Signature tables id params prototyped result ∧
    (∀ param ∈ params, tables.types.Scalar param.type) ∧
    (result = Builtin.void.id ∨ tables.types.Scalar result)

/-- The function around gives back this type. -/
def Returns (tables : Tables) (owner : Option SymbolId) (type : TypeId) : Prop :=
  ∃ id params prototyped, owner = some id ∧ Signature tables id params prototyped type

/-- The typing rule of a construct that stands in the function `owner`. -/
def WellTyped (tables : Tables) (owner : Option SymbolId) : Node → Prop
  | binary _ op lhs rhs => ∃ type, lhs.HasType tables type ∧ rhs.HasType tables type ∧
      type ≠ Builtin.void.id ∧ ¬ tables.types.Composite type ∧
      (op = .assign → lhs.isStorage = true)
  | call _ callee? args => ∃ id params prototyped result, callee? = some id ∧
      Signature tables id params prototyped result ∧
      if prototyped then List.Forall₂ (fun arg param => arg.HasType tables param.type) args params
      else ∀ arg ∈ args, ¬ arg.HasType tables Builtin.void.id
  | ifThen _ cond _ | ifElse _ cond _ _ | whileLoop _ cond _ | forLoop _ _ cond _ _ =>
    cond.HasType tables Builtin.bool.id
  | cast _ target operand => ¬ tables.types.Composite target ∧
      ∃ type, operand.HasType tables type ∧ tables.types.Scalar type
  | varDecl _ symbol? => ∃ id symbol type, symbol? = some id ∧
      tables.symbols.entries[id.index]? = some symbol ∧ symbol.type? = some type ∧
      ¬ tables.types.Deep type (.builtin .void)
  | functionDef _ function? _ _ | externDecl _ function? => SignatureFits tables function?
  | returnVoid _ _ => Returns tables owner Builtin.void.id
  | returnValue _ value _ => ∃ type, value.HasType tables type ∧ Returns tables owner type
  | _ => True

/-- The node is a cast from a struct, for which there is no code. -/
def CastsStruct (tables : Tables) : Node → Prop
  | cast _ _ operand => ∃ type, operand.HasType tables type ∧ tables.types.Composite type
  | _ => False

/-! ### The rules that are applied -/

/-- The function behind a number that means one. -/
lemma signature_ok (complete : tables.Complete) {id : SymbolId}
    (h : tables.symbols.HasSort .function id) : ∃ symbol params prototyped external result,
      tables.symbols.entries[id.index]? = some symbol ∧
      symbol.kind = .function params prototyped external ∧ symbol.type? = some result ∧
      tables.types.Has result ∧ ∀ param ∈ params, tables.types.Has param.type := by
  obtain ⟨symbol, params, prototyped, external, hget, hkind⟩ := h.exists_function
  obtain ⟨result, htype, -, hhas⟩ := complete.type hget
  exact ⟨symbol, params, prototyped, external, result, hget, hkind, htype, hhas,
    (complete.sound.symbol hget).params hkind⟩

/-- A function has one signature. -/
lemma Signature.unique {id : SymbolId} {params params' : List Param}
    {prototyped prototyped' : Bool} {result result' : TypeId}
    (h : Signature tables id params prototyped result)
    (h' : Signature tables id params' prototyped' result') :
    params' = params ∧ prototyped' = prototyped ∧ result' = result := by
  obtain ⟨symbol, external, hget, hkind, htype⟩ := h
  obtain ⟨symbol', external', hget', hkind', htype'⟩ := h'
  rw [hget] at hget'
  cases hget'
  rw [hkind] at hkind'
  rw [htype] at htype'
  cases hkind'
  cases htype'
  exact ⟨rfl, rfl, rfl⟩

lemma wellTyped_binary_iff (complete : tables.Complete) {loc : Location} {op : BinOp}
    {lhs rhs : Node} (hlhs : lhs.AllValid tables) :
    (binary loc op lhs rhs).WellTyped tables owner ↔ BinaryRule tables op lhs rhs := by
  obtain ⟨left, hleft, hhas⟩ := type_ok complete lhs hlhs
  refine exists_congr fun type => and_congr_right fun hl => ?_
  have hsame : left = type := Except.ok.inj (hleft.symm.trans hl)
  rw [← complete.sound.types.isStruct_iff (hsame ▸ hhas)]
  rfl

/-- The types of several nodes, one by one. -/
lemma types_eq_ok_iff {symbols : SymbolTable} {args : List Node} {params : List Param} :
    args.mapM (·.type symbols) = .ok (params.map (·.type)) ↔
      List.Forall₂ (fun arg param => arg.type symbols = .ok param.type) args params := by
  induction args generalizing params with
  | nil => cases params <;> simp [pure, Except.pure, List.forall₂_nil_left_iff]
  | cons arg args ih =>
    rw [List.mapM_cons]
    cases params with
    | nil =>
      cases harg : arg.type symbols <;> cases hargs : args.mapM (·.type symbols) <;>
        simp [List.forall₂_nil_right_iff, bind, Except.bind, pure, Except.pure]
    | cons param params =>
      rw [List.forall₂_cons, ← ih]
      cases harg : arg.type symbols <;> cases hargs : args.mapM (·.type symbols) <;>
        simp [bind, Except.bind, pure, Except.pure]

lemma wellTyped_call_iff (complete : tables.Complete) {loc : Location} {id : SymbolId}
    {args : List Node} (h : tables.symbols.HasSort .function id) :
    (call loc (some id) args).WellTyped tables owner ↔ CallRule tables (some id) args := by
  obtain ⟨symbol, params, prototyped, external, result, hget, hkind, htype, -, -⟩ :=
    signature_ok complete h
  have hsignature : Signature tables id params prototyped result :=
    ⟨symbol, external, hget, hkind, htype⟩
  constructor
  · rintro ⟨_, params', prototyped', result', ⟨⟩, hsignature', hargs⟩
    obtain ⟨rfl, rfl, -⟩ := hsignature.unique hsignature'
    rintro _ ⟨⟩ symbol' hget' params₂ prototyped₂ external₂ hkind'
    rw [SymbolTable.get_eq_ok_iff, hget] at hget'
    cases hget'
    rw [hkind] at hkind'
    cases hkind'
    rw [types_eq_ok_iff]
    exact hargs
  · intro hrule
    have hargs := hrule id rfl symbol (SymbolTable.get_eq_ok_iff.mpr hget) params prototyped
      external hkind
    rw [types_eq_ok_iff] at hargs
    exact ⟨id, params, prototyped, result, rfl, hsignature, hargs⟩

lemma wellTyped_cast_iff (complete : tables.Complete) {loc : Location} {target : TypeId}
    {operand : Node} (htarget : tables.types.Has target) (hoperand : operand.AllValid tables) :
    (cast loc target operand).WellTyped tables owner ↔
      (cast loc target operand).Accepted tables := by
  obtain ⟨type, htype, hhas⟩ := type_ok complete operand hoperand
  obtain ⟨source, info, hd⟩ := complete.sound.types.denotes hhas
  have hdeep : operand.deepType tables = .ok source := by
    simp [deepType, htype, hd.resolve, bind, Except.bind]
  -- what remains is the shape at the end of the chain: only a scalar is neither void nor a struct
  have hoperand : (∃ type, operand.HasType tables type ∧ tables.types.Scalar type) ↔
      info.shape ≠ .builtin .void ∧ ∃ which, info.shape = .builtin which := by
    simp only [HasType, htype, Except.ok.injEq, exists_eq_left', TypeTable.Scalar, hd.deep_iff]
    constructor
    · rintro ⟨which, hshape, hscalar⟩
      refine ⟨?_, which, hshape⟩
      rw [hshape]
      rintro ⟨⟩
      cases hscalar
    · rintro ⟨hvoid, which, hshape⟩
      refine ⟨which, hshape, ?_⟩
      cases which <;> first | rfl | exact absurd hshape hvoid
  have hsupported : (cast loc target operand).unsupportedCast? tables = .ok none ↔
      ∃ which, info.shape = .builtin which := by
    cases hshape : info.shape <;>
      simp [unsupportedCast?, hdeep, hd.get, hshape, bind, Except.bind, pure, Except.pure]
  have hrule : CastRule tables target operand ↔
      ¬ tables.types.Composite target ∧ info.shape ≠ .builtin .void := by
    simp [CastRule, complete.sound.types.isStruct_iff htarget, hdeep, hd.get]
  have haccepted : (cast loc target operand).Accepted tables ↔
      CastRule tables target operand ∧ ∃ which, info.shape = .builtin which :=
    ⟨fun h => ⟨h.rule, hsupported.mp h.supported⟩, fun h => ⟨h.1, hsupported.mpr h.2⟩⟩
  rw [haccepted, hrule]
  simp only [WellTyped, hoperand, and_assoc]

lemma wellTyped_varDecl_iff (complete : tables.Complete) {loc : Location} {id : SymbolId}
    (h : tables.symbols.HasSort .localVar id) :
    (varDecl loc (some id)).WellTyped tables owner ↔ VariableRule tables (some id) := by
  obtain ⟨symbol, hget, -⟩ := h
  obtain ⟨type, htype, -, hhas⟩ := complete.type hget
  obtain ⟨root, info, hd⟩ := complete.sound.types.denotes hhas
  have hvoid := hd.root_eq_iff complete.sound.types .void
  simp [WellTyped, VariableRule, symbolType, SymbolTable.get_eq_ok_iff.mpr hget, hget, htype,
    hd.resolve, hd.deep_iff, hvoid, bind, Except.bind, pure, Except.pure]

lemma signatureFits_iff (complete : tables.Complete) {id : SymbolId}
    (h : tables.symbols.HasSort .function id) :
    SignatureFits tables (some id) ↔ SignatureRule tables (some id) := by
  obtain ⟨symbol, params, prototyped, external, result, hget, hkind, htype, hhas, hparams⟩ :=
    signature_ok complete h
  have hsignature : Signature tables id params prototyped result :=
    ⟨symbol, external, hget, hkind, htype⟩
  have hscalar : ∀ param ∈ params,
      (tables.types.isScalar param.type = .ok true ↔ tables.types.Scalar param.type) :=
    fun param hparam => complete.sound.types.isScalar_iff (hparams param hparam)
  constructor
  · rintro ⟨_, params', prototyped', result', ⟨⟩, hsignature', hfit, hresult⟩
    -- a function has one signature, so the rule and the judgement speak of the same
    obtain ⟨rfl, rfl, rfl⟩ := hsignature.unique hsignature'
    rintro _ ⟨⟩ symbol' hget' params₂ prototyped₂ external₂ hkind'
    rw [SymbolTable.get_eq_ok_iff, hget] at hget'
    cases hget'
    rw [hkind] at hkind'
    cases hkind'
    refine ⟨fun param hparam => (hscalar param hparam).mpr (hfit param hparam), _, htype, ?_⟩
    rwa [complete.sound.types.isScalar_iff hhas]
  · intro hrule
    obtain ⟨hfit, result', htype', hresult⟩ :=
      hrule id rfl symbol (SymbolTable.get_eq_ok_iff.mpr hget) params prototyped external hkind
    rw [htype] at htype'
    cases htype'
    rw [complete.sound.types.isScalar_iff hhas] at hresult
    exact ⟨id, params, prototyped, result, rfl, hsignature,
      fun param hparam => (hscalar param hparam).mp (hfit param hparam), hresult⟩

lemma returns_iff (complete : tables.Complete) {id : SymbolId} {type : TypeId}
    (h : tables.symbols.HasSort .function id) :
    Returns tables (some id) type ↔ ReturnRule tables type id := by
  obtain ⟨symbol, params, prototyped, external, result, hget, hkind, htype, -, -⟩ :=
    signature_ok complete h
  constructor
  · rintro ⟨_, params', prototyped', ⟨⟩, symbol', external', hget', -, htype'⟩
    exact ⟨symbol', SymbolTable.get_eq_ok_iff.mpr hget', htype'⟩
  · rintro ⟨symbol', hget', htype'⟩
    rw [SymbolTable.get_eq_ok_iff, hget] at hget'
    cases hget'
    exact ⟨id, params, prototyped, rfl, symbol, external, hget, hkind, htype'⟩

/-- Apart from casts, a node is accepted if its rule is kept. -/
lemma accepted_iff_rule (h : node.unsupportedCast? tables = .ok none) :
    node.Accepted tables ↔ node.Rule tables :=
  ⟨fun h => h.rule, fun hrule => ⟨hrule, h⟩⟩

/-- The rules that are applied are those of the judgement. -/
theorem wellTyped_iff_accepted (complete : tables.Complete) (hvalid : node.AllValid tables)
    (hnamed : node.Named tables.symbols owner) :
    node.WellTyped tables owner ↔ node.Accepted tables := by
  have hpart : ∀ part ∈ node.parts, part.AllValid tables := fun part => hvalid.part
  have hself := hvalid.self
  -- constructs that mention a symbol were read with one
  cases node with
  | cast loc target operand =>
    exact wellTyped_cast_iff complete hself (hpart operand (by simp [parts]))
  | binary loc op lhs rhs =>
    rw [accepted_iff_rule rfl]
    exact wellTyped_binary_iff complete (hpart lhs (by simp [parts]))
  | call loc callee? args =>
    obtain ⟨id, rfl⟩ := Option.ne_none_iff_exists'.mp hnamed
    rw [accepted_iff_rule rfl]
    exact wellTyped_call_iff complete (hself id rfl)
  | varDecl loc symbol? =>
    obtain ⟨id, rfl⟩ := Option.ne_none_iff_exists'.mp hnamed
    rw [accepted_iff_rule rfl]
    exact wellTyped_varDecl_iff complete (hself id rfl)
  | functionDef loc symbol? params body =>
    obtain ⟨id, rfl⟩ := Option.ne_none_iff_exists'.mp hnamed
    rw [accepted_iff_rule rfl]
    exact signatureFits_iff complete (hself.1 id rfl)
  | externDecl loc symbol? =>
    obtain ⟨id, rfl⟩ := Option.ne_none_iff_exists'.mp hnamed
    rw [accepted_iff_rule rfl]
    exact signatureFits_iff complete (hself id rfl)
  | returnVoid loc function =>
    obtain rfl := hnamed
    rw [accepted_iff_rule rfl]
    exact returns_iff complete hself
  | returnValue loc value function =>
    obtain rfl := hnamed
    rw [accepted_iff_rule rfl]
    exact exists_congr fun type => and_congr_right fun _ => returns_iff complete hself
  | _ => rw [accepted_iff_rule rfl]; exact Iff.rfl

/-- There is no code just for casts from structs. -/
lemma castsStruct_iff (complete : tables.Complete) (hvalid : node.AllValid tables) :
    node.CastsStruct tables ↔ node.unsupportedCast? tables ≠ .ok none := by
  cases node with
  | cast loc target operand =>
    obtain ⟨type, htype, hhas⟩ := type_ok complete operand (hvalid.part (by simp [parts]))
    obtain ⟨source, info, hd⟩ := complete.sound.types.denotes hhas
    have hdeep : operand.deepType tables = .ok source := by
      simp [deepType, htype, hd.resolve, bind, Except.bind]
    cases hshape : info.shape with
    | definition name target => exact absurd hshape (hd.concrete name target)
    | builtin which | struct fields =>
      simp [CastsStruct, HasType, TypeTable.Composite, unsupportedCast?, htype, hdeep, hd.get,
        hd.deep_iff, hshape, bind, Except.bind, pure, Except.pure]
  | _ => simp [CastsStruct, unsupportedCast?, pure, Except.pure]

end Node

/-! ## Checking -/

namespace Typing

open CompileM Workspace

variable {ws : Workspace} {node : Node}

/-- Run on `ws`, the action changes nothing but the journal.  It fails just if a construct is not
`supported`, on a feature that the backend lacks, and otherwise adds findings just if a rule is
not kept. -/
def Concludes (act : CompileM Unit) (ws : Workspace) (rules supported : Prop) : Prop :=
  match act ws with
  | .ok _ ws' => ws'.toTables = ws.toTables ∧ ws'.journal.file = ws.journal.file ∧ supported ∧
    (ws'.Quiet ↔ ws.Quiet ∧ rules)
  | .error failure _ => ¬ supported ∧
    ∃ loc feature earlier, failure = .error (.notImplemented ws.journal.file loc feature earlier)

namespace Concludes

variable {act : CompileM Unit} {rules supported : Prop}

lemma of_ok {ws' : Workspace} (hrun : act ws = .ok () ws') (htables : ws'.toTables = ws.toTables)
    (hfile : ws'.journal.file = ws.journal.file) (hsupported : supported)
    (hquiet : ws'.Quiet ↔ ws.Quiet ∧ rules) : Concludes act ws rules supported := by
  rw [Concludes, hrun]
  exact ⟨htables, hfile, hsupported, hquiet⟩

lemma pure : Concludes (Pure.pure ()) ws True True :=
  of_ok rfl rfl rfl trivial (by simp)

/-- One action after the other. -/
lemma seq {next : CompileM Unit} {rules' supported' : Prop}
    (h : Concludes act ws rules supported)
    (hnext : ∀ ws' : Workspace, ws'.toTables = ws.toTables →
      ws'.journal.file = ws.journal.file → Concludes next ws' rules' supported') :
    Concludes (act >>= fun _ => next) ws (rules ∧ rules') (supported ∧ supported') := by
  unfold Concludes at h ⊢
  simp only [bind, EStateM.bind]
  rcases hact : act ws with ⟨_, ws₁⟩ | ⟨failure, ws₁⟩
  · rw [hact] at h
    obtain ⟨htables, hfile, hsupported, hquiet⟩ := h
    have h' := hnext ws₁ htables hfile
    unfold Concludes at h'
    rcases hrun : next ws₁ with ⟨_, ws₂⟩ | ⟨failure, ws₂⟩
    · rw [hrun] at h'
      obtain ⟨htables', hfile', hsupported', hquiet'⟩ := h'
      simp only [hrun]
      refine ⟨htables'.trans htables, hfile'.trans hfile, ⟨hsupported, hsupported'⟩, ?_⟩
      rw [hquiet', hquiet, and_assoc]
    · rw [hrun] at h'
      simp only [hrun]
      rw [← hfile]
      exact ⟨fun hboth => h'.1 hboth.2, h'.2⟩
  · rw [hact] at h
    exact ⟨fun hboth => h.1 hboth.1, h.2⟩

lemma congr {rules' supported' : Prop} (h : Concludes act ws rules supported)
    (hrules : rules ↔ rules') (hsupported : supported ↔ supported') :
    Concludes act ws rules' supported' := by
  rwa [← propext hrules, ← propext hsupported]

end Concludes

lemma reportAll_concludes {types : TypeTable} {findings : List Finding} (sound : types.Sound)
    (h : ∀ finding ∈ findings, ∀ type ∈ finding.2.types, types.Has type) :
    Concludes (reportAll types findings) ws (findings = []) True := by
  induction findings generalizing ws with
  | nil => exact Concludes.pure.congr (by simp) Iff.rfl
  | cons finding rest ih =>
    obtain ⟨loc, violation⟩ := finding
    obtain ⟨message, hmessage⟩ := sound.message_ok (h (loc, violation) (by simp))
    have hreport : Concludes (report loc message) ws False True :=
      .of_ok rfl rfl rfl trivial (by simp [Quiet, Journal.report])
    have hboth := hreport.seq fun _ _ _ => ih fun finding hfinding => h finding (by simp [hfinding])
    simp only [reportAll, hmessage]
    exact hboth.congr (by simp) (by simp)

/-- Applying the rule of one node. -/
lemma checkNode_concludes (complete : ws.toTables.Complete) (h : node.AllValid ws.toTables) :
    Concludes (checkNode node) ws (node.Rule ws.toTables)
      (node.unsupportedCast? ws.toTables = .ok none) := by
  obtain ⟨findings, hviolations, hfinds⟩ := Node.decides_violations complete h
  obtain ⟨source?, hsource, hhas⟩ := Node.unsupportedCast?_ok complete h
  -- what is left to do when the findings are reported
  let rest : CompileM Unit := source?.elim (pure ()) fun source => do
    let description ← promised (ws.types.describe source)
    notImplemented node.location ("cast from type " ++ description)
  have hrest : ∀ ws' : Workspace, Concludes rest ws' True
      (node.unsupportedCast? ws.toTables = .ok none) := by
    intro ws'
    simp only [rest, hsource]
    cases source? with
    | none => exact Concludes.pure.congr Iff.rfl (by simp)
    | some source =>
      obtain ⟨text, htext⟩ := complete.sound.types.describe_ok (hhas source rfl)
      simp only [Option.elim_some, htext]
      exact ⟨by simp, _, _, _, rfl⟩
  have hsteps : checkNode node ws = (reportAll ws.types findings >>= fun _ => rest) ws := by
    simp only [checkNode, bind, EStateM.bind, get_run, hviolations, hsource]
    cases source? <;> rfl
  have hreports : Concludes (reportAll ws.types findings) ws (findings = []) True :=
    reportAll_concludes complete.sound.types hfinds.known
  have hboth := hreports.seq fun ws' _ _ => hrest ws'
  rw [Concludes, ← hsteps] at hboth
  exact Concludes.congr hboth (by simp [hfinds.nil_iff]) (by simp)

/-- Applying the rules of nodes, one after the other. -/
lemma checkAll_concludes {nodes : List Node} (complete : ws.toTables.Complete)
    (h : ∀ node ∈ nodes, node.AllValid ws.toTables) :
    Concludes (checkAll nodes) ws (∀ node ∈ nodes, node.Rule ws.toTables)
      (∀ node ∈ nodes, node.unsupportedCast? ws.toTables = .ok none) := by
  induction nodes generalizing ws with
  | nil => exact Concludes.pure.congr (by simp) (by simp)
  | cons node rest ih =>
    have hrest : ∀ ws' : Workspace, ws'.toTables = ws.toTables →
        ws'.journal.file = ws.journal.file →
        Concludes (checkAll rest) ws' (∀ node ∈ rest, node.Rule ws.toTables)
          (∀ node ∈ rest, node.unsupportedCast? ws.toTables = .ok none) := by
      intro ws' htables _
      rw [← htables] at complete h ⊢
      exact ih complete fun n hn => h n (by simp [hn])
    have hboth := (checkNode_concludes complete (h node (by simp))).seq hrest
    exact hboth.congr (by simp) (by simp)

end Typing

/-! ## Programs -/

namespace Program

open Node

variable {program : Program} {ws : Workspace}

/-- Every node to which a rule is applied stands somewhere in the program. -/
lemma exists_holds {node : Node} (h : node ∈ checkOrderAll program.items) :
    ∃ owner, program.Holds owner node := by
  have hbelow : ∀ {top : Node} {owner : Option SymbolId}, program.Holds owner top →
      ∀ n ∈ top.checkOrder, ∃ owner, program.Holds owner n := by
    intro top
    induction top using Node.induction with
    | step top ih =>
      intro owner htop n hn
      rcases mem_checkOrder.mp hn with rfl | hn
      · exact ⟨owner, htop⟩
      · obtain ⟨part, hpart, hn⟩ := Node.mem_checkOrderAll.mp hn
        exact ih part hpart (htop.inside hpart) n hn
  obtain ⟨top, htop, hnode⟩ := Node.mem_checkOrderAll.mp h
  exact hbelow (.top htop) node hnode

end Program

/-- Tables that grew from empty ones while a program was read are complete. -/
lemma Tables.complete_of_read {place : Place} {ws₀ ws : Workspace} {nodes : List Node}
    (hinitial : ws₀.toTables = {}) (hgrows : ws₀.Grows ws)
    (hread : Reading.Read place ws₀ nodes ws) : ws.toTables.Complete where
  sound := hgrows.sound (hinitial ▸ Tables.sound_initial)
  typed := by
    intro i symbol hget
    have hsize : ws₀.symbols.size = 0 := congrArg (·.symbols.size) hinitial
    exact hread.typed (by omega) hget

open Node in
/-- Checking decides the typing judgement.  A program that was read without findings is accepted
just if every construct in it is well-typed, and checking it fails just if it has a cast from a
struct: then always for want of an implementation. -/
theorem check_decides_wellTyped {file source : String} {tokens : List Token} {program : Program}
    {ws : Workspace} (h : ReadQuietly file source tokens program ws) :
    ((∃ ws', Typing.check program ws = .ok () ws' ∧ ws'.Quiet) ↔
      ∀ {owner node}, program.Holds owner node → node.WellTyped ws.toTables owner) ∧
    ((∃ failure ws', Typing.check program ws = .error failure ws') ↔
      ∃ owner node, program.Holds owner node ∧ node.CastsStruct ws.toTables) ∧
    ∀ {failure ws'}, Typing.check program ws = .error failure ws' → ∃ loc feature earlier,
      failure = .error (.notImplemented ws.journal.file loc feature earlier) := by
  obtain ⟨ws₀, hinitial, hgrows, hread, -⟩ := h.writes
  have hquiet : ws.Quiet := by
    obtain ⟨-, -, -, hquiet⟩ := h
    exact hquiet
  have complete := Tables.complete_of_read hinitial hgrows hread
  have hvalid : ∀ node ∈ checkOrderAll program.items, node.AllValid ws.toTables :=
    fun node hnode n hn => hread.valid n (checkOrderAll_trans hnode hn)
  have hjudged : ∀ {owner node}, program.Holds owner node →
      (node.WellTyped ws.toTables owner ↔ node.Accepted ws.toTables) := fun hholds =>
    wellTyped_iff_accepted complete (hvalid _ hholds.mem_checkOrderAll)
      (hholds.fits (hread.clean hquiet)).named
  have hcasts : ∀ {owner node}, program.Holds owner node →
      (node.CastsStruct ws.toTables ↔ node.unsupportedCast? ws.toTables ≠ .ok none) :=
    fun hholds => castsStruct_iff complete (hvalid _ hholds.mem_checkOrderAll)
  have hrun := Typing.checkAll_concludes complete hvalid
  change Typing.Concludes (Typing.check program) ws _ _ at hrun
  unfold Typing.Concludes at hrun
  rcases hcheck : Typing.check program ws with ⟨_, ws'⟩ | ⟨failure, ws'⟩
  · rw [hcheck] at hrun
    obtain ⟨-, -, hsupported, hrules⟩ := hrun
    refine ⟨?_, ?_, by simp⟩
    · simp only [EStateM.Result.ok.injEq, true_and, exists_eq_left', hrules, hquiet]
      constructor
      · intro hall owner node hholds
        have hnode := hholds.mem_checkOrderAll
        exact (hjudged hholds).mpr ⟨hall node hnode, hsupported node hnode⟩
      · intro hall node hnode
        obtain ⟨owner, hholds⟩ := Program.exists_holds hnode
        exact ((hjudged hholds).mp (hall hholds)).rule
    · constructor
      · rintro ⟨failure, ws'', hfails⟩
        cases hfails
      · rintro ⟨owner, node, hholds, hcast⟩
        exact absurd (hsupported node hholds.mem_checkOrderAll) ((hcasts hholds).mp hcast)
  · -- checking has given up, on a cast that is not well-typed either
    rw [hcheck] at hrun
    obtain ⟨hunsupported, hfailure⟩ := hrun
    obtain ⟨node, hnode, hne⟩ : ∃ node ∈ checkOrderAll program.items,
        node.unsupportedCast? ws.toTables ≠ .ok none := by
      push Not at hunsupported
      exact hunsupported
    obtain ⟨owner, hholds⟩ := Program.exists_holds hnode
    refine ⟨?_, ?_, ?_⟩
    · constructor
      · rintro ⟨ws'', hok, -⟩
        cases hok
      · intro hall
        exact absurd ((hjudged hholds).mp (hall hholds)).supported hne
    · exact ⟨fun _ => ⟨owner, node, hholds, (hcasts hholds).mpr hne⟩, fun _ => ⟨failure, ws', rfl⟩⟩
    · rintro _ _ ⟨⟩
      exact hfailure

/-- A program with a cast from a struct under another name, inside a function. -/
theorem check_decides_wellTyped_struct : ∃ tokens program ws,
    ReadQuietly "struct" "(typedef t (struct a: u64)) (defun f () u64 (let t x) (return (u64 x)))"
      tokens program ws ∧
    ((∃ ws', Typing.check program ws = .ok () ws' ∧ ws'.Quiet) ↔
      ∀ {owner node}, program.Holds owner node → node.WellTyped ws.toTables owner) ∧
    ((∃ failure ws', Typing.check program ws = .error failure ws') ↔
      ∃ owner node, program.Holds owner node ∧ node.CastsStruct ws.toTables) := by
  have hverdict : verdict "struct"
      "(typedef t (struct a: u64)) (defun f () u64 (let t x) (return (u64 x)))" = some true := by
    decide +kernel
  obtain ⟨tokens, program, ws, h⟩ := ReadQuietly.of_verdict hverdict
  obtain ⟨haccepts, hfails, -⟩ := check_decides_wellTyped h
  exact ⟨tokens, program, ws, h, haccepts, hfails⟩

end ParenC
