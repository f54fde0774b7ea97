/-
What checking a program relies on, and what it establishes.

Every rule has an answer on nodes whose numbers are numbers of entries, so checking meets no
defect.  If it finds nothing wrong, every node satisfies its rule, stated here as a proposition.
-/
import ParenC.Proofs.Reading.Nodes

namespace ParenC

/-- Sound tables in which no declaration is pending. -/
structure Tables.Complete (tables : Tables) : Prop where
  /-- Everything that is mentioned is there. -/
  sound : tables.Sound
  /-- Every symbol has its type. -/
  typed : ∀ {i : Nat} {symbol : Symbol}, tables.symbols.entries[i]? = some symbol →
    symbol.type? ≠ none

namespace Tables.Complete

variable {tables : Tables}

/-- A symbol of complete tables with its type. -/
lemma type (complete : tables.Complete) {i : Nat} {symbol : Symbol}
    (h : tables.symbols.entries[i]? = some symbol) :
    ∃ type, symbol.type? = some type ∧ symbol.type = .ok type ∧ tables.types.Has type := by
  obtain ⟨type, htype⟩ := Option.ne_none_iff_exists'.mp (complete.typed h)
  exact ⟨type, htype, Symbol.type_eq_ok_iff.mpr htype, (complete.sound.symbol h).typed htype⟩

lemma void (complete : tables.Complete) : tables.types.Has Builtin.void.id :=
  complete.sound.types.has_builtin .void

end Tables.Complete

namespace Node

variable {tables : Tables} {node : Node}

/-- The numbers in the node and below it are numbers of entries. -/
def AllValid (tables : Tables) (node : Node) : Prop := ∀ n ∈ node.checkOrder, n.Valid tables

lemma AllValid.self (h : node.AllValid tables) : node.Valid tables :=
  h node (self_mem_checkOrder node)

lemma AllValid.part (h : node.AllValid tables) {part : Node} (hpart : part ∈ node.parts) :
    part.AllValid tables := by
  intro n hn
  exact h n (mem_checkOrder.mpr (Or.inr (mem_checkOrderAll.mpr ⟨part, hpart, hn⟩)))

/-! ## Types of nodes -/

lemma symbolType_ok (complete : tables.Complete) {sort : SymbolSort} {symbol? : Option SymbolId}
    (h : ∀ id ∈ symbol?, tables.symbols.HasSort sort id) :
    ∃ type, symbolType tables.symbols symbol? = .ok type ∧ tables.types.Has type := by
  cases symbol? with
  | none => exact ⟨_, rfl, complete.void⟩
  | some id =>
    obtain ⟨symbol, hget, -⟩ := h id rfl
    obtain ⟨type, htype, -, hhas⟩ := complete.type hget
    refine ⟨type, ?_, hhas⟩
    simp [symbolType, SymbolTable.get_eq_ok_iff.mpr hget, htype, bind, Except.bind, pure,
      Except.pure]

/-- Every node has a type. -/
lemma type_ok (complete : tables.Complete) (node : Node) (h : node.AllValid tables) :
    ∃ type, node.type tables.symbols = .ok type ∧ tables.types.Has type := by
  induction node using Node.induction with
  | step node ih =>
    cases node with
    | integer loc value =>
      cases value with
      | signed => exact ⟨_, rfl, complete.sound.types.has_builtin .s64⟩
      | unsigned => exact ⟨_, rfl, complete.sound.types.has_builtin .u64⟩
    | boolean loc value => exact ⟨_, rfl, complete.sound.types.has_builtin .bool⟩
    | binary loc op lhs rhs =>
      have hleft := ih lhs (by simp [parts]) (h.part (by simp [parts]))
      cases op with
      | compare op => exact ⟨_, rfl, complete.sound.types.has_builtin .bool⟩
      | assign => exact hleft
      | arith op => exact hleft
    | varDecl loc symbol? => exact symbolType_ok complete h.self
    | varRef loc symbol? => exact symbolType_ok complete h.self
    | call loc callee? args =>
      cases callee? with
      | none => exact ⟨_, rfl, complete.void⟩
      | some id =>
        obtain ⟨symbol, params, prototyped, external, hget, hkind⟩ :=
          (h.self id rfl).exists_function
        obtain ⟨type, htype, -, hhas⟩ := complete.type hget
        have hgot := SymbolTable.get_eq_ok_iff.mpr hget
        refine ⟨type, ?_, hhas⟩
        simp [Node.type, hgot, hkind, htype, bind, Except.bind, pure, Except.pure]
    | cast loc target operand => exact ⟨target, rfl, h.self⟩
    | _ => exact ⟨_, rfl, complete.void⟩

/-- Only expressions have values. -/
lemma type_of_not_isExpression (h : node.isExpression = false) (symbols : SymbolTable) :
    node.type symbols = .ok Builtin.void.id := by
  cases node <;> first | rfl | simp [isExpression] at h

lemma types_ok (complete : tables.Complete) {nodes : List Node}
    (h : ∀ node ∈ nodes, node.AllValid tables) :
    ∃ types, nodes.mapM (·.type tables.symbols) = .ok types ∧ ∀ t ∈ types, tables.types.Has t := by
  induction nodes with
  | nil => exact ⟨[], rfl, by simp⟩
  | cons node rest ih =>
    obtain ⟨type, htype, hhas⟩ := type_ok complete node (h node (by simp))
    obtain ⟨types, htypes, hall⟩ := ih fun n hn => h n (by simp [hn])
    refine ⟨type :: types, ?_, by simpa using ⟨hhas, hall⟩⟩
    simp [List.mapM_cons, htype, htypes, bind, Except.bind, pure, Except.pure]

end Node

/-! ## Messages -/

/-- The types that a violation mentions. -/
def Violation.types : Violation → List TypeId
  | voidLeft | voidRight | notStorage | voidArgument _ => []
  | operandMismatch lhs rhs => [lhs, rhs]
  | structOperands type | castTarget type | castSource type | voidVariable type
  | parameterType _ _ type | resultType _ type => [type]
  | argumentCount got expected | argumentTypes _ got expected => got ++ expected
  | unexpectedType got expected => [got, expected]

namespace TypeTable

variable {table : TypeTable}

lemma Sound.describeAll_ok (sound : table.Sound) {ids : List TypeId}
    (h : ∀ id ∈ ids, table.Has id) : ∃ text, table.describeAll ids = .ok text := by
  have htexts : ∃ texts, ids.mapM table.describe = .ok texts := by
    induction ids with
    | nil => exact ⟨[], rfl⟩
    | cons id rest ih =>
      obtain ⟨text, htext⟩ := sound.describe_ok (h id (by simp))
      obtain ⟨texts, htexts⟩ := ih fun id' hid' => h id' (by simp [hid'])
      simp [List.mapM_cons, htext, htexts, bind, Except.bind, pure, Except.pure]
  obtain ⟨texts, htexts⟩ := htexts
  simp [describeAll, htexts, bind, Except.bind, pure, Except.pure]

/-- Every violation that mentions entries can be reported. -/
lemma Sound.message_ok (sound : table.Sound) {violation : Violation}
    (h : ∀ type ∈ violation.types, table.Has type) :
    ∃ text, violation.message table = .ok text := by
  have hone : ∀ type ∈ violation.types, ∃ text, table.describe type = .ok text :=
    fun type htype => sound.describe_ok (h type htype)
  obtain ⟨void, hvoid⟩ := sound.describe_ok (sound.has_builtin .void)
  -- messages about arguments describe two lists of types
  have hlists : ∀ got expected : List TypeId, violation.types = got ++ expected →
      ∃ first second, table.describeAll got = .ok first ∧
        table.describeAll expected = .ok second := by
    intro got expected heq
    have hboth : ∀ id, id ∈ got ∨ id ∈ expected → table.Has id :=
      fun id hid => h id (by rw [heq]; exact List.mem_append.mpr hid)
    obtain ⟨first, hfirst⟩ := sound.describeAll_ok fun id hid => hboth id (Or.inl hid)
    obtain ⟨second, hsecond⟩ := sound.describeAll_ok fun id hid => hboth id (Or.inr hid)
    exact ⟨first, second, hfirst, hsecond⟩
  cases violation with
  | argumentCount got expected =>
    obtain ⟨first, second, hgot, hexpected⟩ := hlists got expected rfl
    simp [Violation.message, hgot, hexpected, bind, Except.bind, pure, Except.pure]
  | argumentTypes callee got expected =>
    obtain ⟨first, second, hgot, hexpected⟩ := hlists got expected rfl
    simp [Violation.message, hgot, hexpected, bind, Except.bind, pure, Except.pure]
  | operandMismatch lhs rhs =>
    obtain ⟨left, hleft⟩ := hone lhs (by simp [Violation.types])
    obtain ⟨right, hright⟩ := hone rhs (by simp [Violation.types])
    simp [Violation.message, hleft, hright, bind, Except.bind, pure, Except.pure]
  | unexpectedType got expected =>
    obtain ⟨left, hleft⟩ := hone got (by simp [Violation.types])
    obtain ⟨right, hright⟩ := hone expected (by simp [Violation.types])
    simp [Violation.message, hleft, hright, bind, Except.bind, pure, Except.pure]
  | voidLeft => simp [Violation.message, hvoid, bind, Except.bind, pure, Except.pure]
  | voidRight => simp [Violation.message, hvoid, bind, Except.bind, pure, Except.pure]
  | voidArgument callee =>
    simp [Violation.message, hvoid, bind, Except.bind, pure, Except.pure]
  | notStorage => exact ⟨_, rfl⟩
  | structOperands type | castTarget type | castSource type | voidVariable type
  | parameterType _ _ type | resultType _ type =>
    obtain ⟨text, htext⟩ := hone type (by simp [Violation.types])
    simp [Violation.message, htext, bind, Except.bind, pure, Except.pure]

end TypeTable

/-! ## Rules -/

namespace Node

variable {tables : Tables} {node : Node}

/-- The operands have one type with values that fit into a register, and only a variable is
assigned to. -/
def BinaryRule (tables : Tables) (op : BinOp) (lhs rhs : Node) : Prop :=
  ∃ type, lhs.type tables.symbols = .ok type ∧ rhs.type tables.symbols = .ok type ∧
    type ≠ Builtin.void.id ∧ tables.types.isStruct type = .ok false ∧
    (op = .assign → lhs.isStorage = true)

/-- The arguments have the types of the parameters, or values where there is no signature. -/
def CallRule (tables : Tables) (callee? : Option SymbolId) (args : List Node) : Prop :=
  ∀ id ∈ callee?, ∀ symbol, tables.symbols.get id = .ok symbol → ∀ params prototyped external,
    symbol.kind = .function params prototyped external →
    if prototyped then args.mapM (·.type tables.symbols) = .ok (params.map (·.type))
    else ∀ arg ∈ args, arg.type tables.symbols ≠ .ok Builtin.void.id

/-- The target is no struct, and the operand has values. -/
def CastRule (tables : Tables) (target : TypeId) (operand : Node) : Prop :=
  tables.types.isStruct target = .ok false ∧ ∃ source info, operand.deepType tables = .ok source ∧
    tables.types.get source = .ok info ∧ info.shape ≠ .builtin .void

/-- The variable has a type with values. -/
def VariableRule (tables : Tables) (symbol? : Option SymbolId) : Prop :=
  ∃ type root, symbolType tables.symbols symbol? = .ok type ∧
    tables.types.resolve type = .ok root ∧ root ≠ Builtin.void.id

/-- Parameters fit into registers, and so does the result if there is one. -/
def SignatureRule (tables : Tables) (symbol? : Option SymbolId) : Prop :=
  ∀ id ∈ symbol?, ∀ symbol, tables.symbols.get id = .ok symbol → ∀ params prototyped external,
    symbol.kind = .function params prototyped external →
    (∀ param ∈ params, tables.types.isScalar param.type = .ok true) ∧
    ∃ result, symbol.type? = some result ∧
      (result = Builtin.void.id ∨ tables.types.isScalar result = .ok true)

/-- The function returns the given type. -/
def ReturnRule (tables : Tables) (got : TypeId) (function : SymbolId) : Prop :=
  ∃ symbol, tables.symbols.get function = .ok symbol ∧ symbol.type? = some got

/-- The rule of a node. -/
def Rule (tables : Tables) : Node → Prop
  | binary _ op lhs rhs => BinaryRule tables op lhs rhs
  | call _ callee? args => CallRule tables callee? args
  | ifThen _ cond _ | ifElse _ cond _ _ | whileLoop _ cond _ | forLoop _ _ cond _ _ =>
    cond.type tables.symbols = .ok Builtin.bool.id
  | cast _ target operand => CastRule tables target operand
  | varDecl _ symbol? => VariableRule tables symbol?
  | functionDef _ symbol? _ _ | externDecl _ symbol? => SignatureRule tables symbol?
  | returnVoid _ function => ReturnRule tables Builtin.void.id function
  | returnValue _ value function => ∃ got, value.type tables.symbols = .ok got ∧
    ReturnRule tables got function
  | _ => True

/-- The findings mention entries, and there are none just if the proposition holds. -/
structure Finds (types : TypeTable) (findings : List Finding) (rule : Prop) : Prop where
  /-- The findings can be reported. -/
  known : ∀ finding ∈ findings, ∀ type ∈ finding.2.types, types.Has type
  /-- No finding means that nothing is wrong. -/
  nil_iff : findings = [] ↔ rule

namespace Finds

variable {types : TypeTable}

lemma nil : Finds types [] True := ⟨by simp, by simp⟩

lemma append {xs ys : List Finding} {p q : Prop} (hx : Finds types xs p) (hy : Finds types ys q) :
    Finds types (xs ++ ys) (p ∧ q) where
  known finding hfinding := by
    rcases List.mem_append.mp hfinding with h | h
    · exact hx.known finding h
    · exact hy.known finding h
  nil_iff := by rw [List.append_eq_nil_iff, hx.nil_iff, hy.nil_iff]

/-- One possible finding. -/
lemma ite {c : Prop} [Decidable c] {finding : Finding}
    (h : ∀ type ∈ finding.2.types, types.Has type) :
    Finds types (if c then [finding] else []) (¬ c) := by
  split
  · refine ⟨?_, by simp_all⟩
    simpa using h
  · exact ⟨by simp, by simp_all⟩

lemma congr {findings : List Finding} {p q : Prop} (h : Finds types findings p) (hiff : p ↔ q) :
    Finds types findings q :=
  ⟨h.known, h.nil_iff.trans hiff⟩

end Finds

/-- A rule was applied: there is an answer. -/
def Decides (types : TypeTable) (answer : Except Defect (List Finding)) (rule : Prop) : Prop :=
  ∃ findings, answer = .ok findings ∧ Finds types findings rule

lemma decides_binary (complete : tables.Complete) {loc : Location} {op : BinOp} {lhs rhs : Node}
    (hlhs : lhs.AllValid tables) (hrhs : rhs.AllValid tables) :
    Decides tables.types (binaryViolations tables loc op lhs rhs) (BinaryRule tables op lhs rhs) := by
  obtain ⟨left, hleft, hhasLeft⟩ := type_ok complete lhs hlhs
  obtain ⟨right, hright, hhasRight⟩ := type_ok complete rhs hrhs
  obtain ⟨struct, hstruct⟩ := complete.sound.types.isStruct_ok hhasLeft
  -- what is found about the two types together
  let agreement : List Finding := if left ≠ right then [(loc, .operandMismatch left right)]
    else if struct then [(loc, .structOperands left)] else []
  have hagreement : Finds tables.types agreement (left = right ∧ struct = false) := by
    by_cases heq : left = right
    · simp only [agreement, heq, ne_eq, not_true_eq_false, if_false]
      refine (Finds.ite ?_).congr (by simp)
      simpa [Violation.types] using hhasRight
    · simp only [agreement, heq, ne_eq, not_false_eq_true, if_true]
      exact ⟨by simpa [Violation.types] using ⟨hhasLeft, hhasRight⟩, by simp⟩
  have hanswer : binaryViolations tables loc op lhs rhs =
      .ok ((if left = Builtin.void.id then [(loc, .voidLeft)] else []) ++
        (if right = Builtin.void.id then [(loc, .voidRight)] else []) ++ agreement ++
        (if op = .assign && !lhs.isStorage then [(loc, .notStorage)] else [])) := by
    simp only [binaryViolations, hleft, hright, hstruct, agreement, bind, Except.bind, pure,
      Except.pure]
    split <;> [rfl; split <;> rfl]
  refine ⟨_, hanswer, ?_⟩
  refine ((((Finds.ite (by simp [Violation.types])).append
    (Finds.ite (by simp [Violation.types]))).append hagreement).append
    (Finds.ite (by simp [Violation.types]))).congr ?_
  constructor
  · rintro ⟨⟨⟨hvoid, -⟩, rfl, rfl⟩, hassign⟩
    exact ⟨left, hleft, hright, hvoid, hstruct, by simpa using hassign⟩
  · rintro ⟨type, hl, hr, hvoid, hs, hassign⟩
    rw [hleft] at hl
    rw [hright] at hr
    cases hl
    cases hr
    rw [hstruct] at hs
    cases hs
    exact ⟨⟨⟨hvoid, hvoid⟩, rfl, rfl⟩, by simpa using hassign⟩

/-- An argument without a value is found. -/
lemma finds_voidArguments {types : TypeTable} {symbols : SymbolTable} {callee : String}
    {args : List Node} {got : List TypeId} (hgot : args.mapM (·.type symbols) = .ok got) :
    Finds types (((args.zip got).filter fun (_, type) => type = Builtin.void.id).map
        fun (arg, _) => (arg.location, .voidArgument callee))
      (∀ arg ∈ args, arg.type symbols ≠ .ok Builtin.void.id) := by
  refine ⟨?_, ?_⟩
  · simp [Violation.types]
  · rw [List.map_eq_nil_iff, List.filter_eq_nil_iff]
    induction args generalizing got with
    | nil => simp
    | cons arg rest ih =>
      rw [List.mapM_cons] at hgot
      cases htype : arg.type symbols with
      | error defect => simp [htype, bind, Except.bind] at hgot
      | ok type =>
        cases hrest : rest.mapM (·.type symbols) with
        | error defect => simp [htype, hrest, bind, Except.bind] at hgot
        | ok types =>
          simp only [htype, hrest, bind, Except.bind, pure, Except.pure, Except.ok.injEq] at hgot
          subst hgot
          simp only [List.zip_cons_cons, List.mem_cons, forall_eq_or_imp, ih hrest, htype]
          simp

lemma decides_call (complete : tables.Complete) {loc : Location} {callee? : Option SymbolId}
    {args : List Node} (hcallee : ∀ id ∈ callee?, tables.symbols.HasSort .function id)
    (hargs : ∀ arg ∈ args, arg.AllValid tables) :
    Decides tables.types (callViolations tables loc callee? args)
      (CallRule tables callee? args) := by
  cases callee? with
  | none => exact ⟨[], rfl, Finds.nil.congr (by simp [CallRule])⟩
  | some id =>
    obtain ⟨symbol, params, prototyped, external, hget, hkind⟩ :=
      (hcallee id rfl).exists_function
    have hgot := SymbolTable.get_eq_ok_iff.mpr hget
    obtain ⟨types, htypes, hhas⟩ := types_ok complete hargs
    have hparams := (complete.sound.symbol hget).params hkind
    have hmentioned : ∀ type ∈ types ++ params.map (·.type), tables.types.Has type := by
      intro type htype
      rcases List.mem_append.mp htype with htype | htype
      · exact hhas type htype
      · obtain ⟨param, hparam, rfl⟩ := List.mem_map.mp htype
        exact hparams param hparam
    -- the callee is known, so the rule speaks of this one function
    have hrule : CallRule tables (some id) args ↔
        if prototyped then types = params.map (·.type)
        else ∀ arg ∈ args, arg.type tables.symbols ≠ .ok Builtin.void.id := by
      constructor
      · intro h
        have := h id rfl symbol hgot params prototyped external hkind
        rwa [htypes, Except.ok.injEq] at this
      · rintro h _ ⟨⟩ symbol' hget' params' prototyped' external' hkind'
        rw [hgot] at hget'
        cases hget'
        rw [hkind] at hkind'
        cases hkind'
        rwa [htypes, Except.ok.injEq]
    rw [Decides, hrule]
    simp only [callViolations, hgot, hkind, htypes, bind, Except.bind, pure, Except.pure]
    cases prototyped with
    | false => exact ⟨_, rfl, finds_voidArguments htypes⟩
    | true =>
      simp only [Bool.not_true, Bool.false_eq_true, if_false, if_true]
      split
      · rename_i hlength
        -- lists of different lengths differ
        refine ⟨_, rfl, ⟨by simpa [Violation.types] using hmentioned, ?_⟩⟩
        simp only [List.cons_ne_nil, false_iff]
        rintro rfl
        exact hlength rfl
      · split
        · rename_i hne
          exact ⟨_, rfl, ⟨by simpa [Violation.types] using hmentioned, by simpa using hne⟩⟩
        · rename_i heq
          exact ⟨_, rfl, Finds.nil.congr (by simpa using heq)⟩

lemma decides_condition (complete : tables.Complete) {cond : Node} (h : cond.AllValid tables) :
    Decides tables.types (conditionViolations tables cond)
      (cond.type tables.symbols = .ok Builtin.bool.id) := by
  obtain ⟨got, hgot, hhas⟩ := type_ok complete cond h
  simp only [conditionViolations, hgot, bind, Except.bind, pure, Except.pure]
  refine ⟨_, rfl, (Finds.ite ?_).congr (by simp)⟩
  simpa [Violation.types] using ⟨hhas, complete.sound.types.has_builtin .bool⟩

lemma decides_cast (complete : tables.Complete) {loc : Location} {target : TypeId}
    {operand : Node} (htarget : tables.types.Has target) (hoperand : operand.AllValid tables) :
    Decides tables.types (castViolations tables loc target operand)
      (CastRule tables target operand) := by
  obtain ⟨type, htype, hhas⟩ := type_ok complete operand hoperand
  obtain ⟨source, info, hd⟩ := complete.sound.types.denotes hhas
  obtain ⟨struct, hstruct⟩ := complete.sound.types.isStruct_ok htarget
  have hdeep : operand.deepType tables = .ok source := by
    simp [deepType, htype, hd.resolve, bind, Except.bind]
  simp only [castViolations, hstruct, hdeep, hd.get, bind, Except.bind, pure, Except.pure]
  refine ⟨_, rfl, ((Finds.ite ?_).append (Finds.ite ?_)).congr ?_⟩
  · simpa [Violation.types] using htarget
  · simpa [Violation.types] using hd.has
  · simp [CastRule, hstruct, hdeep, hd.get]

lemma decides_variable (complete : tables.Complete) {loc : Location} {symbol? : Option SymbolId}
    (h : ∀ id ∈ symbol?, tables.symbols.HasSort .localVar id) :
    Decides tables.types (variableViolations tables loc symbol?)
      (VariableRule tables symbol?) := by
  obtain ⟨type, htype, hhas⟩ := symbolType_ok complete h
  obtain ⟨root, info, hd⟩ := complete.sound.types.denotes hhas
  simp only [variableViolations, htype, hd.resolve, bind, Except.bind, pure, Except.pure]
  refine ⟨_, rfl, (Finds.ite ?_).congr ?_⟩
  · simpa [Violation.types] using hd.has
  · simp [VariableRule, htype, hd.resolve]

lemma decides_params (complete : tables.Complete) (loc : Location) (function : String)
    {params : List Param} (h : ∀ param ∈ params, tables.types.Has param.type) :
    Decides tables.types (paramViolations tables.types loc function params)
      (∀ param ∈ params, tables.types.isScalar param.type = .ok true) := by
  induction params with
  | nil => exact ⟨[], rfl, Finds.nil.congr (by simp)⟩
  | cons param rest ih =>
    obtain ⟨fits, hfits⟩ := complete.sound.types.isScalar_ok (h param (by simp))
    obtain ⟨others, hothers, hfinds⟩ := ih fun p hp => h p (by simp [hp])
    simp only [paramViolations, hfits, hothers, bind, Except.bind, pure, Except.pure]
    cases fits with
    | true => exact ⟨others, rfl, hfinds.congr (by simp [hfits])⟩
    | false =>
      refine ⟨_, rfl, ⟨?_, by simp [hfits]⟩⟩
      intro finding hfinding
      rcases List.mem_cons.mp hfinding with rfl | hfinding
      · simpa [Violation.types] using h param (by simp)
      · exact hfinds.known finding hfinding

lemma decides_signature (complete : tables.Complete) {loc : Location}
    {symbol? : Option SymbolId} (h : ∀ id ∈ symbol?, tables.symbols.HasSort .function id) :
    Decides tables.types (signatureViolations tables loc symbol?)
      (SignatureRule tables symbol?) := by
  cases symbol? with
  | none => exact ⟨[], rfl, Finds.nil.congr (by simp [SignatureRule])⟩
  | some id =>
    obtain ⟨symbol, params, prototyped, external, hget, hkind⟩ := (h id rfl).exists_function
    have hgot := SymbolTable.get_eq_ok_iff.mpr hget
    obtain ⟨result, htype?, htype, hhas⟩ := complete.type hget
    obtain ⟨unfit, hunfit, hfinds⟩ := decides_params complete loc symbol.name
      ((complete.sound.symbol hget).params hkind)
    obtain ⟨scalar, hscalar⟩ := complete.sound.types.isScalar_ok hhas
    -- the result type is looked up in the table unless it is `void`
    have hanswer : signatureViolations tables loc (some id) =
        .ok (unfit ++ if ¬ (result = Builtin.void.id ∨ scalar = true) then
          [(loc, .resultType symbol.name result)] else []) := by
      simp only [signatureViolations, hgot, hkind, hunfit, htype, hscalar, bind, Except.bind,
        pure, Except.pure]
      by_cases hvoid : result = Builtin.void.id
      · simp [hvoid]
      · cases scalar <;> simp [hvoid]
    refine ⟨_, hanswer, (hfinds.append (Finds.ite ?_)).congr ?_⟩
    · simpa [Violation.types] using hhas
    · constructor
      · rintro ⟨hparams, hresult⟩ _ ⟨⟩ symbol' hget' params' prototyped' external' hkind'
        rw [hgot] at hget'
        cases hget'
        rw [hkind] at hkind'
        cases hkind'
        refine ⟨hparams, result, htype?, ?_⟩
        rw [hscalar, Except.ok.injEq]
        exact Decidable.not_not.mp hresult
      · intro hrule
        obtain ⟨hparams, result', hresult', hfits⟩ :=
          hrule id rfl symbol hgot params prototyped external hkind
        rw [htype?] at hresult'
        cases hresult'
        rw [hscalar, Except.ok.injEq] at hfits
        exact ⟨hparams, not_not_intro hfits⟩

lemma decides_return (complete : tables.Complete) (loc : Location) {got : TypeId}
    {function : SymbolId} (hgot : tables.types.Has got)
    (h : tables.symbols.HasSort .function function) :
    Decides tables.types (returnViolations tables loc got function)
      (ReturnRule tables got function) := by
  obtain ⟨symbol, hget, -⟩ := h
  have hsymbol := SymbolTable.get_eq_ok_iff.mpr hget
  obtain ⟨expected, htype?, htype, hhas⟩ := complete.type hget
  simp only [returnViolations, hsymbol, htype, bind, Except.bind, pure, Except.pure]
  refine ⟨_, rfl, (Finds.ite ?_).congr ?_⟩
  · simpa [Violation.types] using ⟨hgot, hhas⟩
  · simp [ReturnRule, hsymbol, htype?, eq_comm]

/-- Every rule has an answer, which says whether the rule is kept. -/
theorem decides_violations (complete : tables.Complete) (h : node.AllValid tables) :
    Decides tables.types (node.violations tables) (node.Rule tables) := by
  have hpart : ∀ part ∈ node.parts, part.AllValid tables := fun part => h.part
  cases node with
  | binary loc op lhs rhs =>
    exact decides_binary complete (hpart lhs (by simp [parts])) (hpart rhs (by simp [parts]))
  | call loc callee? args => exact decides_call complete h.self hpart
  | ifThen loc cond body => exact decides_condition complete (hpart cond (by simp [parts]))
  | ifElse loc cond thenBody elseBody =>
    exact decides_condition complete (hpart cond (by simp [parts]))
  | whileLoop loc cond body => exact decides_condition complete (hpart cond (by simp [parts]))
  | forLoop loc init cond step body =>
    exact decides_condition complete (hpart cond (by simp [parts]))
  | cast loc target operand =>
    exact decides_cast complete h.self (hpart operand (by simp [parts]))
  | varDecl loc symbol? => exact decides_variable complete h.self
  | functionDef loc symbol? params body => exact decides_signature complete h.self.1
  | externDecl loc symbol? => exact decides_signature complete h.self
  | returnVoid loc function => exact decides_return complete loc complete.void h.self
  | returnValue loc value function =>
    obtain ⟨got, hgot, hhas⟩ := type_ok complete value (hpart value (by simp [parts]))
    obtain ⟨findings, hanswer, hfinds⟩ := decides_return complete value.location hhas h.self
    refine ⟨findings, ?_, hfinds.congr ?_⟩
    · simpa [violations, hgot, bind, Except.bind] using hanswer
    · simp [Rule, hgot]
  | _ => exact ⟨[], rfl, Finds.nil⟩

/-- Whether a cast can be compiled is known. -/
lemma unsupportedCast?_ok (complete : tables.Complete) (h : node.AllValid tables) :
    ∃ source?, node.unsupportedCast? tables = .ok source? ∧
      ∀ source ∈ source?, tables.types.Has source := by
  cases node with
  | cast loc target operand =>
    obtain ⟨type, htype, hhas⟩ := type_ok complete operand (h.part (by simp [parts]))
    obtain ⟨source, info, hd⟩ := complete.sound.types.denotes hhas
    have hdeep : operand.deepType tables = .ok source := by
      simp [deepType, htype, hd.resolve, bind, Except.bind]
    simp only [unsupportedCast?, hdeep, hd.get, bind, Except.bind, pure, Except.pure]
    split
    · exact ⟨none, rfl, by simp⟩
    · refine ⟨some source, rfl, ?_⟩
      rintro _ ⟨⟩
      exact hd.has
  | _ => exact ⟨none, rfl, by simp⟩

/-- The node keeps its rule, and there is code for it if it is a cast. -/
structure Accepted (tables : Tables) (node : Node) : Prop where
  /-- The rule is kept. -/
  rule : node.Rule tables
  /-- The node does not start a cast from a struct. -/
  supported : node.unsupportedCast? tables = .ok none

end Node

/-! ## Checking -/

namespace Typing

open CompileM Workspace

variable {ws : Workspace} {node : Node}

lemma reportAll_does {types : TypeTable} {findings : List Finding}
    (sound : types.Sound) (h : ∀ finding ∈ findings, ∀ type ∈ finding.2.types, types.Has type) :
    Does (reportAll types findings) ws fun _ ws' =>
      ws'.toTables = ws.toTables ∧ (ws'.Quiet → findings = []) := by
  induction findings generalizing ws with
  | nil => exact .pure ⟨rfl, fun _ => rfl⟩
  | cons finding rest ih =>
    obtain ⟨loc, violation⟩ := finding
    obtain ⟨message, hmessage⟩ := sound.message_ok (h (loc, violation) (by simp))
    refine .promised_bind hmessage (.report_bind ?_)
    rintro ws₁ - htables hloud
    refine (ih fun finding hfinding => h finding (by simp [hfinding])).imp ?_
    rintro _ ws₂ hgrows ⟨htables', -⟩
    exact ⟨htables'.trans htables, fun hquiet => absurd (hgrows.quiet hquiet) hloud⟩

lemma checkNode_does (complete : ws.toTables.Complete) (h : node.AllValid ws.toTables) :
    Does (checkNode node) ws fun _ ws' =>
      ws'.toTables = ws.toTables ∧ (ws'.Quiet → node.Accepted ws.toTables) := by
  obtain ⟨findings, hviolations, hfinds⟩ := Node.decides_violations complete h
  obtain ⟨source?, hsource, hhas⟩ := Node.unsupportedCast?_ok complete h
  refine .get (.promised_bind hviolations ?_)
  refine .bind (reportAll_does complete.sound.types hfinds.known) ?_
  rintro _ ws₁ - ⟨htables, hquiet⟩
  refine .promised_bind hsource ?_
  cases source? with
  | none => exact .pure ⟨htables, fun h => ⟨hfinds.nil_iff.mp (hquiet h), hsource⟩⟩
  | some source =>
    obtain ⟨text, htext⟩ := complete.sound.types.describe_ok (hhas source rfl)
    exact .promised_bind htext (Workspace.Kept.refl ws₁)

lemma checkAll_does {nodes : List Node} (complete : ws.toTables.Complete)
    (h : ∀ node ∈ nodes, node.AllValid ws.toTables) :
    Does (checkAll nodes) ws fun _ ws' =>
      ws'.toTables = ws.toTables ∧ (ws'.Quiet → ∀ node ∈ nodes, node.Accepted ws.toTables) := by
  induction nodes generalizing ws with
  | nil => exact .pure ⟨rfl, by simp⟩
  | cons node rest ih =>
    refine .bind (checkNode_does complete (h node (by simp))) ?_
    rintro _ ws₁ - ⟨htables, haccepted⟩
    rw [← htables] at complete h
    refine (ih complete fun n hn => h n (by simp [hn])).imp ?_
    rintro _ ws₂ hgrows ⟨htables', hothers⟩
    refine ⟨htables'.trans htables, fun hquiet => ?_⟩
    rw [htables] at hothers
    simpa using ⟨haccepted (hgrows.quiet hquiet), hothers hquiet⟩

end Typing

end ParenC
