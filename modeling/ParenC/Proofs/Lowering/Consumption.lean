/-
What a program uses as a value.

Operators, calls, conditions and casts consume the values of some of their parts, and a value is
meant to be a scalar.  The rules see to that for conditions, casts, assignments and declared
parameters.  For the operands of an operator and the arguments of a function without known
parameters they ask whether the type is `void`, and they look at the name that the program gives to
it.  So just one thing gets by: a cast to `void` under another name.
-/
import ParenC.Proofs.Lowering.Limits
import ParenC.Proofs.Lowering.Simulation

namespace ParenC

open Lowering

/-! ## Values and their types -/

namespace Node

/-- The parts of a node that it consumes as values. -/
def consumed : Node → List Node
  | binary _ _ lhs rhs => [lhs, rhs]
  | call _ _ args => args
  | ifThen _ cond _ | ifElse _ cond _ _ | whileLoop _ cond _ | forLoop _ _ cond _ _ => [cond]
  | cast _ _ operand => [operand]
  | _ => []

/-- Whether the values of the node fit into a register: its type, under whatever name, is `s64`,
`u64` or `bool`. -/
def isScalar (tables : Tables) (node : Node) : Bool :=
  Builtin.all.any fun which => which.isScalar && node.isOf tables which

/-- Whether the node is a cast to `void`, under whatever name. -/
def castsToVoid (tables : Tables) (node : Node) : Bool :=
  match node with
  | cast .. => node.isOf tables .void
  | _ => false

lemma consumed_subset (node : Node) : node.consumed ⊆ node.parts := by
  cases node <;> simp [consumed, parts]

variable {tables : Tables} {node : Node}

/-- A node has one type. -/
lemma HasType.unique {type type' : TypeId} (h : node.HasType tables type)
    (h' : node.HasType tables type') : type = type' := Except.ok.inj (h.symm.trans h')

/-- What the type of a node is made of can be computed. -/
lemma isOf_iff (complete : tables.Complete) (hvalid : node.AllValid tables) {type : TypeId}
    (htype : node.HasType tables type) (which : Builtin) :
    node.isOf tables which = true ↔ tables.types.Deep type (.builtin which) := by
  obtain ⟨type', htype', hhas⟩ := type_ok complete node hvalid
  obtain rfl := htype.unique htype'
  obtain ⟨root, info, hd⟩ := complete.sound.types.denotes hhas
  have hdeep : node.deepType tables = .ok root := by
    rw [HasType] at htype
    simp [deepType, htype, hd.resolve, bind, Except.bind]
  rw [isOf_eq hdeep, decide_eq_true_iff, hd.root_eq_iff complete.sound.types, hd.deep_iff]

lemma isScalar_iff (complete : tables.Complete) (hvalid : node.AllValid tables) {type : TypeId}
    (htype : node.HasType tables type) : node.isScalar tables = true ↔ tables.types.Scalar type := by
  simp only [isScalar, List.any_eq_true, Bool.and_eq_true, isOf_iff complete hvalid htype]
  constructor
  · rintro ⟨which, -, hscalar, hdeep⟩
    exact ⟨which, hdeep, hscalar⟩
  · rintro ⟨which, hdeep, hscalar⟩
    exact ⟨which, by cases which <;> decide, hscalar, hdeep⟩

end Node

/-- A type is a scalar, a struct or `void`, whatever its name. -/
lemma TypeTable.Sound.deep_cases {table : TypeTable} (sound : table.Sound) {id : TypeId}
    (h : table.Has id) :
    table.Scalar id ∨ table.Composite id ∨ table.Deep id (.builtin .void) := by
  obtain ⟨root, info, hd⟩ := sound.denotes h
  have hdeep := hd.deep
  cases hshape : info.shape with
  | definition name target => exact absurd hshape (hd.concrete name target)
  | struct fields => exact Or.inr (Or.inl ⟨fields, hshape ▸ hdeep⟩)
  | builtin which =>
    rw [hshape] at hdeep
    cases which with
    | void => exact Or.inr (Or.inr hdeep)
    | s64 | u64 | bool => exact Or.inl ⟨_, hdeep, rfl⟩

/-- Everything that the program consumes as a value is a scalar. -/
def Program.ConsumesScalars (program : Program) (tables : Tables) : Prop :=
  ∀ node ∈ Node.checkOrderAll program.items, ∀ part ∈ node.consumed, part.isScalar tables = true

instance (program : Program) (tables : Tables) : Decidable (program.ConsumesScalars tables) :=
  inferInstanceAs (Decidable (∀ node ∈ Node.checkOrderAll program.items, _))

namespace Program.Accepted

variable {program : Program} {tables : Tables} {owner : Option SymbolId} {node part : Node}
  {type : TypeId}

/-- The variables of every function have values. -/
lemma valued (h : program.Accepted tables) (hholds : program.Holds owner node) :
    Valued tables owner := by
  induction hholds with
  | top => exact h.settled_start.valued
  | @inside owner node part hholds hpart ih =>
    cases node with
    | functionDef loc symbol? params body =>
      obtain ⟨f, rfl⟩ := Option.ne_none_iff_exists'.mp (h.checked_of_holds hholds).fits.named
      have hitem := h.mem_items_of_isFunction hholds.mem_checkOrderAll rfl
      exact (h.settled_definition (mem_definitions.mpr ⟨_, _, _, _, hitem, rfl⟩)).valued
    | _ => exact ih

/-- Where the type of a node comes from: it is `void` itself or a scalar, that of a variable, the
target of a cast, or that of the left operand. -/
lemma type_cases (h : program.Accepted tables) (hholds : program.Holds owner node)
    (htype : node.HasType tables type) :
    (type = Builtin.void.id ∨ tables.types.Scalar type) ∨
    (node.isStorage = true ∧ ¬ tables.types.Deep type (.builtin .void)) ∨
    (∃ loc operand, node = .cast loc type operand ∧ ¬ tables.types.Composite type) ∨
    ∃ loc op lhs rhs, node = .binary loc op lhs rhs ∧ lhs.HasType tables type ∧
      ¬ tables.types.Composite type := by
  have htyped := h.wellTyped hholds
  have hbuiltin : ∀ which : Builtin, which.isScalar = true → type = which.id →
      tables.types.Scalar type := by
    rintro which hscalar rfl
    exact ⟨which, (h.complete.sound.types.denotes_builtin which).deep, hscalar⟩
  cases node with
  | varRef loc symbol? =>
    obtain ⟨id, rfl, hvar⟩ := (h.checked_of_holds hholds).fits.named
    have ⟨symbol, hget, _⟩ := hvar
    obtain ⟨type', htype', -, -⟩ := h.complete.type hget
    have hmention : (Node.varRef loc (some id)).HasType tables type' := by
      simp [Node.HasType, Node.type, Node.symbolType, SymbolTable.get_eq_ok_iff.mpr hget, htype',
        bind, Except.bind, pure, Except.pure]
    obtain rfl := hmention.unique htype
    exact Or.inr (Or.inl ⟨rfl, h.valued hholds id symbol type' hvar hget htype'⟩)
  | varDecl loc symbol? =>
    obtain ⟨id, symbol, type', rfl, hget, htype', hvoid⟩ := htyped
    have hdeclared : (Node.varDecl loc (some id)).HasType tables type' := by
      simp [Node.HasType, Node.type, Node.symbolType, SymbolTable.get_eq_ok_iff.mpr hget, htype',
        bind, Except.bind, pure, Except.pure]
    exact Or.inr (Or.inl ⟨rfl, hdeclared.unique htype ▸ hvoid⟩)
  | binary loc op lhs rhs =>
    obtain ⟨type', hleft, -, -, hnot, -⟩ := htyped
    cases op with
    | compare op => exact Or.inl (Or.inr (hbuiltin .bool rfl (Except.ok.inj htype).symm))
    | assign | arith =>
      -- an assignment and an arithmetic operation have the type of their left operand
      have hsame : lhs.HasType tables type := htype
      exact Or.inr (Or.inr (Or.inr ⟨loc, _, lhs, rhs, rfl, hsame, hleft.unique hsame ▸ hnot⟩))
  | call loc callee? args =>
    obtain ⟨f, params, prototyped, result, rfl, hsignature, -⟩ := htyped
    have hresult := (h.signature hsignature).2
    obtain ⟨symbol, external, hget, hkind, hreturns⟩ := hsignature
    have hcall : (Node.call loc (some f) args).HasType tables result := by
      simp [Node.HasType, Node.type, SymbolTable.get_eq_ok_iff.mpr hget, hkind, hreturns, bind,
        Except.bind, pure, Except.pure]
    exact Or.inl (hcall.unique htype ▸ hresult)
  | cast loc target operand =>
    cases htype
    exact Or.inr (Or.inr (Or.inl ⟨loc, operand, rfl, htyped.1⟩))
  | integer loc value =>
    cases value with
    | signed => exact Or.inl (Or.inr (hbuiltin .s64 rfl (Except.ok.inj htype).symm))
    | unsigned => exact Or.inl (Or.inr (hbuiltin .u64 rfl (Except.ok.inj htype).symm))
  | boolean => exact Or.inl (Or.inr (hbuiltin .bool rfl (Except.ok.inj htype).symm))
  | _ => exact Or.inl (Or.inl (Except.ok.inj htype).symm)

/-- Only variables are structs: nothing computes one. -/
lemma isStorage_of_composite (h : program.Accepted tables) (hholds : program.Holds owner node)
    (htype : node.HasType tables type) (hcomposite : tables.types.Composite type) :
    node.isStorage = true := by
  rcases h.type_cases hholds htype with (rfl | hscalar) | ⟨hstorage, -⟩ | ⟨-, -, -, hnot⟩ |
    ⟨-, -, -, -, -, -, hnot⟩
  · exact absurd hcomposite (h.complete.sound.types.not_composite_builtin .void)
  · exact absurd hcomposite hscalar.not_composite
  · exact hstorage
  · exact absurd hcomposite hnot
  · exact absurd hcomposite hnot

/-- Where a node has no value though its type is not called `void`, a cast has taken the value
away: the node itself, or something that is consumed below it. -/
lemma exists_castsToVoid (h : program.Accepted tables) (hholds : program.Holds owner node)
    (htype : node.HasType tables type) (hvoid : tables.types.Deep type (.builtin .void))
    (hnamed : type ≠ Builtin.void.id) : node.castsToVoid tables = true ∨
      ∃ n ∈ Node.checkOrderAll program.items, ∃ part ∈ n.consumed,
        part.castsToVoid tables = true := by
  induction node using Node.induction generalizing owner with
  | step node ih =>
    rcases h.type_cases hholds htype with (hnone | hscalar) | ⟨-, hnot⟩ | ⟨loc, operand, rfl, -⟩ |
      ⟨loc, op, lhs, rhs, rfl, hleft, -⟩
    · exact absurd hnone hnamed
    · exact absurd hvoid hscalar.not_void
    · exact absurd hvoid hnot
    · have hvalid := (h.checked_of_holds hholds).valid
      exact Or.inl ((Node.isOf_iff h.complete hvalid htype .void).mpr hvoid)
    · have hpart : lhs ∈ [lhs, rhs] := List.mem_cons_self
      rcases ih lhs hpart (hholds.inside hpart) hleft with hcast | hbelow
      · exact Or.inr ⟨_, hholds.mem_checkOrderAll, lhs, hpart, hcast⟩
      · exact Or.inr hbelow

/-- What a rule looks at is no struct, and has a value unless its type is `void` under another
name. -/
lemma consumed_cases (h : program.Accepted tables) (hfits : ¬ program.Excessive tables)
    (hholds : program.Holds owner node) (hpart : part ∈ node.consumed)
    (htype : part.HasType tables type) : tables.types.Scalar type ∨
      (tables.types.Deep type (.builtin .void) ∧ type ≠ Builtin.void.id) := by
  have htyped := h.wellTyped hholds
  have hinside := hholds.inside (node.consumed_subset hpart)
  obtain ⟨type', htype', hhas⟩ :=
    Node.type_ok h.complete part (h.checked_of_holds hinside).valid
  obtain rfl := htype.unique htype'
  -- every type ends in a scalar, in a struct or in `void`
  have hnamed : ¬ tables.types.Composite type → type ≠ Builtin.void.id →
      tables.types.Scalar type ∨
        (tables.types.Deep type (.builtin .void) ∧ type ≠ Builtin.void.id) := by
    intro hnot hne
    rcases h.complete.sound.types.deep_cases hhas with hscalar | hcomposite | hvoid
    · exact Or.inl hscalar
    · exact absurd hcomposite hnot
    · exact Or.inr ⟨hvoid, hne⟩
  have hcond : type = Builtin.bool.id → tables.types.Scalar type := by
    rintro rfl
    exact ⟨.bool, (h.complete.sound.types.denotes_builtin .bool).deep, rfl⟩
  cases node with
  | binary loc op lhs rhs =>
    obtain ⟨type', hleft, hright, hne, hnot, -⟩ := htyped
    have hsame : type = type' := by
      simp only [Node.consumed, List.mem_cons, List.not_mem_nil, or_false] at hpart
      rcases hpart with rfl | rfl
      · exact htype.unique hleft
      · exact htype.unique hright
    subst hsame
    exact hnamed hnot hne
  | call loc callee? args =>
    obtain ⟨f, params, prototyped, result, rfl, hsignature, hargs⟩ := htyped
    cases prototyped with
    | true =>
      have hmem := mem_of_mapM_eq_ok (Node.types_eq_ok_iff.mpr hargs) hpart htype
      obtain ⟨param, hparam, rfl⟩ := List.mem_map.mp hmem
      exact Or.inl ((h.signature hsignature).1 param hparam)
    | false =>
      refine hnamed (fun hcomposite => hfits ?_) fun hvoid => ?_
      · -- a struct would have been read, for which there is no code
        have hstruct : part.IsStruct tables :=
          ⟨h.isStorage_of_composite hinside htype hcomposite, type, htype, hcomposite⟩
        have hread : part ∈ (Node.call loc (some f) args).evaluated :=
          List.mem_append_left _ hpart
        exact Or.inr (Or.inr ⟨_, part, .inside hholds hread, hstruct⟩)
      · subst hvoid
        exact hargs part hpart htype
  | ifThen loc cond body | whileLoop loc cond body =>
    obtain rfl := List.mem_singleton.mp hpart
    exact Or.inl (hcond (htype.unique htyped))
  | ifElse loc cond thenBody elseBody =>
    obtain rfl := List.mem_singleton.mp hpart
    exact Or.inl (hcond (htype.unique htyped))
  | forLoop loc init cond step body =>
    obtain rfl := List.mem_singleton.mp hpart
    exact Or.inl (hcond (htype.unique htyped))
  | cast loc target operand =>
    obtain rfl := List.mem_singleton.mp hpart
    obtain ⟨-, type', hoperand, hscalar⟩ := htyped
    exact Or.inl (htype.unique hoperand ▸ hscalar)
  | _ => simp [Node.consumed] at hpart

end Program.Accepted

/-! ## Programs -/

/-- A program for which there is code asks no more of the backend than there is. -/
lemma not_excessive_of_generate {program : Program} {ws ws' : Workspace} {assembly : Assembly}
    (haccepted : program.Accepted ws.toTables) (h : generate program ws = .ok assembly ws') :
    ¬ program.Excessive ws.toTables := by
  have hrun := generate_attempts haccepted.toAnalyzed haccepted.settled
  rw [haccepted.feasible_iff] at hrun
  unfold Attempts at hrun
  rw [h] at hrun
  exact hrun.1

/-- In every program that is analyzed and compiled, all values that are consumed are scalars, unless
one of them is a cast to `void` under another name. -/
theorem consumesScalars_iff {file source : String} {program : Program} {ws ws' : Workspace}
    {assembly : Assembly} (hanalyze : analyze source (.initial file) = .ok program ws)
    (hgenerate : generate program ws = .ok assembly ws') :
    program.ConsumesScalars ws.toTables ↔ ∀ node ∈ Node.checkOrderAll program.items,
      ∀ part ∈ node.consumed, part.castsToVoid ws.toTables = false := by
  have h := (Program.Accepted.of_analyze hanalyze).1
  have hfits := not_excessive_of_generate h hgenerate
  -- what is known of a part that is consumed somewhere
  have hconsumed : ∀ node ∈ Node.checkOrderAll program.items, ∀ part ∈ node.consumed,
      ∃ owner type, program.Holds owner part ∧ part.HasType ws.toTables type ∧
        (part.isScalar ws.toTables = true ↔ ws.types.Scalar type) ∧
        (ws.types.Scalar type ∨
          (ws.types.Deep type (.builtin .void) ∧ type ≠ Builtin.void.id)) := by
    intro node hnode part hpart
    obtain ⟨owner, hholds⟩ := Program.exists_holds hnode
    have hinside := hholds.inside (node.consumed_subset hpart)
    have hvalid := (h.checked_of_holds hinside).valid
    obtain ⟨type, htype, -⟩ := Node.type_ok h.complete part hvalid
    exact ⟨_, type, hinside, htype, Node.isScalar_iff h.complete hvalid htype,
      h.consumed_cases hfits hholds hpart htype⟩
  constructor
  · intro hscalars node hnode part hpart
    obtain ⟨owner, type, hholds, htype, hiff, -⟩ := hconsumed node hnode part hpart
    have hscalar := hiff.mp (hscalars node hnode part hpart)
    cases part with
    | cast loc target operand =>
      have hvalid := (h.checked_of_holds hholds).valid
      rw [Node.castsToVoid, ← Bool.not_eq_true, Node.isOf_iff h.complete hvalid htype]
      exact hscalar.not_void
    | _ => rfl
  · intro hnone node hnode part hpart
    obtain ⟨owner, type, hholds, htype, hiff, hcases⟩ := hconsumed node hnode part hpart
    refine hiff.mpr (hcases.resolve_right ?_)
    rintro ⟨hvoid, hnamed⟩
    rcases h.exists_castsToVoid hholds htype hvoid hnamed with hcast | ⟨n, hn, other, hother, hcast⟩
    · simp [hnone node hnode part hpart] at hcast
    · simp [hnone n hn other hother] at hcast

/-- Values of types with several names are used in all places. -/
theorem consumesScalars_iff_names : ∃ program ws assembly ws',
    analyze "(typedef t bool) (typedef r t) (exfun g) (let r x) (while (== x (r 3)) (g x (u64 x)))"
      (.initial "names") = .ok program ws ∧
    generate program ws = .ok assembly ws' ∧
    (program.ConsumesScalars ws.toTables ↔ ∀ node ∈ Node.checkOrderAll program.items,
      ∀ part ∈ node.consumed, part.castsToVoid ws.toTables = false) := by
  have hcompiles : compiles "names"
      "(typedef t bool) (typedef r t) (exfun g) (let r x) (while (== x (r 3)) (g x (u64 x)))" =
      true := by
    decide +kernel
  obtain ⟨program, ws, assembly, ws', hanalyze, hgenerate⟩ := runs_of_compiles hcompiles
  exact ⟨program, ws, assembly, ws', hanalyze, hgenerate, consumesScalars_iff hanalyze hgenerate⟩

/-- An operator is applied to two things without values. -/
theorem not_consumesScalars_void : ∃ program ws assembly ws',
    analyze "(typedef v void) (+ (v 1) (v 2))" (.initial "void") = .ok program ws ∧
    generate program ws = .ok assembly ws' ∧ ¬ program.ConsumesScalars ws.toTables := by
  have hcompiles : compilesAnd "void" "(typedef v void) (+ (v 1) (v 2))"
      (fun program tables _ => ¬ program.ConsumesScalars tables) = true := by
    decide +kernel
  obtain ⟨program, ws, assembly, ws', hanalyze, hgenerate, hvoid⟩ := runs_of_compilesAnd hcompiles
  exact ⟨program, ws, assembly, ws', hanalyze, hgenerate, of_decide_eq_true hvoid⟩

end ParenC
