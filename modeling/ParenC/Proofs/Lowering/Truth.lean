/-
Truth values in expressions.

A boolean is meant to be the word 0 or 1.  Literals, comparisons, casts and variables keep to that
as long as the variables hold such words, and so does any operator on booleans that neither adds
nor subtracts: `Lowers.settled` follows the code of an expression and finds a truth value on the
stack at its end, and nothing but truth values stored in boolean variables on the way.
-/
import ParenC.Proofs.Lowering.Correctness

namespace ParenC

open Lowering

/-! ## Words -/

/-- The word is that of a truth value. -/
def Word.IsTruth (word : Word) : Prop := word = 0 ∨ word = 1

namespace Word

instance (word : Word) : Decidable word.IsTruth := inferInstanceAs (Decidable (_ ∨ _))

lemma isTruth_ofBool (b : Bool) : (ofBool b).IsTruth := by
  cases b <;> decide

/-- A truth value fits into a byte. -/
lemma IsTruth.lowByte_eq {word : Word} (h : word.IsTruth) : word.lowByte = word := by
  rcases h with rfl | rfl <;> decide

end Word

/-- Products, quotients and remainders of truth values are truth values. -/
lemma ArithOp.isTruth_of_apply {op : ArithOp} (hadd : op ≠ .add) (hsub : op ≠ .sub)
    {unsigned : Bool} {a b word : Word} (ha : a.IsTruth) (hb : b.IsTruth)
    (h : op.apply unsigned a b = some word) : word.IsTruth := by
  rcases ha with rfl | rfl <;> rcases hb with rfl | rfl <;> cases unsigned <;> cases op <;>
    first
    | exact absurd rfl hadd
    | exact absurd rfl hsub
    | cases h
  all_goals decide

/-- Whether an operator adds booleans or subtracts them. -/
def Node.sumsTruths (tables : Tables) : Node → Bool
  | .binary _ (.arith .add) lhs _ | .binary _ (.arith .sub) lhs _ => lhs.isOf tables .bool
  | _ => false

/-! ## Types -/

namespace Node

variable {tables : Tables} {owner : Option SymbolId}

/-- Operators other than comparisons have values of the type of their operands. -/
lemma Usable.operands_isOf {loc : Location} {op : BinOp} {lhs rhs : Node}
    (h : (binary loc op lhs rhs).Usable tables owner) (which : Builtin) :
    rhs.isOf tables which = lhs.isOf tables which := by
  obtain ⟨type, hleft, hright, -⟩ := h.checked.rule
  simp only [isOf, deepType, hleft, hright]

end Node

namespace Lowering

variable {tables : Tables} {owner : Option SymbolId} {used : Nat} {answers : Nat → Answer}

/-! ## Instructions on the way -/

/-- The condition holds of each instruction when its turn comes. -/
def Along (answers : Nat → Answer) (cond : Machine → Instr → Prop) : Machine → List Instr → Prop
  | _, [] => True
  | m, instr :: code =>
    cond m instr ∧ ∀ m', m.exec answers instr = .ok m' → Along answers cond m' code

lemma Along.append {cond : Machine → Instr → Prop} {m : Machine} {first second : List Instr}
    (h : Along answers cond m first)
    (hnext : ∀ m', m.run answers first = .ok m' → Along answers cond m' second) :
    Along answers cond m (first ++ second) := by
  induction first generalizing m with
  | nil => exact hnext m rfl
  | cons instr rest ih =>
    refine ⟨h.1, fun m₁ hexec => ih (h.2 m₁ hexec) fun m' hrun => hnext m' ?_⟩
    rw [Machine.run_cons_of_ok hexec]
    exact hrun

lemma along_of_forall {cond : Machine → Instr → Prop} {code : List Instr}
    (h : ∀ instr ∈ code, ∀ m, cond m instr) (m : Machine) : Along answers cond m code := by
  induction code generalizing m with
  | nil => trivial
  | cons instr rest ih =>
    exact ⟨h instr (by simp) m, fun m' _ => ih (fun i hi => h i (by simp [hi])) m'⟩

/-- Whether the instruction leaves `%rbp` and the frame alone, and moves nothing to `%rsp`. -/
def isTame : Instr → Bool
  | .movb .. | .movq _ (.frame _) | .movq _ (.imm _) => false
  | .movq _ (.reg dst) => dst ≠ .rbp ∧ dst ≠ .rsp
  | .popq dst | .movzbq _ dst | .movabsq _ dst | .addq _ dst | .subq _ dst | .imulq _ dst
  | .xorq _ dst | .xorl _ dst | .set _ dst => dst ≠ .rbp
  | .pushq _ | .cqto | .idivq _ | .divq _ | .cmpq .. | .call _ => true

/-- The instruction leaves the frame alone, or it stores something in a variable, and a truth value
if the variable is a boolean. -/
def Respects (tables : Tables) (owner : Option SymbolId) (m : Machine) (instr : Instr) : Prop :=
  isTame instr = true ∨ ∃ id place src, instr = place.store src ∧ HasPlace tables owner id place ∧
    (place.width = .byte → (m.regs src).lowByte.IsTruth)

lemma along_of_tame {code : List Instr} (h : ∀ instr ∈ code, isTame instr = true) (m : Machine) :
    Along answers (Respects tables owner) m code :=
  along_of_forall (fun instr hinstr _ => Or.inl (h instr hinstr)) m

lemma Respects.ne_leave {m : Machine} {instr : Instr} (h : Respects tables owner m instr) :
    instr ≠ .movq (.reg .rbp) (.reg .rsp) := by
  rintro rfl
  rcases h with h | ⟨id, ⟨offset, _ | _⟩, src, h, -⟩
  · simp [isTame] at h
  · cases h
  · cases h

/-! ## Positions -/

/-- The lines that a machine may stand at while it runs. -/
abbrev Positions := List Line → Machine → Prop

/-- A machine that executes an instruction then stands at the lines behind it. -/
def Positions.Closed (stands : Positions) (answers : Nat → Answer) : Prop :=
  ∀ ⦃instr rest m m'⦄, instr ≠ .movq (.reg .rbp) (.reg .rsp) → stands (.instr instr :: rest) m →
    m.exec answers instr = .ok m' → stands rest m'

/-- Whenever the code of a call of type `bool` is run, the callee leaves a truth value in the low
byte of `%rax`. -/
def AnswersTruths (tables : Tables) (answers : Nat → Answer) (runs : List (Nat × Node))
    (stands : Positions) : Prop :=
  ∀ ⦃depth loc callee args part rest m m' n⦄, (depth, .call loc callee args) ∈ runs →
    Node.isOf tables .bool (.call loc callee args) = true →
    value tables (.call loc callee args) depth = .ok (part, depth + 1) →
    stands (plain part ++ rest) m → m.run answers part = .ok m' → m'.calls.length = n + 1 →
    (answers n).result.lowByte.IsTruth

lemma Along.stands {stands : Positions} (closed : stands.Closed answers) {m m' : Machine}
    {code : List Instr} {rest : List Line} (h : Along answers (Respects tables owner) m code)
    (hat : stands (plain code ++ rest) m) (hrun : m.run answers code = .ok m') : stands rest m' := by
  induction code generalizing m with
  | nil =>
    cases hrun
    exact hat
  | cons instr code ih =>
    rw [Machine.run_cons] at hrun
    cases hexec : m.exec answers instr with
    | error trap => simp [hexec, bind, Except.bind] at hrun
    | ok m₁ =>
      rw [hexec] at hrun
      exact ih (h.2 m₁ hexec) (closed h.1.ne_leave hat hexec) hrun

/-! ## Stores and results -/

end Lowering

/-- The boolean variables hold truth values. -/
def Store.HoldsTruths (tables : Tables) (owner : Option SymbolId) (s : Store) : Prop :=
  ∀ ⦃id place⦄, HasPlace tables owner id place → place.width = .byte → (s.locals id).IsTruth

namespace Lowering

variable {tables : Tables} {owner : Option SymbolId} {used : Nat} {answers : Nat → Answer}

/-- From `m` the machine got to `m'` with the value of the expression on the stack: a truth value
if it is a boolean, with truth values in the boolean variables. -/
structure Settles (tables : Tables) (owner : Option SymbolId) (used : Nat) (node : Node)
    (m m' : Machine) (word : Word) (s : Store) : Prop extends
    Leaves tables owner used m m' word s where
  /-- The boolean variables hold truth values. -/
  store : s.HoldsTruths tables owner
  /-- A boolean is a truth value. -/
  truth : node.isOf tables .bool = true → word.IsTruth

lemma evaluating_bind_eq_ok {α β : Type} {act : Evaluating α} {next : α → Evaluating β} {s : Store}
    {result : β × Store} : (act >>= next) s = .ok result ↔
      ∃ a s₁, act s = .ok (a, s₁) ∧ next a s₁ = .ok result := by
  simp only [bind, StateT.bind, Except.bind]
  rcases act s with trap | ⟨a, s₁⟩ <;> simp

namespace Agrees

variable {α : Type} {post post' : Machine → α → Store → Prop} {real : Except Trap Machine}
  {ideal : Except Trap (α × Store)}

/-- Where the machine has an end, so has the evaluation. -/
lemma of_run {m : Machine} (h : Agrees post real ideal) (hreal : real = .ok m) :
    ∃ a s, ideal = .ok (a, s) ∧ post m a s := by
  subst hreal
  rcases ideal with (_ | _) | ⟨a, s⟩
  · exact h.elim
  · exact h.elim
  · exact ⟨a, s, rfl, h⟩

/-- Where the evaluation has an end, so has the machine. -/
lemma of_result {a : α} {s : Store} (h : Agrees post real ideal) (hideal : ideal = .ok (a, s)) :
    ∃ m, real = .ok m ∧ post m a s := by
  subst hideal
  rcases real with (_ | _) | m
  · exact h.elim
  · exact h.elim
  · exact ⟨m, rfl, h⟩

lemma imp (h : Agrees post real ideal)
    (himp : ∀ m a s, real = .ok m → ideal = .ok (a, s) → post m a s → post' m a s) :
    Agrees post' real ideal := by
  rcases real with (_ | _) | m <;> rcases ideal with (_ | _) | ⟨a, s⟩
  case ok.ok => exact himp m a s rfl rfl h
  all_goals exact h

end Agrees

/-! ## Expressions -/

lemma self_mem_valueRuns (depth : Nat) (node : Node) : (depth, node) ∈ valueRuns depth node := by
  cases node with
  | binary loc op lhs rhs => cases op <;> exact List.mem_cons_self
  | _ => exact List.mem_cons_self

mutual

/-- A run that is part of a run for an expression brings its own parts with it. -/
theorem valueRuns_trans (node : Node) {depth : Nat} {run inner : Nat × Node}
    (h : run ∈ valueRuns depth node) (hinner : inner ∈ valueRuns run.1 run.2) :
    inner ∈ valueRuns depth node := by
  match node with
  | .binary loc .assign lhs rhs =>
    rcases List.mem_cons.mp h with rfl | h
    · exact hinner
    · exact List.mem_cons_of_mem _ (valueRuns_trans rhs h hinner)
  | .binary loc (.arith op) lhs rhs | .binary loc (.compare op) lhs rhs =>
    rcases List.mem_cons.mp h with rfl | h
    · exact hinner
    refine List.mem_cons_of_mem _ (List.mem_append.mpr ?_)
    rcases List.mem_append.mp h with h | h
    · exact Or.inl (valueRuns_trans rhs h hinner)
    · exact Or.inr (valueRuns_trans lhs h hinner)
  | .call loc callee? args =>
    rcases List.mem_cons.mp h with rfl | h
    · exact hinner
    · exact List.mem_cons_of_mem _ (argumentRuns_trans args h hinner)
  | .cast loc target operand =>
    rcases List.mem_cons.mp h with rfl | h
    · exact hinner
    · exact List.mem_cons_of_mem _ (valueRuns_trans operand h hinner)
  | .integer .. | .boolean .. | .varRef .. | .varDecl .. | .block .. | .externDecl ..
  | .functionDef .. | .ifThen .. | .ifElse .. | .whileLoop .. | .forLoop .. | .returnVoid ..
  | .returnValue .. | .typedefDecl .. | .empty _ =>
    cases List.mem_singleton.mp h
    exact hinner

/-- So does one for arguments. -/
theorem argumentRuns_trans (args : List Node) {depth loaded : Nat} {run inner : Nat × Node}
    (h : run ∈ argumentRuns depth loaded args) (hinner : inner ∈ valueRuns run.1 run.2) :
    inner ∈ argumentRuns depth loaded args := by
  match args with
  | [] => simp [argumentRuns] at h
  | arg :: rest =>
    rw [argumentRuns, List.mem_append] at h ⊢
    rcases h with h | h
    · exact Or.inl (valueRuns_trans arg h hinner)
    · exact Or.inr (argumentRuns_trans rest h hinner)

end

/-- The runs of a function bring their parts with them. -/
lemma Function.runs_trans {function : Function} {run inner : Nat × Node}
    (h : run ∈ function.runs) (hinner : inner ∈ valueRuns run.1 run.2) : inner ∈ function.runs := by
  obtain ⟨root, hroot, hrun⟩ := List.mem_flatMap.mp h
  exact List.mem_flatMap.mpr ⟨root, hroot, valueRuns_trans root hrun hinner⟩

/-- The code of an expression is what the generator gives for it. -/
lemma Lowers.value_eq {node : Node} {depth : Nat} {code : Counted Instr}
    (h : Lowers tables (.value node) depth code) :
    value tables node depth = .ok (code.erase, depth + 1) := by
  rw [← Counted.erase_value]
  exact map_eq_ok.mpr ⟨code, h.emitted, rfl⟩

/-- Run from `m`, the code ends with the value of the expression, and stores nothing but truth values
in boolean variables on the way. -/
structure RunsTruly (tables : Tables) (owner : Option SymbolId) (used : Nat)
    (answers : Nat → Answer) (node : Node) (code : List Instr) (m : Machine) (s : Store) : Prop where
  /-- What the code computes. -/
  agrees : Agrees (Settles tables owner used node m) (m.run answers code)
    (node.evaluate tables (fun n => (answers n).result) s)
  /-- What it does on the way. -/
  along : Along answers (Respects tables owner) m code

/-- The code runs so from any machine that stands at it and represents variables with truth values. -/
def Reliable (tables : Tables) (owner : Option SymbolId) (used : Nat) (answers : Nat → Answer)
    (stands : Positions) (node : Node) (code : List Instr) : Prop :=
  ∀ m s rest, Represents tables owner used m s → s.HoldsTruths tables owner →
    8 * code.length ≤ (m.regs .rsp).toNat → stands (plain code ++ rest) m →
    RunsTruly tables owner used answers node code m s

/-- What holds of the code of a job that is run where it stands: the values and variables that are
booleans are truth values at the end and on the way. -/
def Job.Settled (tables : Tables) (owner : Option SymbolId) (used : Nat) (answers : Nat → Answer)
    (runs : List (Nat × Node)) (stands : Positions) (depth : Nat) (code : List Instr) : Job → Prop
  | .value node => node.Usable tables owner → (∀ run ∈ valueRuns depth node, run ∈ runs) →
      ∀ m s rest, Represents tables owner used m s → s.HoldsTruths tables owner →
      8 * code.length ≤ (m.regs .rsp).toNat → stands (plain code ++ rest) m →
      RunsTruly tables owner used answers node code m s
  | .arguments taken free args => (∀ arg ∈ args, arg.Usable tables owner) →
      taken ++ free = Reg.arguments → (∀ run ∈ argumentRuns depth taken.length args, run ∈ runs) →
      ∀ m s rest, Represents tables owner used m s → s.HoldsTruths tables owner →
      8 * code.length ≤ (m.regs .rsp).toNat → stands (plain code ++ rest) m →
      Agrees (fun m' words s' => Loads tables owner used taken free m m' words s' ∧
          s'.HoldsTruths tables owner) (m.run answers code)
          (Node.evaluateAll tables (fun n => (answers n).result) args s) ∧
        Along answers (Respects tables owner) m code

variable {runs : List (Nat × Node)} {stands : Positions}

/-- The operands of an operator are settled one after the other. -/
lemma operands_settled {lhs rhs : Node} {right left tail : List Instr} {rest : List Line}
    {m : Machine} {s : Store} (closed : stands.Closed answers)
    (hm : Represents tables owner used m s) (hs : s.HoldsTruths tables owner)
    (hroom : 8 * (right.length + left.length + 2 + tail.length) ≤ (m.regs .rsp).toNat)
    (hstands : stands (plain (right ++ left ++ [.popq .rax, .popq .rdi] ++ tail) ++ rest) m)
    (hright : Reliable tables owner used answers stands rhs right)
    (hleft : Reliable tables owner used answers stands lhs left)
    (htail : ∀ instr ∈ tail, isTame instr = true) :
    (∀ {finish : Word → Word → Evaluating Word} {word s'}, (do
        let b ← rhs.evaluate tables (fun n => (answers n).result)
        let a ← lhs.evaluate tables (fun n => (answers n).result)
        finish a b) s = .ok (word, s') →
      ∃ a b s₂, finish a b s₂ = .ok (word, s') ∧ s₂.HoldsTruths tables owner ∧
        (lhs.isOf tables .bool = true → a.IsTruth) ∧ (rhs.isOf tables .bool = true → b.IsTruth)) ∧
    Along answers (Respects tables owner) m
      (right ++ left ++ [.popq .rax, .popq .rdi] ++ tail) := by
  obtain ⟨hvalue, halong⟩ := hright m s (plain (left ++ [.popq .rax, .popq .rdi] ++ tail) ++ rest)
    hm hs (by omega) (by simpa [plain] using hstands)
  -- the left operand is computed on the machine that the right one leaves
  have hnext : ∀ {m₁ b s₁}, m.run answers right = .ok m₁ →
      Settles tables owner used rhs m m₁ b s₁ →
      RunsTruly tables owner used answers lhs left m₁ s₁ := by
    intro m₁ b s₁ hrun hb
    have hstack := hb.stack
    refine hleft m₁ s₁ (plain ([.popq .rax, .popq .rdi] ++ tail) ++ rest) hb.represents hb.store
      (by omega) (halong.stands closed ?_ hrun)
    simpa [plain] using hstands
  constructor
  · intro finish word s' hresult
    obtain ⟨b, s₁, hb, hresult⟩ := evaluating_bind_eq_ok.mp hresult
    obtain ⟨a, s₂, ha, hresult⟩ := evaluating_bind_eq_ok.mp hresult
    obtain ⟨m₁, hrun, hb⟩ := hvalue.of_result hb
    obtain ⟨m₂, -, ha⟩ := (hnext hrun hb).agrees.of_result ha
    exact ⟨a, b, s₂, hresult, ha.store, ha.truth, hb.truth⟩
  · rw [List.append_assoc, List.append_assoc]
    refine halong.append fun m₁ hrun => ?_
    obtain ⟨b, s₁, -, hb⟩ := hvalue.of_run hrun
    have htaken : ∀ instr ∈ [.popq .rax, .popq .rdi], isTame instr = true := by decide
    exact (hnext hrun hb).along.append fun m₂ _ =>
      along_of_tame (List.forall_mem_append.mpr ⟨htaken, htail⟩) m₂

/-- What a literal or a variable means, on the way and at the end. -/
lemma leaf_settled {node : Node} {code : List Instr} {m : Machine} {s : Store} {word : Word}
    (hcorrect : Agrees (Leaves tables owner used m) (m.run answers code)
      (node.evaluate tables (fun n => (answers n).result) s))
    (hevaluate : node.evaluate tables (fun n => (answers n).result) s = .ok (word, s))
    (hs : s.HoldsTruths tables owner) (htruth : node.isOf tables .bool = true → word.IsTruth)
    (htame : ∀ instr ∈ code, isTame instr = true) :
    RunsTruly tables owner used answers node code m s := by
  refine ⟨hcorrect.imp fun m' word' s' _ hresult hleaves => ?_, along_of_tame htame m⟩
  rw [hevaluate] at hresult
  cases hresult
  exact ⟨hleaves, hs, htruth⟩

lemma integer_isOf (complete : tables.Complete) (loc : Location) (v : IntegerValue) :
    Node.isOf tables .bool (.integer loc v) = false := by
  have hroot : ∀ which : Builtin, tables.types.resolve which.id = .ok which.id := fun which =>
    (complete.sound.types.denotes_builtin which).resolve
  cases v with
  | signed v =>
    have hdeep : Node.deepType tables (.integer loc (.signed v)) = .ok Builtin.s64.id := hroot .s64
    rw [Node.isOf_eq hdeep]
    rfl
  | unsigned v =>
    have hdeep : Node.deepType tables (.integer loc (.unsigned v)) = .ok Builtin.u64.id :=
      hroot .u64
    rw [Node.isOf_eq hdeep]
    rfl

lemma arithmetic_tame (unsigned : Bool) (op : ArithOp) :
    ∀ instr ∈ Counted.arithmeticCode unsigned op, isTame instr = true := by
  cases op <;> cases unsigned <;> decide

lemma comparison_tame (unsigned : Bool) (op : CompareOp) :
    ∀ instr ∈ Counted.comparisonCode unsigned op, isTame instr = true := by
  cases op <;> cases unsigned <;> decide

/-- An operator that adds no booleans makes booleans of booleans. -/
lemma arith_settled {loc : Location} {op : ArithOp} {lhs rhs : Node} {unsigned : Bool}
    {right left : List Instr} {rest : List Line} {m : Machine} {s : Store}
    (closed : stands.Closed answers)
    (hnode : (Node.binary loc (.arith op) lhs rhs).Usable tables owner)
    (hsums : Node.sumsTruths tables (.binary loc (.arith op) lhs rhs) = false)
    (hcorrect : Agrees (Leaves tables owner used m)
      (m.run answers
        (right ++ left ++ [.popq .rax, .popq .rdi] ++ Counted.arithmeticCode unsigned op))
      ((Node.binary loc (.arith op) lhs rhs).evaluate tables (fun n => (answers n).result) s))
    (hm : Represents tables owner used m s) (hs : s.HoldsTruths tables owner)
    (hroom : 8 * (right.length + left.length + 2 + (Counted.arithmeticCode unsigned op).length) ≤
      (m.regs .rsp).toNat)
    (hstands : stands (plain (right ++ left ++ [.popq .rax, .popq .rdi] ++
      Counted.arithmeticCode unsigned op) ++ rest) m)
    (hright : Reliable tables owner used answers stands rhs right)
    (hleft : Reliable tables owner used answers stands lhs left) :
    RunsTruly tables owner used answers (.binary loc (.arith op) lhs rhs)
      (right ++ left ++ [.popq .rax, .popq .rdi] ++ Counted.arithmeticCode unsigned op) m s := by
  have hsame := hnode.operands_isOf .bool
  obtain ⟨hvalues, halong⟩ := operands_settled closed hm hs hroom hstands hright hleft
    (arithmetic_tame unsigned op)
  refine ⟨hcorrect.imp fun m' word' s' _ hresult hleaves => ?_, halong⟩
  obtain ⟨a, b, s₂, hresult, hstore, ha, hb⟩ := hvalues hresult
  cases happly : op.apply (lhs.isOf tables .u64) a b with
  | none =>
    rw [happly] at hresult
    cases hresult
  | some word₁ =>
    rw [happly] at hresult
    cases hresult
    refine ⟨hleaves, hstore, fun hbool => ?_⟩
    -- the operands are booleans too, and they are not summed
    have hlhs : lhs.isOf tables .bool = true := hbool
    have hop : op ≠ .add ∧ op ≠ .sub := by
      constructor <;> rintro rfl <;> exact absurd (hlhs.symm.trans hsums) (by decide)
    exact ArithOp.isTruth_of_apply hop.1 hop.2 (ha hlhs) (hb (hsame.trans hlhs)) happly

/-- A comparison makes a boolean of any operands. -/
lemma compare_settled {loc : Location} {op : CompareOp} {lhs rhs : Node} {unsigned : Bool}
    {right left : List Instr} {rest : List Line} {m : Machine} {s : Store}
    (closed : stands.Closed answers)
    (hcorrect : Agrees (Leaves tables owner used m)
      (m.run answers
        (right ++ left ++ [.popq .rax, .popq .rdi] ++ Counted.comparisonCode unsigned op))
      ((Node.binary loc (.compare op) lhs rhs).evaluate tables (fun n => (answers n).result) s))
    (hm : Represents tables owner used m s) (hs : s.HoldsTruths tables owner)
    (hroom : 8 * (right.length + left.length + 2 + (Counted.comparisonCode unsigned op).length) ≤
      (m.regs .rsp).toNat)
    (hstands : stands (plain (right ++ left ++ [.popq .rax, .popq .rdi] ++
      Counted.comparisonCode unsigned op) ++ rest) m)
    (hright : Reliable tables owner used answers stands rhs right)
    (hleft : Reliable tables owner used answers stands lhs left) :
    RunsTruly tables owner used answers (.binary loc (.compare op) lhs rhs)
      (right ++ left ++ [.popq .rax, .popq .rdi] ++ Counted.comparisonCode unsigned op) m s := by
  obtain ⟨hvalues, halong⟩ := operands_settled closed hm hs hroom hstands hright hleft
    (comparison_tame unsigned op)
  refine ⟨hcorrect.imp fun m' word' s' _ hresult hleaves => ?_, halong⟩
  obtain ⟨a, b, s₂, hresult, hstore, -, -⟩ := hvalues hresult
  cases hresult
  exact ⟨hleaves, hstore, fun _ => Word.isTruth_ofBool _⟩

/-- A conversion to `bool` compares with zero. -/
lemma toBool_settled {loc : Location} {target source : TypeId} {operand : Node}
    {code : List Instr} {m : Machine} {s : Store}
    (goal : tables.types.resolve target = .ok Builtin.bool.id)
    (origin : operand.deepType tables = .ok source) (other : source ≠ Builtin.bool.id)
    (hcorrect : Agrees (Leaves tables owner used m)
      (m.run answers (code ++ .popq .rax :: Counted.boolCode))
      ((Node.cast loc target operand).evaluate tables (fun n => (answers n).result) s))
    (hinner : RunsTruly tables owner used answers operand code m s) :
    RunsTruly tables owner used answers (.cast loc target operand)
      (code ++ .popq .rax :: Counted.boolCode) m s := by
  constructor
  · refine hcorrect.imp fun m' word' s' _ hresult hleaves => ?_
    rw [Node.evaluate_toBool goal origin other] at hresult
    obtain ⟨word₁, s₁, hvalue, hresult⟩ := evaluating_bind_eq_ok.mp hresult
    obtain ⟨m₁, -, hword⟩ := hinner.agrees.of_result hvalue
    cases hresult
    exact ⟨hleaves, hword.store, fun _ => Word.isTruth_ofBool _⟩
  · exact hinner.along.append fun m₁ _ => along_of_tame (by decide) m₁

/-- A conversion that computes nothing keeps the value, and makes a boolean of a boolean only. -/
lemma keep_settled {loc : Location} {target root source : TypeId} {operand : Node}
    {code : List Instr} {m : Machine} {s : Store} (goal : tables.types.resolve target = .ok root)
    (origin : operand.deepType tables = .ok source)
    (same : ¬ (root = Builtin.bool.id ∧ source ≠ Builtin.bool.id))
    (hinner : RunsTruly tables owner used answers operand code m s) :
    RunsTruly tables owner used answers (.cast loc target operand) code m s := by
  refine ⟨?_, hinner.along⟩
  rw [Node.evaluate_keep goal origin same]
  refine hinner.agrees.imp fun m' word s' _ _ hword =>
    ⟨hword.toLeaves, hword.store, fun hbool => ?_⟩
  have hsame := (Node.cast_converts loc goal origin).trans (decide_eq_false same)
  exact hword.truth (by simpa [hbool] using hsame)

lemma callSequence_tame (depth : Nat) (name : String) (returnsBool : Bool) :
    ∀ instr ∈ Counted.callSequence depth name returnsBool, isTame instr = true := by
  unfold Counted.callSequence Counted.padded Counted.extension
  split <;> split <;> simp [isTame]

/-- Storing a truth value in a boolean variable. -/
lemma holdsTruths_set (framed : Framed tables owner used) {s : Store} {id : SymbolId}
    {place : Slot} (hplace : HasPlace tables owner id place) (hs : s.HoldsTruths tables owner)
    {word : Word} (hword : place.width = .byte → word.IsTruth) :
    (s.set id word).HoldsTruths tables owner := by
  intro other place' hplace' hwidth
  have hlocals : (s.set id word).locals other = if other = id then word else s.locals other := rfl
  rw [hlocals]
  split
  · rename_i hid
    subst hid
    rw [framed.unique hplace' hplace] at hwidth
    exact hword hwidth
  · exact hs hplace' hwidth

/-- The value of an assignment is also what its variable holds then. -/
lemma assign_settled (ready : Ready tables owner) (framed : Framed tables owner used)
    {loc : Location} {lhs rhs : Node} {place : Slot} {right : List Instr} {m : Machine} {s : Store}
    (hnode : (Node.binary loc .assign lhs rhs).Usable tables owner)
    (target : storage tables lhs = .ok place)
    (hcorrect : Agrees (Leaves tables owner used m)
      (m.run answers (right ++ .popq .rax :: [place.store .rax, .pushq (.reg .rax)]))
      ((Node.binary loc .assign lhs rhs).evaluate tables (fun n => (answers n).result) s))
    (hright : RunsTruly tables owner used answers rhs right m s) :
    RunsTruly tables owner used answers (.binary loc .assign lhs rhs)
      (right ++ .popq .rax :: [place.store .rax, .pushq (.reg .rax)]) m s := by
  obtain ⟨id, hid, hplace, hbool, -⟩ := storage_place ready.complete hnode.operands.1 target
  have hsame := hnode.operands_isOf .bool
  -- a boolean variable is given a boolean
  have htruth : ∀ {m₁ word s₁}, Settles tables owner used rhs m m₁ word s₁ →
      place.width = .byte → word.IsTruth :=
    fun hword hwidth => hword.truth (hsame.trans (hbool.trans (decide_eq_true hwidth)))
  constructor
  · refine hcorrect.imp fun m' word s' _ hresult hleaves => ?_
    obtain ⟨word₁, s₁, hvalue, hresult⟩ := evaluating_bind_eq_ok.mp hresult
    obtain ⟨m₁, -, hword⟩ := hright.agrees.of_result hvalue
    rw [assign_eq hid hbool] at hresult
    cases hresult
    refine ⟨hleaves, holdsTruths_set framed hplace hword.store fun hwidth => ?_, fun hnodeBool => ?_⟩
    · rw [if_pos hwidth, (htruth hword hwidth).lowByte_eq]
      exact htruth hword hwidth
    · exact hword.truth (hsame.trans hnodeBool)
  · refine hright.along.append fun m₁ hrun => ?_
    obtain ⟨word, s₁, -, hword⟩ := hright.agrees.of_run hrun
    refine ⟨Or.inl rfl, fun m₂ hpop => ⟨Or.inr ⟨id, place, .rax, rfl, hplace, fun hwidth => ?_⟩,
      fun m₃ _ => along_of_tame (by simp [isTame]) m₃⟩⟩
    cases hpop
    have hrax : (m₁.pop .rax).regs .rax = word := hword.top
    rw [hrax, (htruth hword hwidth).lowByte_eq]
    exact htruth hword hwidth

/-- The value of a call of type `bool` is the low byte of what the callee answers. -/
lemma call_result {loc : Location} {callee : SymbolId} {symbol : Symbol} {args : List Node}
    {root : TypeId} {word : Word} {s s' : Store} (target : tables.symbols.get callee = .ok symbol)
    (hbool : Node.isOf tables .bool (.call loc (some callee) args) =
      decide (root = Builtin.bool.id))
    (h : (Node.call loc (some callee) args).evaluate tables (fun n => (answers n).result) s =
      .ok (word, s')) : ∃ words s₁,
      Node.evaluateAll tables (fun n => (answers n).result) args s = .ok (words, s₁) ∧
      s₁.called symbol.name words = s' ∧
      (Node.isOf tables .bool (.call loc (some callee) args) = true →
        word = (answers s₁.calls.length).result.lowByte) := by
  obtain ⟨words, s₁, hwords, hresult⟩ := evaluating_bind_eq_ok.mp h
  rw [ask_eq target hbool] at hresult
  cases hresult
  refine ⟨words, s₁, hwords, rfl, fun hnodeBool => ?_⟩
  rw [if_pos (of_decide_eq_true (hbool ▸ hnodeBool))]

/-- A call is settled if its arguments are, and if the callee answers with truth values. -/
lemma call_settled {loc : Location} {callee : SymbolId} {symbol : Symbol} {args : List Node}
    {root : TypeId} {loading tail : List Instr} {m : Machine} {s : Store}
    (target : tables.symbols.get callee = .ok symbol)
    (hbool : Node.isOf tables .bool (.call loc (some callee) args) =
      decide (root = Builtin.bool.id))
    (hcorrect : Agrees (Leaves tables owner used m) (m.run answers (loading ++ tail))
      ((Node.call loc (some callee) args).evaluate tables (fun n => (answers n).result) s))
    (hargs : Agrees (fun m' words s' => Loads tables owner used [] Reg.arguments m m' words s' ∧
        s'.HoldsTruths tables owner) (m.run answers loading)
      (Node.evaluateAll tables (fun n => (answers n).result) args s))
    (halong : Along answers (Respects tables owner) m loading)
    (htail : ∀ instr ∈ tail, isTame instr = true)
    (hanswer : Node.isOf tables .bool (.call loc (some callee) args) = true → ∀ ⦃m' n⦄,
      m.run answers (loading ++ tail) = .ok m' → m'.calls.length = n + 1 →
        (answers n).result.lowByte.IsTruth) :
    RunsTruly tables owner used answers (.call loc (some callee) args) (loading ++ tail) m s := by
  refine ⟨hcorrect.imp fun m' word s' hrun hresult hleaves => ?_,
    halong.append fun m₁ _ => along_of_tame htail m₁⟩
  obtain ⟨words, s₁, hwords, rfl, hword⟩ := call_result target hbool hresult
  obtain ⟨m₁, -, -, hstore⟩ := hargs.of_result hwords
  refine ⟨hleaves, hstore, fun hnodeBool => ?_⟩
  -- the answer is the one to the last call on record
  have hcount : m'.calls.length = s₁.calls.length + 1 := by
    rw [hleaves.represents.calls.length_eq, Store.called, List.length_append]
    rfl
  rw [hword hnodeBool]
  exact hanswer hnodeBool hrun hcount

/-- Registers are saved on the stack. -/
lemma pushes_reach (framed : Framed tables owner used) {regs : List Reg} {m m' : Machine} {s : Store}
    {k : Nat} (h : Reaches tables owner used k m m' s)
    (hroom : 8 * regs.length ≤ (m'.regs .rsp).toNat) : ∃ m'',
      m'.run answers (regs.map fun reg => .pushq (.reg reg)) = .ok m'' ∧
      Reaches tables owner used (k + regs.length) m m'' s := by
  induction regs generalizing m' k with
  | nil => exact ⟨m', rfl, h⟩
  | cons reg rest ih =>
    rw [List.length_cons] at hroom
    have hpushed : Reaches tables owner used (k + 1) m (m'.push (m'.regs reg)) s :=
      h.push framed (by omega)
    have hstack := h.stack
    have hstack' := hpushed.stack
    obtain ⟨m'', hrun, hreach⟩ := ih hpushed (by omega)
    refine ⟨m'', (Machine.run_cons_of_ok rfl _).trans hrun, ?_⟩
    rwa [List.length_cons, Nat.add_comm rest.length, ← Nat.add_assoc]

/-- An argument is computed on top of the registers that are saved, and popped into its own. -/
lemma argument_settled (framed : Framed tables owner used) (closed : stands.Closed answers)
    {taken free : List Reg} {reg : Reg} {arg : Node} {depth : Nat} {code : Counted Instr}
    (hcode : Lowers tables (.value arg) depth code)
    (hregs : taken ++ reg :: free = Reg.arguments)
    (hcorrect : ∀ m s, Represents tables owner used m s →
      8 * code.erase.length ≤ (m.regs .rsp).toNat →
      Agrees (Leaves tables owner used m) (m.run answers code.erase)
        (arg.evaluate tables (fun n => (answers n).result) s))
    (hsettled : Reliable tables owner used answers stands arg code.erase)
    {m : Machine} {s : Store} {rest : List Line} (hm : Represents tables owner used m s)
    (hs : s.HoldsTruths tables owner)
    (hroom : 8 * ((Counted.savedFor taken arg).length + code.erase.length) ≤ (m.regs .rsp).toNat)
    (hstands : stands (plain ((Counted.savedFor taken arg).map (fun r => .pushq (.reg r)) ++
      code.erase ++ .popq reg :: (Counted.savedFor taken arg).reverse.map .popq) ++ rest) m) :
    Agrees (fun m' _ s' => Reaches tables owner used 0 m m' s' ∧ s'.HoldsTruths tables owner)
        (m.run answers ((Counted.savedFor taken arg).map (fun r => .pushq (.reg r)) ++
          code.erase ++ .popq reg :: (Counted.savedFor taken arg).reverse.map .popq))
        (arg.evaluate tables (fun n => (answers n).result) s) ∧
      Along answers (Respects tables owner) m
        ((Counted.savedFor taken arg).map (fun r => .pushq (.reg r)) ++
          code.erase ++ .popq reg :: (Counted.savedFor taken arg).reverse.map .popq) := by
  have hagrees := argument_agrees framed hcode hregs hcorrect hm hroom
  have hmem : ∀ r ∈ Counted.savedFor taken arg, r ∈ taken := by
    unfold Counted.savedFor
    split <;> simp
  generalize Counted.savedFor taken arg = saved at *
  have hpopped : ∀ instr ∈ Instr.popq reg :: saved.reverse.map .popq, isTame instr = true := by
    have hall : ∀ r ∈ taken ++ reg :: free, isTame (.popq r) = true := by
      rw [hregs]
      decide
    simp only [List.forall_mem_cons, List.forall_mem_map, List.mem_reverse]
    exact ⟨hall reg (by simp), fun r hr => hall r (List.mem_append_left _ (hmem r hr))⟩
  -- the machine on which the argument is computed
  obtain ⟨m₀, hsaving, hpushed⟩ := @pushes_reach tables owner used answers framed saved m m s 0
    (.refl hm) (by omega)
  have hstack := hpushed.stack
  have hsave : Along answers (Respects tables owner) m (saved.map fun r => .pushq (.reg r)) :=
    along_of_tame (by simp [isTame]) m
  obtain ⟨hvalue, halong⟩ := hsettled m₀ s
    (plain (.popq reg :: saved.reverse.map .popq) ++ rest) hpushed.represents hs (by omega)
    (hsave.stands closed (by simpa [plain] using hstands) hsaving)
  refine ⟨hagrees.imp fun m' word s' _ hresult hreaches => ?_, ?_⟩
  · obtain ⟨m₁, -, hword⟩ := hvalue.of_result hresult
    exact ⟨hreaches.1, hword.store⟩
  · refine (hsave.append fun m' hrun => ?_).append fun m' _ => along_of_tame hpopped m'
    cases hsaving.symm.trans hrun
    exact halong

/-- An argument and, on the machine that it leaves, the ones after it. -/
lemma arguments_settled {taken free : List Reg} {reg : Reg} {arg : Node} {others : List Node}
    {first next : List Instr} {m : Machine} {s : Store}
    (hcorrect : Agrees (Loads tables owner used taken (reg :: free) m)
      (m.run answers (first ++ next))
      (Node.evaluateAll tables (fun n => (answers n).result) (arg :: others) s))
    (hfirst : Agrees (fun m' _ s' => Reaches tables owner used 0 m m' s' ∧
        s'.HoldsTruths tables owner) (m.run answers first)
      (arg.evaluate tables (fun n => (answers n).result) s))
    (halong : Along answers (Respects tables owner) m first)
    (hnext : ∀ {m₁ s₁}, m.run answers first = .ok m₁ → Reaches tables owner used 0 m m₁ s₁ →
      s₁.HoldsTruths tables owner →
      Agrees (fun m' words s' => Loads tables owner used (taken ++ [reg]) free m₁ m' words s' ∧
          s'.HoldsTruths tables owner) (m₁.run answers next)
          (Node.evaluateAll tables (fun n => (answers n).result) others s₁) ∧
        Along answers (Respects tables owner) m₁ next) :
    Agrees (fun m' words s' => Loads tables owner used taken (reg :: free) m m' words s' ∧
        s'.HoldsTruths tables owner) (m.run answers (first ++ next))
        (Node.evaluateAll tables (fun n => (answers n).result) (arg :: others) s) ∧
      Along answers (Respects tables owner) m (first ++ next) := by
  constructor
  · refine hcorrect.imp fun m' words s' _ hresult hloads => ⟨hloads, ?_⟩
    obtain ⟨word, s₁, hword, hresult⟩ := evaluating_bind_eq_ok.mp hresult
    obtain ⟨words', s₂, hwords, hresult⟩ := evaluating_bind_eq_ok.mp hresult
    cases hresult
    obtain ⟨m₁, hrun, hreaches, hstore⟩ := hfirst.of_result hword
    obtain ⟨m₂, -, -, hstore'⟩ := (hnext hrun hreaches hstore).1.of_result hwords
    exact hstore'
  · refine halong.append fun m₁ hrun => ?_
    obtain ⟨word, s₁, -, hreaches, hstore⟩ := hfirst.of_run hrun
    exact (hnext hrun hreaches hstore).2

/-- By induction on the shape of the code. -/
theorem Lowers.settled (ready : Ready tables owner) (framed : Framed tables owner used)
    (closed : stands.Closed answers) (sums : ∀ run ∈ runs, run.2.sumsTruths tables = false)
    (truthful : AnswersTruths tables answers runs stands) {job : Job} {depth : Nat}
    {code : Counted Instr} (h : Lowers tables job depth code) :
    job.Settled tables owner used answers runs stands depth code.erase := by
  have correct : ∀ {job depth code}, Lowers tables job depth code →
      job.Correct tables owner used answers code.erase := fun h => h.correct ready framed
  induction h with
  | @literal loc v depth half =>
    intro hnode _ m s rest hm hs hroom _
    refine leaf_settled (correct (Lowers.literal half) hnode m s hm hroom) rfl hs ?_ ?_
    · simp [integer_isOf ready.complete]
    · simp [isTame]
  | @wideLiteral loc v depth wide =>
    intro hnode _ m s rest hm hs hroom _
    refine leaf_settled (correct (Lowers.wideLiteral wide) hnode m s hm hroom) rfl hs
      ?_ ?_
    · simp [integer_isOf ready.complete]
    · simp [isTame]
  | @boolean loc b depth =>
    intro hnode _ m s rest hm hs hroom _
    refine leaf_settled (correct .boolean hnode m s hm hroom) rfl hs ?_ ?_
    · exact fun _ => Word.isTruth_ofBool b
    · simp [isTame]
  | @load node place depth isStorage source =>
    intro hnode _ m s rest hm hs hroom _
    obtain ⟨id, -, hplace, hbool, hevaluate⟩ := storage_place ready.complete hnode source
    refine leaf_settled (correct (Lowers.load isStorage source) hnode m s hm hroom)
      (congrFun (hevaluate _) s) hs ?_ ?_
    · intro htrue
      exact hs hplace (of_decide_eq_true (hbool ▸ htrue))
    · rcases place with ⟨offset, _ | _⟩ <;> simp [Slot.load, isTame]
  | @assign loc lhs rhs code place depth right target ih =>
    intro hnode hruns m s rest hm hs hroom hstands
    have hcorrect := correct (Lowers.assign right target) hnode m s hm hroom
    simp only [Counted.erase_append, Counted.erase_cons, Counted.erase_level, List.length_append,
      List.length_cons] at hroom hstands hcorrect ⊢
    refine assign_settled ready framed hnode target hcorrect ?_
    exact ih hnode.operands.2 (fun run hrun => hruns run (List.mem_cons_of_mem _ hrun)) m s
      (plain [.popq .rax, place.store .rax, .pushq (.reg .rax)] ++ rest) hm hs (by omega)
      (by simpa [plain] using hstands)
  | arith right left sign ihRight ihLeft =>
    intro hnode hruns m s rest hm hs hroom hstands
    have hcorrect := correct (Lowers.arith right left sign) hnode m s hm hroom
    simp only [Counted.erase_append, Counted.erase_pops, Counted.erase_level, List.length_append,
      List.map_cons, List.map_nil, List.length_cons, List.length_nil] at hroom hstands hcorrect ⊢
    exact arith_settled closed hnode (sums _ (hruns _ List.mem_cons_self)) hcorrect hm hs (by omega)
      hstands (ihRight hnode.operands.2 fun run hrun => hruns run (by simp [valueRuns, hrun]))
      (ihLeft hnode.operands.1 fun run hrun => hruns run (by simp [valueRuns, hrun]))
  | compare right left sign ihRight ihLeft =>
    intro hnode hruns m s rest hm hs hroom hstands
    have hcorrect := correct (Lowers.compare right left sign) hnode m s hm hroom
    simp only [Counted.erase_append, Counted.erase_pops, Counted.erase_level, List.length_append,
      List.map_cons, List.map_nil, List.length_cons, List.length_nil] at hroom hstands hcorrect ⊢
    exact compare_settled closed hcorrect hm hs (by omega) hstands
      (ihRight hnode.operands.2 fun run hrun => hruns run (by simp [valueRuns, hrun]))
      (ihLeft hnode.operands.1 fun run hrun => hruns run (by simp [valueRuns, hrun]))
  | @call loc callee args loading symbol result root depth arguments target typed resolved ih =>
    intro hnode hruns m s rest hm hs hroom hstands
    have hlowers : Lowers tables (.value (.call loc (some callee) args)) depth _ :=
      .call arguments target typed resolved
    have hcorrect := correct hlowers hnode m s hm hroom
    have hanswer := fun hbool m' n (hrun : m.run answers _ = .ok m') =>
      @truthful _ _ _ _ _ _ _ _ n (hruns _ List.mem_cons_self) hbool hlowers.value_eq hstands hrun
    obtain ⟨hargs, halong⟩ := ih (fun arg harg => hnode.part harg rfl) rfl
      (fun run hrun => hruns run (List.mem_cons_of_mem _ hrun)) m s
      (plain (Counted.callSequence depth symbol.name (root = Builtin.bool.id)) ++ rest) hm hs
      (by simp at hroom; omega) (by simpa [plain] using hstands)
    rw [Counted.erase_append, Counted.erase_level] at hcorrect hanswer ⊢
    exact call_settled target (call_isOf hnode.checked.valid.self target typed resolved) hcorrect
      hargs halong (callSequence_tame _ _ _) hanswer
  | toBool inner goal origin other ih =>
    intro hnode hruns m s rest hm hs hroom hstands
    have hcorrect := correct (Lowers.toBool inner goal origin other) hnode m s hm hroom
    simp only [Counted.erase_append, Counted.erase_cons, Counted.erase_level, List.length_append,
      List.length_cons] at hroom hstands hcorrect ⊢
    refine toBool_settled goal origin other hcorrect ?_
    exact ih hnode.operand (fun run hrun => hruns run (List.mem_cons_of_mem _ hrun)) m s
      (plain (.popq .rax :: Counted.boolCode) ++ rest) hm hs (by omega)
      (by simpa [plain] using hstands)
  | keep inner goal origin same ih =>
    intro hnode hruns m s rest hm hs hroom hstands
    exact keep_settled goal origin same (ih hnode.operand
      (fun run hrun => hruns run (List.mem_cons_of_mem _ hrun)) m s rest hm hs hroom hstands)
  | @noArguments taken free depth =>
    intro hargs hregs _ m s rest hm hs hroom _
    have hnone : Lowers tables (.arguments taken free []) depth [] := .noArguments
    refine ⟨(correct hnone hargs hregs m s hm hroom).imp ?_, trivial⟩
    intro m' words s' _ hresult hloads
    cases hresult
    exact ⟨hloads, hs⟩
  | @argument taken reg free arg others code later depth first next ihFirst ihLater =>
    intro hargs hregs hruns m s rest hm hs hroom hstands
    have hcorrect := correct (Lowers.argument first next) hargs hregs m s hm hroom
    have harg := hargs arg (by simp)
    have hsaved : (if arg.isLeaf then 0 else taken.length) =
        (Counted.savedFor taken arg).length := by
      unfold Counted.savedFor
      split <;> rfl
    simp only [argumentRuns, hsaved, List.forall_mem_append] at hruns
    simp only [Counted.erase_append, Counted.erase_cons, Counted.erase_pushes, Counted.erase_pops,
      List.length_append, List.length_cons, List.length_map, List.length_reverse]
      at hroom hstands hcorrect ⊢
    obtain ⟨hfirst, halong⟩ := argument_settled framed closed first hregs (correct first harg)
      (ihFirst harg hruns.1) hm hs (by omega)
      (show stands (plain _ ++ (plain later.erase ++ rest)) m by simpa [plain] using hstands)
    refine arguments_settled hcorrect hfirst halong fun {m₁ s₁} hrun hreaches hstore => ?_
    exact ihLater (fun arg harg => hargs arg (by simp [harg])) (by simpa using hregs)
      (by simpa using hruns.2) m₁ s₁ rest hreaches.represents hstore
      (by rw [hreaches.stack_eq]; omega)
      (halong.stands closed (by simpa [plain] using hstands) hrun)

end Lowering

end ParenC
