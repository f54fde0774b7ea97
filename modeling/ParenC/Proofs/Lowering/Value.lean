/-
The code of expressions, as a relation.

`Lowers` says which instructions are emitted for an expression, or for the arguments of a call,
when a given number of values is on the stack, and what the counter is at each of them.  There is
one constructor for each shape of code, so that facts about emitted code are proved by induction
on it; what the generating functions do is looked at once, in `value_lowers` and `Lowers.emitted`.
-/
import ParenC.Proofs.Lowering.Counted
import ParenC.Proofs.Tree

namespace ParenC.Lowering

/-! ## Runs of the generator -/

/-- Two actions succeed one after the other just if there is a result in between. -/
lemma bind_eq_ok {α β : Type} {act : Emitting α} {next : α → Emitting β} {depth depth₂ : Nat}
    {b : β} : (act >>= next) depth = .ok (b, depth₂) ↔
      ∃ a depth₁, act depth = .ok (a, depth₁) ∧ next a depth₁ = .ok (b, depth₂) := by
  simp only [bind, StateT.bind, Except.bind]
  rcases act depth with obstacle | ⟨a, depth₁⟩ <;> simp

lemma map_eq_ok {α β : Type} {act : Emitting α} {f : α → β} {depth depth' : Nat} {b : β} :
    (f <$> act) depth = .ok (b, depth') ↔ ∃ a, act depth = .ok (a, depth') ∧ f a = b := by
  simp only [Functor.map, StateT.map, bind, Except.bind]
  rcases act depth with obstacle | ⟨a, depth₁⟩
  · simp
  · simp only [pure, Except.pure, Except.ok.injEq, Prod.mk.injEq]
    constructor
    · rintro ⟨rfl, rfl⟩
      exact ⟨a, ⟨rfl, rfl⟩, rfl⟩
    · rintro ⟨_, ⟨rfl, rfl⟩, rfl⟩
      exact ⟨rfl, rfl⟩

/-- Going on after a run that is known. -/
lemma bind_of_run {α β : Type} {act : Emitting α} {next : α → Emitting β} {depth depth₁ : Nat}
    {a : α} (hact : act depth = .ok (a, depth₁)) : (act >>= next) depth = next a depth₁ := by
  simp only [bind, StateT.bind, hact, Except.bind]

/-- Going on after a run of which something is known. -/
lemma bind_of_spec {α β : Type} {act : Emitting α} {next : α → Emitting β} {spec : α → Prop}
    {depth depth₁ : Nat} {result : β × Nat}
    (hact : ∀ {a depth'}, act depth = .ok (a, depth') → depth' = depth₁ ∧ spec a)
    (h : (act >>= next) depth = .ok result) : ∃ a, spec a ∧ next a depth₁ = .ok result := by
  obtain ⟨a, depth', hrun, hnext⟩ := bind_eq_ok.mp h
  obtain ⟨rfl, hspec⟩ := hact hrun
  exact ⟨a, hspec, hnext⟩

lemma lift_bind_eq_ok {α β : Type} {x : Lowered α} {next : α → Emitting β} {depth : Nat}
    {result : β × Nat} : ((liftM x : Emitting α) >>= next) depth = .ok result ↔
      ∃ a, x = .ok a ∧ next a depth = .ok result := by
  cases x with
  | error obstacle =>
    simp [liftM, monadLift, MonadLift.monadLift, StateT.lift, bind, StateT.bind, Except.bind]
  | ok a =>
    simp [liftM, monadLift, MonadLift.monadLift, StateT.lift, bind, StateT.bind, Except.bind,
      pure, Except.pure]

lemma pure_eq_ok {α : Type} {a b : α} {depth depth' : Nat} :
    (pure a : Emitting α) depth = .ok (b, depth') ↔ b = a ∧ depth' = depth := by
  simp [pure, Counted.pure_at, eq_comm]

lemma promised_eq_ok {α : Type} {x : Except Defect α} {a : α} :
    promised x = .ok a ↔ x = .ok a := by
  cases x <;> simp [promised]

namespace Counted

/-! ## Shapes of code -/

/-- Code that pushes the values in several registers. -/
def pushes : (depth : Nat) → List Reg → Counted Instr
  | _, [] => []
  | depth, reg :: rest => (depth, .pushq (.reg reg)) :: pushes (depth + 1) rest

/-- Code that pops values into several registers until `depth` are left. -/
def pops (depth : Nat) : List Reg → Counted Instr
  | [] => []
  | reg :: rest => (depth + rest.length + 1, .popq reg) :: pops depth rest

@[simp] lemma erase_pushes (depth : Nat) (regs : List Reg) :
    erase (pushes depth regs) = regs.map fun reg => .pushq (.reg reg) := by
  induction regs generalizing depth with
  | nil => rfl
  | cons reg rest ih => exact congrArg _ (ih _)

@[simp] lemma erase_pops (depth : Nat) (regs : List Reg) :
    erase (pops depth regs) = regs.map .popq := by
  induction regs with
  | nil => rfl
  | cons reg rest ih => exact congrArg _ ih

lemma push_eq (src : Operand) (depth : Nat) :
    push src depth = .ok ([(depth, .pushq src)], depth + 1) := rfl

lemma pop_eq (dst : Reg) (depth : Nat) :
    pop dst (depth + 1) = .ok ([(depth + 1, .popq dst)], depth) := rfl

lemma pushAll_eq (regs : List Reg) (depth : Nat) :
    pushAll regs depth = .ok (pushes depth regs, depth + regs.length) := by
  induction regs generalizing depth with
  | nil => rfl
  | cons reg rest ih =>
    refine bind_eq_ok.mpr ⟨_, _, push_eq _ _, bind_eq_ok.mpr ⟨_, _, ih _, pure_eq_ok.mpr ?_⟩⟩
    refine ⟨rfl, ?_⟩
    rw [List.length_cons]
    omega

lemma popAll_eq (regs : List Reg) (depth : Nat) :
    popAll regs (depth + regs.length) = .ok (pops depth regs, depth) := by
  induction regs with
  | nil => rfl
  | cons reg rest ih => exact bind_eq_ok.mpr ⟨_, _, pop_eq _ _, bind_eq_ok.mpr ⟨_, _, ih, rfl⟩⟩

/-- Code for an arithmetic operator, its left operand in `%rax` and its right one in `%rdi`. -/
def arithmeticCode (unsigned : Bool) : ArithOp → List Instr
  | .add => [.addq (.reg .rdi) .rax, .pushq (.reg .rax)]
  | .sub => [.subq (.reg .rdi) .rax, .pushq (.reg .rax)]
  | .mul => [.imulq .rdi .rax, .pushq (.reg .rax)]
  | .div => division unsigned ++ [.pushq (.reg .rax)]
  | .mod => division unsigned ++ [.pushq (.reg .rdx)]

lemma arithmetic_eq (unsigned : Bool) (op : ArithOp) (depth : Nat) :
    arithmetic unsigned op depth = .ok (level depth (arithmeticCode unsigned op), depth + 1) := by
  cases op <;> cases unsigned <;> rfl

/-- Code for a comparison, its left operand in `%rax` and its right one in `%rdi`. -/
def comparisonCode (unsigned : Bool) (op : CompareOp) : List Instr :=
  [.xorq .rsi .rsi, .cmpq (.reg .rdi) .rax, .set (condition unsigned op) .rsi,
    .pushq (.reg .rsi)]

lemma comparison_eq (unsigned : Bool) (op : CompareOp) (depth : Nat) :
    comparison unsigned op depth =
      .ok (level depth (comparisonCode unsigned op), depth + 1) := rfl

/-- Instructions around which the stack is padded if there is an odd number of values on it. -/
def padded (depth : Nat) (code : List Instr) : List Instr :=
  if depth % 2 = 1 then .subq (.imm 8) .rsp :: code ++ [.addq (.imm 8) .rsp] else code

/-- Code that clears all but the low byte of a result, if it is a boolean. -/
def extension (returnsBool : Bool) : List Instr :=
  if returnsBool then [.movzbq (.reg .rax) .rax] else []

/-- Code for a call, its arguments in their registers and `depth` values on the stack. -/
def callSequence (depth : Nat) (name : String) (returnsBool : Bool) : List Instr :=
  padded depth [.movq (.imm 0) (.reg .rax), .call name] ++ extension returnsBool ++
    [.pushq (.reg .rax)]

lemma callCode_eq (name : String) (returnsBool : Bool) (depth : Nat) :
    callCode name returnsBool depth =
      .ok (level depth (callSequence depth name returnsBool), depth + 1) := by
  have hrun : callCode name returnsBool depth = .ok (level depth
      ((if depth % 2 = 1 then [.subq (.imm 8) .rsp] else []) ++
        [.movq (.imm 0) (.reg .rax), .call name] ++
        (if depth % 2 = 1 then [.addq (.imm 8) .rsp] else []) ++ extension returnsBool ++
        [.pushq (.reg .rax)]), depth + 1) := by
    simp only [level, List.map_append]
    rfl
  rw [hrun]
  by_cases hodd : depth % 2 = 1 <;> simp [callSequence, padded, hodd]

/-- Code that turns the value in `%rax` into a boolean and pushes it. -/
def boolCode : List Instr :=
  [.cmpq (.imm 0) .rax, .set .notEqual .rax, .movzbq (.reg .rax) .rax, .pushq (.reg .rax)]

lemma toBool_eq (depth : Nat) :
    toBool (depth + 1) = .ok ((depth + 1, .popq .rax) :: level depth boolCode, depth + 1) := rfl

/-- The registers that are saved while an argument is computed. -/
def savedFor (used : List Reg) (arg : Node) : List Reg := if arg.isLeaf then [] else used

end Counted

/-! ## The relation -/

/-- What code is emitted for. -/
inductive Job
  /-- An expression, the value of which is pushed. -/
  | value (node : Node)
  /-- Arguments that are loaded into the `free` registers while the `used` ones keep theirs. -/
  | arguments (used free : List Reg) (args : List Node)

/-- How many values the code leaves on the stack. -/
def Job.pushed : Job → Nat
  | value _ => 1
  | arguments .. => 0

/-- The generator at work. -/
def Job.run (tables : Tables) : Job → Emitting (Counted Instr)
  | value node => Counted.value tables node
  | arguments used free args => Counted.arguments tables used free args

open Counted in
/-- The instructions that are emitted for a job while `depth` values are on the stack. -/
inductive Lowers (tables : Tables) : Job → (depth : Nat) → Counted Instr → Prop
  | literal {loc v depth} (half : v.fitsHalf = true) :
      Lowers tables (.value (.integer loc v)) depth [(depth, .pushq (.imm v.word))]
  | wideLiteral {loc v depth} (wide : v.fitsHalf = false) :
      Lowers tables (.value (.integer loc v)) depth
        (level depth [.movabsq v.word .rax, .pushq (.reg .rax)])
  | boolean {loc b depth} :
      Lowers tables (.value (.boolean loc b)) depth
        [(depth, .pushq (.imm (if b then 1 else 0)))]
  | load {node slot depth} (isStorage : node.isStorage = true)
      (source : storage tables node = .ok slot) :
      Lowers tables (.value node) depth (level depth [slot.load, .pushq (.reg .rax)])
  | assign {loc lhs rhs code slot depth} (right : Lowers tables (.value rhs) depth code)
      (target : storage tables lhs = .ok slot) :
      Lowers tables (.value (.binary loc .assign lhs rhs)) depth
        (code ++ (depth + 1, .popq .rax) :: level depth [slot.store .rax, .pushq (.reg .rax)])
  | arith {loc op lhs rhs rightCode leftCode unsigned depth}
      (right : Lowers tables (.value rhs) depth rightCode)
      (left : Lowers tables (.value lhs) (depth + 1) leftCode)
      (sign : isUnsigned tables lhs = .ok unsigned) :
      Lowers tables (.value (.binary loc (.arith op) lhs rhs)) depth
        (rightCode ++ leftCode ++ pops depth [.rax, .rdi] ++
          level depth (arithmeticCode unsigned op))
  | compare {loc op lhs rhs rightCode leftCode unsigned depth}
      (right : Lowers tables (.value rhs) depth rightCode)
      (left : Lowers tables (.value lhs) (depth + 1) leftCode)
      (sign : isUnsigned tables lhs = .ok unsigned) :
      Lowers tables (.value (.binary loc (.compare op) lhs rhs)) depth
        (rightCode ++ leftCode ++ pops depth [.rax, .rdi] ++
          level depth (comparisonCode unsigned op))
  | call {loc callee args loading symbol result root depth}
      (arguments : Lowers tables (.arguments [] Reg.arguments args) depth loading)
      (target : tables.symbols.get callee = .ok symbol) (typed : symbol.type = .ok result)
      (resolved : tables.types.resolve result = .ok root) :
      Lowers tables (.value (.call loc (some callee) args)) depth
        (loading ++ level depth (callSequence depth symbol.name (root = Builtin.bool.id)))
  | toBool {loc target operand code source depth}
      (inner : Lowers tables (.value operand) depth code)
      (goal : tables.types.resolve target = .ok Builtin.bool.id)
      (origin : operand.deepType tables = .ok source) (other : source ≠ Builtin.bool.id) :
      Lowers tables (.value (.cast loc target operand)) depth
        (code ++ (depth + 1, .popq .rax) :: level depth boolCode)
  | keep {loc target operand code root source depth}
      (inner : Lowers tables (.value operand) depth code)
      (goal : tables.types.resolve target = .ok root)
      (origin : operand.deepType tables = .ok source)
      (same : ¬ (root = Builtin.bool.id ∧ source ≠ Builtin.bool.id)) :
      Lowers tables (.value (.cast loc target operand)) depth code
  | noArguments {used free depth} : Lowers tables (.arguments used free []) depth []
  | argument {used reg free arg rest code others depth}
      (first : Lowers tables (.value arg) (depth + (savedFor used arg).length) code)
      (later : Lowers tables (.arguments (used ++ [reg]) free rest) depth others) :
      Lowers tables (.arguments used (reg :: free) (arg :: rest)) depth
        (pushes depth (savedFor used arg) ++ code ++
          (depth + (savedFor used arg).length + 1, .popq reg) ::
          pops depth (savedFor used arg).reverse ++ others)

variable {tables : Tables}

namespace Counted

lemma literal_lowers {loc : Location} {v : IntegerValue} {depth depth' : Nat}
    {code : Counted Instr} (h : literal v depth = .ok (code, depth')) :
    depth' = depth + 1 ∧ Lowers tables (.value (.integer loc v)) depth code := by
  unfold literal at h
  split at h
  · rename_i half
    cases h
    exact ⟨rfl, .literal half⟩
  · rename_i wide
    cases h
    exact ⟨rfl, .wideLiteral (by simpa using wide)⟩

/-- The operands of an operator are computed, right one first, and popped. -/
lemma operands_lowers {lhs rhs : Node} {depth depth' : Nat} {code : Counted Instr}
    {finish : Bool → Emitting (Counted Instr)} {tail : Bool → List Instr}
    (hfinish : ∀ unsigned depth, finish unsigned depth =
      .ok (level depth (tail unsigned), depth + 1))
    (hright : ∀ {depth depth' code}, value tables rhs depth = .ok (code, depth') →
      depth' = depth + 1 ∧ Lowers tables (.value rhs) depth code)
    (hleft : ∀ {depth depth' code}, value tables lhs depth = .ok (code, depth') →
      depth' = depth + 1 ∧ Lowers tables (.value lhs) depth code)
    (h : (do
      let right ← value tables rhs
      let left ← value tables lhs
      let taken ← popAll [.rax, .rdi]
      let unsigned ← promised (isUnsigned tables lhs)
      return right ++ left ++ taken ++ (← finish unsigned) : Emitting (Counted Instr)) depth =
      .ok (code, depth')) :
    depth' = depth + 1 ∧ ∃ rightCode leftCode unsigned,
      Lowers tables (.value rhs) depth rightCode ∧
      Lowers tables (.value lhs) (depth + 1) leftCode ∧ isUnsigned tables lhs = .ok unsigned ∧
      code = rightCode ++ leftCode ++ pops depth [.rax, .rdi] ++ level depth (tail unsigned) := by
  obtain ⟨rightCode, hrightCode, h⟩ := bind_of_spec hright h
  obtain ⟨leftCode, hleftCode, h⟩ := bind_of_spec hleft h
  have htaken : popAll [.rax, .rdi] (depth + 1 + 1) = .ok (pops depth [.rax, .rdi], depth) :=
    popAll_eq [.rax, .rdi] depth
  rw [bind_of_run htaken] at h
  obtain ⟨unsigned, hunsigned, h⟩ := lift_bind_eq_ok.mp h
  rw [bind_of_run (hfinish unsigned depth)] at h
  obtain ⟨rfl, rfl⟩ := pure_eq_ok.mp h
  exact ⟨rfl, rightCode, leftCode, unsigned, hrightCode, hleftCode,
    promised_eq_ok.mp hunsigned, rfl⟩

lemma arguments_cons (used free : List Reg) (reg : Reg) (arg : Node) (rest : List Node) :
    arguments tables used (reg :: free) (arg :: rest) = (do
      let saving ← pushAll (savedFor used arg)
      let code ← value tables arg
      let taken ← pop reg
      let restoring ← popAll (savedFor used arg).reverse
      let others ← arguments tables (used ++ [reg]) free rest
      return saving ++ code ++ taken ++ restoring ++ others) := rfl

mutual

/-- What is emitted for an expression. -/
theorem value_lowers (node : Node) {depth depth' : Nat} {code : Counted Instr}
    (h : value tables node depth = .ok (code, depth')) :
    depth' = depth + 1 ∧ Lowers tables (.value node) depth code := by
  match node with
  | .integer loc v => exact literal_lowers h
  | .boolean loc b =>
    cases h
    exact ⟨rfl, .boolean⟩
  | .varRef loc symbol? =>
    obtain ⟨slot, hslot, h⟩ := lift_bind_eq_ok.mp h
    cases h
    exact ⟨rfl, .load rfl hslot⟩
  | .varDecl loc symbol? =>
    obtain ⟨slot, hslot, h⟩ := lift_bind_eq_ok.mp h
    cases h
    exact ⟨rfl, .load rfl hslot⟩
  | .binary loc .assign lhs rhs =>
    obtain ⟨right, hright, h⟩ := bind_of_spec (value_lowers rhs) h
    rw [bind_of_run (pop_eq .rax depth)] at h
    obtain ⟨slot, hslot, h⟩ := lift_bind_eq_ok.mp h
    cases h
    refine ⟨rfl, ?_⟩
    rw [List.append_assoc, List.append_assoc]
    exact Lowers.assign hright hslot
  | .binary loc (.arith op) lhs rhs =>
    obtain ⟨rfl, right, left, unsigned, hright, hleft, hunsigned, rfl⟩ := operands_lowers
      (fun unsigned depth => arithmetic_eq unsigned op depth) (value_lowers rhs)
      (value_lowers lhs) h
    exact ⟨rfl, .arith hright hleft hunsigned⟩
  | .binary loc (.compare op) lhs rhs =>
    obtain ⟨rfl, right, left, unsigned, hright, hleft, hunsigned, rfl⟩ := operands_lowers
      (fun unsigned depth => comparison_eq unsigned op depth) (value_lowers rhs)
      (value_lowers lhs) h
    exact ⟨rfl, .compare hright hleft hunsigned⟩
  | .call loc none args => cases h
  | .call loc (some callee) args =>
    obtain ⟨loading, hloading, h⟩ := bind_of_spec (arguments_lowers args) h
    obtain ⟨symbol, hsymbol, h⟩ := lift_bind_eq_ok.mp h
    obtain ⟨root, hroot, h⟩ := lift_bind_eq_ok.mp h
    rw [bind_of_run (callCode_eq symbol.name _ depth)] at h
    obtain ⟨rfl, rfl⟩ := pure_eq_ok.mp h
    have hresult := promised_eq_ok.mp hroot
    -- the callee has a type, since otherwise its root could not be found
    cases htype : symbol.type with
    | error defect => simp [htype, bind, Except.bind] at hresult
    | ok result =>
      rw [htype] at hresult
      exact ⟨rfl, .call hloading (promised_eq_ok.mp hsymbol) htype hresult⟩
  | .cast loc target operand =>
    obtain ⟨inner, hinner, h⟩ := bind_of_spec (value_lowers operand) h
    obtain ⟨root, hroot, h⟩ := lift_bind_eq_ok.mp h
    obtain ⟨source, hsource, h⟩ := lift_bind_eq_ok.mp h
    rw [promised_eq_ok] at hroot hsource
    split at h
    · rename_i hbool
      simp only [Bool.and_eq_true, decide_eq_true_eq] at hbool
      obtain ⟨hbool, hother⟩ := hbool
      rw [hbool] at hroot
      rw [bind_of_run (toBool_eq depth)] at h
      obtain ⟨rfl, rfl⟩ := pure_eq_ok.mp h
      exact ⟨rfl, .toBool hinner hroot hsource hother⟩
    · rename_i hsame
      obtain ⟨rfl, rfl⟩ := pure_eq_ok.mp h
      exact ⟨rfl, .keep hinner hroot hsource (by simpa using hsame)⟩
  | .block .. | .externDecl .. | .functionDef .. | .ifThen .. | .ifElse .. | .whileLoop ..
  | .forLoop .. | .returnVoid .. | .returnValue .. | .typedefDecl .. | .empty _ => cases h

/-- What is emitted for arguments. -/
theorem arguments_lowers (args : List Node) {used free : List Reg} {depth depth' : Nat}
    {code : Counted Instr} (h : arguments tables used free args depth = .ok (code, depth')) :
    depth' = depth ∧ Lowers tables (.arguments used free args) depth code := by
  match args, free with
  | [], free =>
    cases h
    exact ⟨rfl, .noArguments⟩
  | arg :: rest, [] => cases h
  | arg :: rest, reg :: free =>
    have hpops := popAll_eq (savedFor used arg).reverse depth
    rw [List.length_reverse] at hpops
    rw [arguments_cons, bind_of_run (pushAll_eq (savedFor used arg) depth)] at h
    obtain ⟨code, hcode, h⟩ := bind_of_spec (value_lowers arg) h
    rw [bind_of_run (pop_eq reg _), bind_of_run hpops] at h
    obtain ⟨others, hothers, h⟩ := bind_of_spec (arguments_lowers rest) h
    obtain ⟨rfl, rfl⟩ := pure_eq_ok.mp h
    refine ⟨rfl, ?_⟩
    simpa using Lowers.argument hcode hothers

end

end Counted

open Counted in
/-- What is emitted is what the generator gives. -/
theorem Lowers.emitted {job : Job} {depth : Nat} {code : Counted Instr}
    (h : Lowers tables job depth code) :
    job.run tables depth = .ok (code, depth + job.pushed) := by
  induction h with
  | @literal loc v depth half =>
    show Counted.literal v depth = _
    rw [Counted.literal, if_pos half]
    rfl
  | @wideLiteral loc v depth wide =>
    show Counted.literal v depth = _
    rw [Counted.literal, if_neg (by simp [wide])]
    rfl
  | boolean => rfl
  | @load node slot depth isStorage source =>
    have hnode : Counted.value tables node = (do
        let source ← storage tables node
        return (← emit [source.load]) ++ (← Counted.pushResult)) := by
      cases node <;> first | rfl | simp [Node.isStorage] at isStorage
    show Counted.value tables node depth = _
    rw [hnode]
    exact lift_bind_eq_ok.mpr ⟨slot, source, rfl⟩
  | @assign loc lhs rhs code slot depth right target ih =>
    refine (bind_of_run ih).trans ((bind_of_run (pop_eq _ _)).trans ?_)
    refine lift_bind_eq_ok.mpr ⟨slot, target, ?_⟩
    refine pure_eq_ok.mpr ⟨?_, rfl⟩
    rw [List.append_assoc, List.append_assoc]
    rfl
  | @arith loc op lhs rhs rightCode leftCode unsigned depth right left sign ihRight ihLeft =>
    refine (bind_of_run ihRight).trans ((bind_of_run ihLeft).trans
      ((bind_of_run (popAll_eq _ _)).trans ?_))
    refine lift_bind_eq_ok.mpr ⟨unsigned, promised_eq_ok.mpr sign, ?_⟩
    exact bind_of_run (arithmetic_eq unsigned op depth)
  | @compare loc op lhs rhs rightCode leftCode unsigned depth right left sign ihRight ihLeft =>
    refine (bind_of_run ihRight).trans ((bind_of_run ihLeft).trans
      ((bind_of_run (popAll_eq _ _)).trans ?_))
    refine lift_bind_eq_ok.mpr ⟨unsigned, promised_eq_ok.mpr sign, ?_⟩
    exact bind_of_run (comparison_eq unsigned op depth)
  | @call loc callee args loading symbol result root depth arguments target typed resolved ih =>
    refine (bind_of_run ih).trans ?_
    refine lift_bind_eq_ok.mpr ⟨symbol, promised_eq_ok.mpr target, ?_⟩
    refine lift_bind_eq_ok.mpr ⟨root, promised_eq_ok.mpr ?_, ?_⟩
    · rw [typed]
      exact resolved
    · exact bind_of_run (callCode_eq _ _ depth)
  | @toBool loc target operand code source depth inner goal origin other ih =>
    refine (bind_of_run ih).trans ?_
    refine lift_bind_eq_ok.mpr ⟨_, promised_eq_ok.mpr goal, ?_⟩
    refine lift_bind_eq_ok.mpr ⟨source, promised_eq_ok.mpr origin, ?_⟩
    rw [if_pos (by simp [other])]
    exact bind_of_run (toBool_eq depth)
  | @keep loc target operand code root source depth inner goal origin same ih =>
    refine (bind_of_run ih).trans ?_
    refine lift_bind_eq_ok.mpr ⟨root, promised_eq_ok.mpr goal, ?_⟩
    refine lift_bind_eq_ok.mpr ⟨source, promised_eq_ok.mpr origin, ?_⟩
    -- nothing is emitted for a cast from a boolean, or to another type than that
    rw [if_neg (by simpa using same)]
    rfl
  | noArguments => rfl
  | @argument used reg free arg rest code others depth first later ihFirst ihLater =>
    -- the saved registers are popped in the opposite order
    have hpops := popAll_eq (savedFor used arg).reverse depth
    rw [List.length_reverse] at hpops
    simp only [Job.run, Job.pushed] at ihFirst ihLater
    show Counted.arguments tables used (reg :: free) (arg :: rest) depth = _
    rw [arguments_cons, bind_of_run (pushAll_eq _ _), bind_of_run ihFirst, bind_of_run (pop_eq _ _),
      bind_of_run hpops, bind_of_run ihLater]
    refine pure_eq_ok.mpr ⟨?_, rfl⟩
    simp

/-! ## Runs inside of runs -/

mutual

/-- The expressions for which code is generated when it is generated for `node`, each with the
number of values on the stack then. -/
def valueRuns (depth : Nat) (node : Node) : List (Nat × Node) :=
  match node with
  | .binary _ .assign _ rhs => (depth, node) :: valueRuns depth rhs
  | .binary _ _ lhs rhs => (depth, node) :: (valueRuns depth rhs ++ valueRuns (depth + 1) lhs)
  | .call _ _ args => (depth, node) :: argumentRuns depth 0 args
  | .cast _ _ operand => (depth, node) :: valueRuns depth operand
  | _ => [(depth, node)]
termination_by structural node

/-- The same for arguments, when there are `loaded` ones in their registers. -/
def argumentRuns (depth loaded : Nat) (args : List Node) : List (Nat × Node) :=
  match args with
  | [] => []
  | arg :: rest =>
    valueRuns (depth + if arg.isLeaf then 0 else loaded) arg ++ argumentRuns depth (loaded + 1) rest
termination_by structural args

end

/-- The runs of the generator that a run for a job consists of. -/
def Job.runs (depth : Nat) : Job → List (Nat × Node)
  | value node => valueRuns depth node
  | arguments used _ args => argumentRuns depth used.length args

/-- There is code for the run, and it is a part of `code`. -/
def Ran (tables : Tables) (code : Counted Instr) (run : Nat × Node) : Prop :=
  ∃ part, Lowers tables (.value run.2) run.1 part ∧ part <:+: code

lemma Ran.left {code : Counted Instr} {run : Nat × Node} (h : Ran tables code run)
    (after : Counted Instr) : Ran tables (code ++ after) run := by
  obtain ⟨part, hpart, hwithin⟩ := h
  exact ⟨part, hpart, List.infix_append_of_infix_left hwithin⟩

lemma Ran.right {code : Counted Instr} {run : Nat × Node} (h : Ran tables code run)
    (before : Counted Instr) : Ran tables (before ++ code) run := by
  obtain ⟨part, hpart, hwithin⟩ := h
  exact ⟨part, hpart, List.infix_append_of_infix_right hwithin⟩

/-- Each run for a part of an expression leaves its code in the code of the expression. -/
theorem Lowers.ran {job : Job} {depth : Nat} {code : Counted Instr}
    (h : Lowers tables job depth code) : ∀ run ∈ job.runs depth, Ran tables code run := by
  have self : ∀ {node depth code}, Lowers tables (.value node) depth code →
      Ran tables code (depth, node) := fun h => ⟨_, h, List.infix_refl _⟩
  induction h with
  | literal half => simpa [Job.runs, valueRuns] using self (.literal half)
  | wideLiteral wide => simpa [Job.runs, valueRuns] using self (.wideLiteral wide)
  | boolean => simpa [Job.runs, valueRuns] using self .boolean
  | @load node slot depth isStorage source =>
    have hself : Ran tables _ (depth, node) := self (.load isStorage source)
    cases node <;> first | simpa [Job.runs, valueRuns] using hself | cases isStorage
  | assign right target ih =>
    intro run hrun
    rcases List.mem_cons.mp hrun with rfl | hrun
    · exact self (.assign right target)
    · exact (ih run hrun).left _
  | arith right left sign ihRight ihLeft =>
    intro run hrun
    rcases List.mem_cons.mp hrun with rfl | hrun
    · exact self (.arith right left sign)
    rcases List.mem_append.mp hrun with hrun | hrun
    · exact (((ihRight run hrun).left _).left _).left _
    · exact (((ihLeft run hrun).right _).left _).left _
  | compare right left sign ihRight ihLeft =>
    intro run hrun
    rcases List.mem_cons.mp hrun with rfl | hrun
    · exact self (.compare right left sign)
    rcases List.mem_append.mp hrun with hrun | hrun
    · exact (((ihRight run hrun).left _).left _).left _
    · exact (((ihLeft run hrun).right _).left _).left _
  | call arguments target typed resolved ih =>
    intro run hrun
    rcases List.mem_cons.mp hrun with rfl | hrun
    · exact self (.call arguments target typed resolved)
    · exact (ih run hrun).left _
  | toBool inner goal origin other ih =>
    intro run hrun
    rcases List.mem_cons.mp hrun with rfl | hrun
    · exact self (.toBool inner goal origin other)
    · exact (ih run hrun).left _
  | keep inner goal origin same ih =>
    intro run hrun
    rcases List.mem_cons.mp hrun with rfl | hrun
    · exact self (.keep inner goal origin same)
    · exact ih run hrun
  | noArguments => simp [Job.runs, argumentRuns]
  | @argument used reg free arg rest code others depth first later ihFirst ihLater =>
    -- what is saved lies below the values of the argument
    have hsaved : (if arg.isLeaf then 0 else used.length) = (Counted.savedFor used arg).length := by
      unfold Counted.savedFor
      split <;> rfl
    intro run hrun
    simp only [Job.runs, argumentRuns, hsaved, List.mem_append] at hrun
    rcases hrun with hrun | hrun
    · exact (((ihFirst run hrun).right _).left _).left _
    · refine (ihLater run ?_).right _
      rwa [Job.runs, List.length_append]

end ParenC.Lowering
