/-
What generating code reports.

There are no findings any more, and a feature that is lacking is the only thing to tell about.  It
is told about at a node: where the code of a value cannot be given, at that value, and where
parameters are stored, at the function.  The statements of the top level are in a function that
stands nowhere in the text, but that one has no parameters.
-/
import ParenC.Lowering.Unit
import ParenC.Proofs.Findings.Typing

namespace ParenC

variable {cut : Cut} {tables : Tables}

/-- What the backend lacks is needed at a token, and the names in it are of one line. -/
def Obstacle.Within (cut : Cut) : Obstacle → Prop
  | limit loc lacking => loc ∈ cut.places ∧ ∀ name ∈ lacking.names, OneLine name
  | defect _ => True

namespace Lowering

variable {α β : Type} {good : α → Prop} {loc : Location} {node : Node} {nodes : List Node}

/-! ## Results and code -/

/-- There is a result, or something is lacking at a token. -/
def Yields (cut : Cut) (x : Lowered α) : Prop := Ends x (fun _ => True) (Obstacle.Within cut)

namespace Yields

variable {x : Lowered α} {next : α → Lowered β}

lemma pure {a : α} : Yields cut (Pure.pure a) := trivial

lemma bind (h : Yields cut x) (hnext : ∀ a, Yields cut (next a)) : Yields cut (x >>= next) :=
  Ends.bind h fun a _ => hnext a

/-- Going on with a value that is there as long as the compiler keeps its promises. -/
lemma promised {x : Except Defect α} {next : α → Lowered β} (h : Ends x good fun _ => True)
    (hnext : ∀ a, good a → Yields cut (next a)) : Yields cut (promised x >>= next) := by
  cases x with
  | ok a => exact hnext a h
  | error defect => trivial

lemma promised_any {x : Except Defect α} {next : α → Lowered β} (h : ∀ a, Yields cut (next a)) :
    Yields cut (Lowering.promised x >>= next) := promised (.any fun _ => trivial) fun a _ => h a

end Yields

/-- The same for code that counts the values on the stack. -/
def Emits (cut : Cut) (act : Emitting α) : Prop := ∀ depth, Yields cut (act depth)

namespace Emits

variable {act act' : Emitting α} {next : α → Emitting β}

lemma pure {a : α} : Emits cut (Pure.pure a) := fun _ => trivial

lemma bind (h : Emits cut act) (hnext : ∀ a, Emits cut (next a)) : Emits cut (act >>= next) :=
  fun depth => (h depth).bind fun pair => hnext pair.1 pair.2

lemma lift {x : Lowered α} (h : Yields cut x) : Emits cut (liftM x) :=
  fun _ => h.bind fun _ => .pure

lemma promised {x : Except Defect α} : Emits cut (liftM (promised x)) := by
  cases x <;> exact fun _ => trivial

lemma defect {defect : Defect} : Emits cut (throw (.defect defect) : Emitting α) := fun _ => trivial

lemma get {next : Nat → Emitting β} (h : ∀ depth, Emits cut (next depth)) :
    Emits cut (MonadState.get >>= next) := fun depth => h depth depth

lemma ite {c : Prop} [Decidable c] (h : Emits cut act) (h' : Emits cut act') :
    Emits cut (if c then act else act') := by
  split
  · exact h
  · exact h'

lemma push {src : Operand} : Emits cut (push src) := fun _ => trivial

lemma pop {dst : Reg} : Emits cut (pop dst) := by
  rintro (_ | depth) <;> trivial

lemma pushAll (regs : List Reg) : Emits cut (pushAll regs) := by
  induction regs with
  | nil => exact pure
  | cons reg rest ih => exact bind push fun _ => bind ih fun _ => pure

lemma popAll (regs : List Reg) : Emits cut (popAll regs) := by
  induction regs with
  | nil => exact pure
  | cons reg rest ih => exact bind pop fun _ => bind ih fun _ => pure

end Emits

/-! ## Values -/

lemma slot_yields (htypes : tables.types.Plain) {symbol : SymbolId} (hloc : loc ∈ cut.places) :
    Yields cut (slot tables loc symbol) := by
  refine .promised_any fun symbol => .promised_any fun offset => .promised_any fun type => ?_
  refine .bind (.promised_any fun shape => ?_) fun width => .pure
  split
  · exact .pure
  · exact .pure
  · exact .pure
  · refine .promised (tables.types.describe_oneLine htypes type) fun text htext => ?_
    exact Ends.throw ⟨hloc, by simpa [Limit.names] using htext⟩

lemma storage_yields (htypes : tables.types.Plain) (h : node.Within cut) :
    Yields cut (storage tables node) := by
  have hloc := h.location
  match node with
  | .varRef loc (some symbol) | .varDecl loc (some symbol) => exact slot_yields htypes hloc
  | .varRef loc none | .varDecl loc none => trivial
  | .integer .. | .boolean .. | .binary .. | .block .. | .externDecl .. | .functionDef ..
  | .call .. | .ifThen .. | .ifElse .. | .whileLoop .. | .forLoop .. | .cast .. | .returnVoid ..
  | .returnValue .. | .typedefDecl .. | .empty _ => trivial

lemma literal_emits (value : IntegerValue) : Emits cut (literal value) :=
  .ite .push (.bind .push fun _ => .pure)

lemma arithmetic_emits (unsigned : Bool) (op : ArithOp) : Emits cut (arithmetic unsigned op) := by
  cases op <;> exact .bind .push fun _ => .pure

lemma toBool_emits : Emits cut toBool := .bind .pop fun _ => .bind .push fun _ => .pure

mutual

theorem value_emits (htypes : tables.types.Plain) (node : Node) (h : node.Within cut) :
    Emits cut (value tables node) := by
  match node with
  | .integer loc v => exact literal_emits v
  | .boolean loc b => exact .push
  | .varRef loc symbol? | .varDecl loc symbol? =>
    exact .bind (.lift (storage_yields htypes h)) fun _ => .bind .push fun _ => .pure
  | .binary loc .assign lhs rhs =>
    refine .bind (value_emits htypes rhs (h.part (by simp [Node.parts]))) fun code => ?_
    refine .bind .pop fun taken => ?_
    refine .bind (.lift (storage_yields htypes (h.part (by simp [Node.parts])))) fun target => ?_
    exact .bind .push fun _ => .pure
  | .binary loc (.arith op) lhs rhs =>
    refine .bind (value_emits htypes rhs (h.part (by simp [Node.parts]))) fun right => ?_
    refine .bind (value_emits htypes lhs (h.part (by simp [Node.parts]))) fun left => ?_
    refine .bind (.popAll _) fun taken => .bind .promised fun unsigned => ?_
    exact .bind (arithmetic_emits unsigned op) fun _ => .pure
  | .binary loc (.compare op) lhs rhs =>
    refine .bind (value_emits htypes rhs (h.part (by simp [Node.parts]))) fun right => ?_
    refine .bind (value_emits htypes lhs (h.part (by simp [Node.parts]))) fun left => ?_
    refine .bind (.popAll _) fun taken => .bind .promised fun unsigned => ?_
    exact .bind (.bind .push fun _ => .pure) fun _ => .pure
  | .call loc none args => exact .defect
  | .call loc (some callee) args =>
    refine .bind (arguments_emits htypes [] Reg.arguments args fun arg harg => h.part harg)
      fun loading => ?_
    refine .bind .promised fun symbol => .bind .promised fun result => ?_
    exact .bind (fun _ => trivial) fun _ => .pure
  | .cast loc target operand =>
    refine .bind (value_emits htypes operand (h.part (by simp [Node.parts]))) fun code => ?_
    refine .bind .promised fun goal => .bind .promised fun source => ?_
    exact .ite (.bind toBool_emits fun _ => .pure) .pure
  | .block .. | .externDecl .. | .functionDef .. | .ifThen .. | .ifElse .. | .whileLoop ..
  | .forLoop .. | .returnVoid .. | .returnValue .. | .typedefDecl .. | .empty _ => exact .defect

theorem arguments_emits (htypes : tables.types.Plain) (used free : List Reg) (args : List Node)
    (h : ∀ arg ∈ args, arg.Within cut) : Emits cut (arguments tables used free args) := by
  match args, free with
  | [], _ => exact .pure
  | arg :: rest, [] =>
    exact fun _ => ⟨(h arg (by simp)).location, by simp [Limit.names]⟩
  | arg :: rest, reg :: free =>
    refine .bind (.pushAll _) fun saving => ?_
    refine .bind (value_emits htypes arg (h arg (by simp))) fun code => ?_
    refine .bind .pop fun taken => .bind (.popAll _) fun restoring => ?_
    exact .bind (arguments_emits htypes (used ++ [reg]) free rest fun arg harg =>
      h arg (by simp [harg])) fun others => .pure

end

/-! ## Statements -/

lemma evaluate_emits (htypes : tables.types.Plain) (h : node.Within cut) :
    Emits cut (evaluate tables node) :=
  .bind (value_emits htypes node h) fun _ => .bind .pop fun _ => .pure

lemma skipUnless_emits (htypes : tables.types.Plain) {target : Nat} (h : node.Within cut) :
    Emits cut (skipUnless tables node target) :=
  .bind (.bind (evaluate_emits htypes h) fun _ => .pure) fun _ => .pure

mutual

theorem statement_emits (htypes : tables.types.Plain) (next : Nat) (node : Node)
    (h : node.Within cut) : Emits cut (statement tables next node) := by
  have hparts : ∀ part ∈ node.parts, part.Within cut := fun _ hpart => h.part hpart
  match node with
  | .block loc body => exact statements_emits htypes next body hparts
  | .binary loc .assign lhs rhs =>
    refine .bind (.bind (evaluate_emits htypes (hparts rhs (by simp [Node.parts]))) fun code => ?_)
      fun _ => .pure
    exact .bind (.lift (storage_yields htypes (hparts lhs (by simp [Node.parts])))) fun _ => .pure
  | .ifThen loc cond body =>
    obtain ⟨hcond, hbody⟩ := List.forall_mem_cons.mp hparts
    refine .bind (skipUnless_emits htypes hcond) fun test => ?_
    exact .bind (statements_emits htypes (next + 1) body hbody) fun _ => .pure
  | .ifElse loc cond thenBody elseBody =>
    obtain ⟨hcond, hbranches⟩ := List.forall_mem_cons.mp hparts
    obtain ⟨hthen, helse⟩ := List.forall_mem_append.mp hbranches
    refine .bind (skipUnless_emits htypes hcond) fun test => ?_
    refine .bind (statements_emits htypes (next + 1) thenBody hthen) fun first => ?_
    exact .bind (statements_emits htypes (first.next + 1) elseBody helse) fun _ => .pure
  | .whileLoop loc cond body =>
    obtain ⟨hcond, hbody⟩ := List.forall_mem_cons.mp hparts
    refine .bind (skipUnless_emits htypes hcond) fun test => ?_
    exact .bind (statements_emits htypes (next + 2) body hbody) fun _ => .pure
  | .forLoop loc init cond step body =>
    obtain ⟨hinit, hafter⟩ := List.forall_mem_cons.mp hparts
    obtain ⟨hcond, hafter⟩ := List.forall_mem_cons.mp hafter
    obtain ⟨hstep, hbody⟩ := List.forall_mem_cons.mp hafter
    refine .bind (statement_emits htypes (next + 2) init hinit) fun init => ?_
    refine .bind (skipUnless_emits htypes hcond) fun test => ?_
    refine .bind (statements_emits htypes init.next body hbody) fun body => ?_
    exact .bind (statement_emits htypes body.next step hstep) fun _ => .pure
  | .returnVoid loc function => exact .pure
  | .returnValue loc result function =>
    -- what is returned may be a statement, so it is looked at in both ways
    have hresult := hparts result (by simp [Node.parts])
    unfold statement
    exact .ite (.bind (evaluate_emits htypes hresult) fun _ => .pure)
      (.bind (statement_emits htypes next result hresult) fun _ => .pure)
  | .externDecl loc symbol? => exact .bind .promised fun _ => .pure
  | .varDecl .. | .typedefDecl .. | .empty _ => exact .pure
  | .functionDef .. => exact .defect
  | .integer .. | .boolean .. | .varRef .. | .binary _ (.arith _) .. | .binary _ (.compare _) ..
  | .call .. | .cast .. => exact .bind (evaluate_emits htypes h) fun _ => .pure

theorem statements_emits (htypes : tables.types.Plain) (next : Nat) (nodes : List Node)
    (h : ∀ node ∈ nodes, node.Within cut) : Emits cut (statements tables next nodes) := by
  match nodes with
  | [] => exact .pure
  | node :: rest =>
    refine .bind (statement_emits htypes next node (h node (by simp))) fun first => ?_
    exact .bind (statements_emits htypes first.next rest fun node hnode => h node (by simp [hnode]))
      fun _ => .pure

end

lemma bodyCode_emits (htypes : tables.types.Plain) (next : Nat)
    (h : ∀ node ∈ nodes, node.Within cut) : Emits cut (bodyCode tables next nodes) := by
  induction nodes generalizing next with
  | nil => exact .pure
  | cons node rest ih =>
    refine .bind (statement_emits htypes next node (h node (by simp))) fun first => ?_
    refine .get fun depth => .ite .defect ?_
    exact .bind (ih first.next fun node hnode => h node (by simp [hnode])) fun _ => .pure

/-! ## Functions and programs -/

/-- The function stands at a token if it has parameters, and so do the nodes of its body. -/
structure Function.Within (cut : Cut) (function : Function) : Prop where
  /-- Its place is told about for the sake of parameters only. -/
  location : function.params ≠ [] → function.location ∈ cut.places
  /-- Its name is of one line. -/
  name : OneLine function.name
  /-- The nodes of its body stand at tokens. -/
  body : ∀ node ∈ function.body, node.Within cut

lemma spill_yields (htypes : tables.types.Plain) {pairs : List (SymbolId × Reg)}
    (h : pairs ≠ [] → loc ∈ cut.places) : Yields cut (spill tables loc pairs) := by
  induction pairs with
  | nil => exact .pure
  | cons pair rest ih =>
    have hloc := h (by simp)
    exact .bind (slot_yields htypes hloc) fun _ => .bind (ih fun _ => hloc) fun _ => .pure

lemma Function.code_yields (htypes : tables.types.Plain) {function : Function} {frame next : Nat}
    (h : function.Within cut) : Yields cut (function.code tables frame next) := by
  have hspill : function.params.zip Reg.arguments ≠ [] → function.location ∈ cut.places :=
    fun hpairs => h.location fun hnil => hpairs (by simp [hnil])
  refine .bind (spill_yields htypes hspill) fun spills => .bind ?_ fun body => .pure
  exact (bodyCode_emits htypes next h.body 0).bind fun _ => .pure

variable {start : Workspace}

lemma run_reports {x : Lowered α} (h : Yields cut x) :
    Reports cut start cut.Lacks (run x) fun _ => True := by
  rcases x with (⟨loc, limit⟩ | defect) | a
  · exact .notImplemented h.1 (Limit.feature_oneLine h.2)
  · exact .defect
  · exact .pure trivial

lemma place_reports {used : Nat} {symbol : SymbolId} :
    Reports cut start cut.Lacks (place used symbol) fun _ => True := by
  refine .get fun ws htidy => .bind .promised_any fun type _ => .bind .promised_any fun info _ => ?_
  have hplaced : ∀ entry : Symbol, (∀ name ∈ entry.names, OneLine name) →
      ∀ name ∈ (entry.place ((used + info.size) % wordCount)).names, OneLine name := by
    intro entry h
    unfold Symbol.place
    split
    · rename_i hkind
      simpa [Symbol.names, hkind] using h
    · exact h
  refine .bind (.promised (htidy.plain.symbols.modify hplaced)) fun symbols hsymbols => ?_
  exact .bind (.set (htidy.with_tables ⟨htidy.plain.types, hsymbols⟩)) fun _ _ => .pure trivial

lemma placeAll_reports {used : Nat} {symbols : List SymbolId} :
    Reports cut start cut.Lacks (placeAll used symbols) fun _ => True := by
  induction symbols generalizing used with
  | nil => exact .pure trivial
  | cons symbol rest ih => exact .bind place_reports fun used _ => ih

lemma addFunction_reports {assembly : Assembly} {function : Function} (h : function.Within cut) :
    Reports cut start cut.Lacks (addFunction assembly function) fun _ => True := by
  have hadd : Reports cut start cut.Lacks (do
        let used ← placeAll 0 (function.params ++ Node.declaredAll function.body)
        let frame := frameSize used
        let code ← run (function.code (← get).toTables frame assembly.labels)
        CompileM.log (.generated function.name frame)
        return ({
          externs := assembly.externs ++ code.externs
          routines := assembly.routines ++ [⟨function.name, code.lines⟩]
          labels := code.next } : Assembly)) fun _ => True := by
    refine .bind placeAll_reports fun used _ => .get fun ws htidy => ?_
    refine .bind (run_reports (function.code_yields htidy.plain.types h)) fun code _ => ?_
    exact .bind (.log fun _ => rfl) fun _ _ => .pure trivial
  by_cases hmany : function.params.length > Reg.arguments.length
  · have hparams : function.params ≠ [] := by
      rintro hnil
      simp [hnil] at hmany
    have hlimit : Yields cut (.error (.limit function.location (.stackParameters function.name)) :
        Lowered PUnit) := Ends.throw ⟨h.location hparams, by simpa [Limit.names] using h.name⟩
    rw [addFunction, if_pos hmany]
    exact .bind (run_reports hlimit) fun _ _ => hadd
  · rw [addFunction, if_neg hmany]
    exact hadd

/-- The name of a symbol. -/
lemma functionName_ends {symbols : SymbolTable} (h : symbols.Plain) {symbol? : Option SymbolId} :
    Ends (functionName symbols loc symbol?) OneLine fun _ => True := by
  cases symbol? with
  | none => trivial
  | some symbol =>
    exact h.get.bind fun entry hnames => Ends.pure (hnames _ (by simp [Symbol.names]))

lemma addItems_reports {assembly : Assembly} (h : ∀ node ∈ nodes, node.Within cut) :
    Reports cut start cut.Lacks (addItems assembly nodes) fun _ => True := by
  induction nodes generalizing assembly with
  | nil => exact .pure trivial
  | cons item rest ih =>
    have hitem := h item (by simp)
    have hrest : ∀ {assembly : Assembly}, Reports cut start cut.Lacks (addItems assembly rest)
        fun _ => True := ih fun node hnode => h node (by simp [hnode])
    refine .get fun ws htidy => ?_
    cases item with
    | externDecl loc symbol? => exact .bind .promised_any fun name _ => hrest
    | functionDef loc symbol? params body =>
      refine .bind (.promised (functionName_ends htidy.plain.symbols)) fun name hname => ?_
      have hfunction : Function.Within cut ⟨name, loc, params, body, false⟩ :=
        ⟨fun _ => hitem.location, hname, fun node hnode => hitem.part hnode⟩
      exact .bind (addFunction_reports hfunction) fun assembly _ => hrest
    | _ => exact hrest

/-- Generating the code of a program. -/
theorem generate_reports {program : Program} (h : ∀ node ∈ program.items, node.Within cut) :
    Reports cut start cut.Lacks (generate program) fun _ => True := by
  have hfinish : ∀ assembly : Assembly, Reports cut start cut.Lacks (do
        CompileM.log (.emitted assembly.textLines.length assembly.labels)
        return assembly) fun _ => True :=
    fun assembly => .bind (.log fun _ => rfl) fun _ _ => .pure trivial
  have hstart : Function.Within cut ⟨"main", .start, [], program.statements, true⟩ :=
    ⟨fun hnil => absurd rfl hnil, .ofList (by decide), fun node hnode =>
      h node (List.mem_of_mem_filter hnode)⟩
  refine .bind (addItems_reports h) fun assembly _ => .ite (hfinish assembly) ?_
  exact .bind (addFunction_reports hstart) fun assembly _ => hfinish assembly

end Lowering

end ParenC
