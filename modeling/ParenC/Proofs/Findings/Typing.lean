/-
What checking reports.

A rule looks at one node and shows what it finds at the node or at one of its parts; the names in
it are those of the symbols that the node mentions.  So when the nodes of a program stand at tokens,
the findings do too, and whatever they quote is of one line.
-/
import ParenC.Proofs.Findings.Reading

namespace ParenC

variable {cut : Cut} {tables : Tables} {loc : Location}

/-! ## Findings at tokens -/

/-- The finding stands at a token, and the names in it are of one line. -/
def Finding.Within (cut : Cut) (finding : Finding) : Prop :=
  finding.1 ∈ cut.places ∧ ∀ name ∈ finding.2.names, OneLine name

/-- All of the findings stand at tokens. -/
def AllWithin (cut : Cut) (findings : List Finding) : Prop :=
  ∀ finding ∈ findings, finding.Within cut

namespace AllWithin

variable {xs ys : List Finding} {violation : Violation}

lemma nil : AllWithin cut [] := by simp [AllWithin]

lemma append (hxs : AllWithin cut xs) (hys : AllWithin cut ys) : AllWithin cut (xs ++ ys) :=
  List.forall_mem_append.mpr ⟨hxs, hys⟩

lemma ite {c : Prop} [Decidable c] (hxs : AllWithin cut xs) (hys : AllWithin cut ys) :
    AllWithin cut (if c then xs else ys) := by
  split
  · exact hxs
  · exact hys

lemma one (hloc : loc ∈ cut.places) (h : ∀ name ∈ violation.names, OneLine name) :
    AllWithin cut [(loc, violation)] := by
  rintro finding hfinding
  rw [List.mem_singleton.mp hfinding]
  exact ⟨hloc, h⟩

/-- A finding without names. -/
lemma bare (hloc : loc ∈ cut.places) (h : violation.names = []) :
    AllWithin cut [(loc, violation)] := one hloc (by simp [h])

end AllWithin

/-! ## The rules -/

/-- What a rule finds stands at tokens. -/
def Finds (cut : Cut) (found : Except Defect (List Finding)) : Prop :=
  Ends found (AllWithin cut) fun _ => True

namespace Finds

variable {α : Type} {x : Except Defect α} {next : α → Except Defect (List Finding)}
  {good : α → Prop}

lemma bind (h : Ends x good fun _ => True) (hnext : ∀ a, good a → Finds cut (next a)) :
    Finds cut (x >>= next) := Ends.bind h hnext

/-- Looking something up. -/
lemma look (h : ∀ a, Finds cut (next a)) : Finds cut (x >>= next) :=
  bind (.any fun _ => trivial) fun a _ => h a

end Finds

namespace Node

lemma binaryViolations_finds {op : BinOp} {lhs rhs : Node} (hloc : loc ∈ cut.places) :
    Finds cut (binaryViolations tables loc op lhs rhs) := by
  refine .look fun left => .look fun right => .look fun isStruct => ?_
  -- what is found with the operands agreeing or not
  have hall : ∀ {agreement : List Finding}, AllWithin cut agreement → Finds cut (pure
      ((if left = Builtin.void.id then [(loc, .voidLeft)] else []) ++
        (if right = Builtin.void.id then [(loc, .voidRight)] else []) ++ agreement ++
        (if op = .assign && !lhs.isStorage then [(loc, .notStorage)] else []))) :=
    fun h => Ends.pure <| .append (.append (.append (.ite (.bare hloc rfl) .nil)
      (.ite (.bare hloc rfl) .nil)) h) (.ite (.bare hloc rfl) .nil)
  exact Ends.ite (hall (.bare hloc rfl)) (Ends.ite (hall (.bare hloc rfl)) (hall .nil))

lemma callViolations_finds {callee? : Option SymbolId} {args : List Node}
    (hsymbols : tables.symbols.Plain) (hloc : loc ∈ cut.places)
    (hargs : ∀ arg ∈ args, arg.location ∈ cut.places) :
    Finds cut (callViolations tables loc callee? args) := by
  cases callee? with
  | none => exact Ends.pure .nil
  | some callee =>
    refine .bind hsymbols.get fun symbol hnames => ?_
    have hname : OneLine symbol.name := hnames _ (by simp [Symbol.names])
    cases symbol.kind with
    | localVar | type => exact Ends.pure .nil
    | function params prototyped external =>
      refine .look fun got => Ends.ite (Ends.pure ?_) (Ends.ite (Ends.pure (.bare hloc rfl))
        (Ends.ite (Ends.pure (.one hloc ?_)) (Ends.pure .nil)))
      · intro finding hfinding
        obtain ⟨pair, hpair, rfl⟩ := List.mem_map.mp hfinding
        refine ⟨hargs _ (List.of_mem_zip (List.mem_of_mem_filter hpair)).1, ?_⟩
        simpa [Violation.names] using hname
      · simpa [Violation.names] using hname

lemma conditionViolations_finds {cond : Node} (hcond : cond.location ∈ cut.places) :
    Finds cut (conditionViolations tables cond) :=
  .look fun _ => Ends.pure (.ite (.bare hcond rfl) .nil)

lemma castViolations_finds {target : TypeId} {operand : Node} (hloc : loc ∈ cut.places) :
    Finds cut (castViolations tables loc target operand) :=
  .look fun _ => .look fun _ => .look fun _ =>
    Ends.pure (.append (.ite (.bare hloc rfl) .nil) (.ite (.bare hloc rfl) .nil))

lemma variableViolations_finds {symbol? : Option SymbolId} (hloc : loc ∈ cut.places) :
    Finds cut (variableViolations tables loc symbol?) :=
  .look fun _ => .look fun _ => Ends.pure (.ite (.bare hloc rfl) .nil)

lemma paramViolations_finds {types : TypeTable} {function : String} {params : List Param}
    (hloc : loc ∈ cut.places) (hfunction : OneLine function)
    (hparams : ∀ param ∈ params, OneLine param.name) :
    Finds cut (paramViolations types loc function params) := by
  induction params with
  | nil => exact Ends.pure .nil
  | cons param rest ih =>
    refine .look fun fits => ?_
    refine .bind (ih fun param h => hparams param (by simp [h])) fun others hothers => ?_
    refine Ends.pure (.ite hothers (.append (.one hloc ?_) hothers))
    simpa [Violation.names] using ⟨hparams param (by simp), hfunction⟩

lemma signatureViolations_finds {symbol? : Option SymbolId} (hsymbols : tables.symbols.Plain)
    (hloc : loc ∈ cut.places) : Finds cut (signatureViolations tables loc symbol?) := by
  cases symbol? with
  | none => exact Ends.pure .nil
  | some id =>
    refine .bind hsymbols.get fun symbol hnames => ?_
    have hname : OneLine symbol.name := hnames _ (by simp [Symbol.names])
    cases hkind : symbol.kind with
    | localVar | type => exact Ends.pure .nil
    | function params prototyped external =>
      have hparams : ∀ param ∈ params, OneLine param.name := fun param hparam =>
        hnames _ (by simpa [Symbol.names, hkind] using .inr ⟨param, hparam, rfl⟩)
      refine .bind (paramViolations_finds hloc hname hparams) fun unfit hunfit => ?_
      refine .look fun result => ?_
      have hall : ∀ fits : Bool, Finds cut (pure (unfit ++
          if fits then [] else [(loc, .resultType symbol.name result)])) := fun fits =>
        Ends.pure (.append hunfit (.ite .nil (.one hloc (by simpa [Violation.names] using hname))))
      exact Ends.ite (hall true) (Finds.look hall)

lemma returnViolations_finds {got : TypeId} {function : SymbolId} (hloc : loc ∈ cut.places) :
    Finds cut (returnViolations tables loc got function) :=
  .look fun _ => .look fun _ => Ends.pure (.ite (.bare hloc rfl) .nil)

/-- A node at a token, with its parts at tokens, breaks rules there only. -/
theorem violations_finds {node : Node} (hsymbols : tables.symbols.Plain) (h : node.Within cut) :
    Finds cut (node.violations tables) := by
  have hloc := h.location
  have hparts : ∀ part ∈ node.parts, part.location ∈ cut.places := fun _ hpart =>
    (h.part hpart).location
  cases node with
  | binary loc op lhs rhs => exact binaryViolations_finds hloc
  | call loc callee? args => exact callViolations_finds hsymbols hloc hparts
  | ifThen loc cond body | ifElse loc cond thenBody elseBody | whileLoop loc cond body
  | forLoop loc init cond step body =>
    exact conditionViolations_finds (hparts cond (by simp [parts]))
  | cast loc target operand => exact castViolations_finds hloc
  | varDecl loc symbol? => exact variableViolations_finds hloc
  | functionDef loc symbol? params body | externDecl loc symbol? =>
    exact signatureViolations_finds hsymbols hloc
  | returnVoid loc function => exact returnViolations_finds hloc
  | returnValue loc value function =>
    exact .look fun got => returnViolations_finds (hparts value (by simp [parts]))
  | _ => exact Ends.pure .nil

end Node

namespace Typing

open CompileM

variable {start : Workspace} {stops : Journal → CompileError → Prop}

lemma reportAll_reports {types : TypeTable} {findings : List Finding} (htypes : types.Plain)
    (h : AllWithin cut findings) :
    Reports cut start stops (reportAll types findings) fun _ => True := by
  induction findings with
  | nil => exact .pure trivial
  | cons finding rest ih =>
    obtain ⟨hloc, hnames⟩ := h finding (by simp)
    refine .bind (.promised (Violation.message_oneLine htypes hnames)) fun message hmessage => ?_
    exact .bind (.report hmessage hloc) fun _ _ => ih fun finding hf => h finding (by simp [hf])

lemma checkNode_reports {node : Node} (h : node.Within cut) :
    Reports cut start cut.Lacks (checkNode node) fun _ => True := by
  refine .get fun ws htidy => ?_
  have hviolations := Node.violations_finds htidy.plain.symbols h
  refine .bind (.promised hviolations) fun findings hfindings => ?_
  refine .bind (reportAll_reports htidy.plain.types hfindings) fun _ _ => ?_
  refine .bind .promised_any fun source? _ => ?_
  cases source? with
  | none => exact .pure trivial
  | some source =>
    have hdescribes := ws.types.describe_oneLine htidy.plain.types source
    refine .bind (.promised hdescribes) fun text htext => ?_
    exact .notImplemented h.location (.append (.ofList (by decide)) htext)

lemma checkAll_reports {nodes : List Node} (h : ∀ node ∈ nodes, node.Within cut) :
    Reports cut start cut.Lacks (checkAll nodes) fun _ => True := by
  induction nodes with
  | nil => exact .pure trivial
  | cons node rest ih =>
    exact .bind (checkNode_reports (h node (by simp))) fun _ _ =>
      ih fun node hnode => h node (by simp [hnode])

/-- Checking a program. -/
theorem check_reports {program : Program} (h : ∀ node ∈ program.items, node.Within cut) :
    Reports cut start cut.Lacks (check program) fun _ => True := by
  refine checkAll_reports fun node hnode => ?_
  obtain ⟨item, hitem, hbelow⟩ := Node.mem_checkOrderAll.mp hnode
  exact fun below h' => h item hitem below (Node.checkOrder_trans hbelow h')

end Typing

end ParenC
