/-
The sections of an assembly text.

The head of the text names the functions that are defined elsewhere; a section for each function of
the program follows.  A declaration puts its name into the head when code is emitted for it.  This
happens once, as `Lays.passes` finds, but not always in the order of the text: the step of a loop is
emitted after the body, and the statements of the top level are emitted after all functions.
`sections_in_order` says that nothing else changes the order.
-/
import ParenC.Proofs.Lowering.Linking
import ParenC.Proofs.Lowering.Numbering

namespace ParenC

open Lowering

/-! ## Lists in another order -/

section Lists

variable {α β : Type}

/-- Of two lists that may change places, one is empty. -/
lemma eq_nil_of_append_eq {xs ys zs ws : List β} (h : ys ++ ws = xs ++ zs)
    (hdisjoint : ys.Disjoint xs) : xs = [] ∨ ys = [] := by
  cases xs with
  | nil => exact .inl rfl
  | cons x xs =>
    cases ys with
    | nil => exact .inr rfl
    | cons y ys =>
      obtain ⟨rfl, -⟩ := List.cons.inj h
      exact absurd List.mem_cons_self (hdisjoint List.mem_cons_self)

/-- Lists for elements are put together, those for elements with `p` last.  The result is in the old
order just if each list is, and no element with `p` that has a list comes before one without. -/
lemma flatMap_partition_eq_iff (p : α → Bool) {f g : α → List β} {xs : List α}
    (hperm : ∀ x ∈ xs, (g x).Perm (f x)) (hnodup : (xs.flatMap f).Nodup) :
    (xs.filter fun x => !p x).flatMap g ++ (xs.filter p).flatMap g = xs.flatMap f ↔
      (∀ x ∈ xs, g x = f x) ∧
        xs.Pairwise fun x y => p x = true → p y = false → f x = [] ∨ f y = [] := by
  induction xs with
  | nil => simp
  | cons x xs ih =>
    rw [List.forall_mem_cons] at hperm
    rw [List.flatMap_cons, List.nodup_append'] at hnodup
    obtain ⟨-, hrest, hdisjoint⟩ := hnodup
    have hlength := hperm.1.length_eq
    specialize ih hperm.2 hrest
    rw [List.forall_mem_cons, List.pairwise_cons]
    by_cases hx : p x = true
    · rw [List.filter_cons_of_neg (by simp [hx]), List.filter_cons_of_pos hx, List.flatMap_cons,
        List.flatMap_cons]
      constructor
      · intro h
        -- what comes before the list of `x` now came after it
        have hmoved : ((xs.filter fun x => !p x).flatMap g).Disjoint (f x) := by
          intro b hb hbx
          obtain ⟨y, hy, hb⟩ := List.mem_flatMap.mp hb
          have hmem := List.mem_of_mem_filter hy
          exact hdisjoint hbx (List.mem_flatMap.mpr ⟨y, hmem, (hperm.2 y hmem).subset hb⟩)
        rcases eq_nil_of_append_eq h hmoved with hnil | hnil
        · have hnil' : g x = [] := List.eq_nil_of_length_eq_zero (by rw [hlength, hnil]; rfl)
          rw [hnil, hnil', List.nil_append, List.nil_append] at h
          obtain ⟨hall, hpairs⟩ := ih.mp h
          exact ⟨⟨by rw [hnil, hnil'], hall⟩, fun y _ _ _ => .inl hnil, hpairs⟩
        · rw [hnil, List.nil_append] at h
          obtain ⟨hown, hothers⟩ := List.append_inj h hlength
          obtain ⟨hall, hpairs⟩ := ih.mp (by rw [hnil, List.nil_append, hothers])
          refine ⟨⟨hown, hall⟩, fun y hy _ hlater => .inr ?_, hpairs⟩
          rw [← hall y hy]
          exact List.flatMap_eq_nil_iff.mp hnil y (List.mem_filter.mpr ⟨hy, by simp [hlater]⟩)
      · rintro ⟨⟨hown, hall⟩, hfirst, hpairs⟩
        have hothers := ih.mpr ⟨hall, hpairs⟩
        rw [← hothers, hown]
        by_cases hnil : f x = []
        · rw [hnil, List.nil_append, List.nil_append]
        · have hnone : (xs.filter fun x => !p x).flatMap g = [] := by
            refine List.flatMap_eq_nil_iff.mpr fun y hy => ?_
            obtain ⟨hy, hlater⟩ := List.mem_filter.mp hy
            rw [hall y hy]
            exact (hfirst y hy hx (by simpa using hlater)).resolve_left hnil
          rw [hnone, List.nil_append, List.nil_append]
    · rw [List.filter_cons_of_pos (by simp [hx]), List.filter_cons_of_neg hx, List.flatMap_cons,
        List.flatMap_cons, List.append_assoc]
      constructor
      · intro h
        obtain ⟨hown, hothers⟩ := List.append_inj h hlength
        obtain ⟨hall, hpairs⟩ := ih.mp hothers
        exact ⟨⟨hown, hall⟩, fun y _ hx' => absurd hx' hx, hpairs⟩
      · rintro ⟨⟨hown, hall⟩, -, hpairs⟩
        rw [hown, ih.mpr ⟨hall, hpairs⟩]

end Lists

/-! ## Declarations of functions from elsewhere -/

namespace Node

/-- The function that the node declares as defined elsewhere. -/
def extern? : Node → Option SymbolId
  | externDecl _ symbol? => symbol?
  | _ => none

/-- The functions that nodes and everything below them declare as defined elsewhere, in the order of
the text. -/
def externs (nodes : List Node) : List SymbolId := (checkOrderAll nodes).filterMap extern?

@[simp] lemma externs_nil : externs [] = [] := rfl

@[simp] lemma externs_append (xs ys : List Node) :
    externs (xs ++ ys) = externs xs ++ externs ys := by
  simp [externs]

lemma externs_cons (node : Node) (nodes : List Node) :
    externs (node :: nodes) = externs [node] ++ externs nodes := externs_append [node] nodes

lemma externs_eq_flatMap (nodes : List Node) :
    externs nodes = nodes.flatMap fun node => externs [node] := by
  induction nodes with
  | nil => rfl
  | cons node rest ih => rw [externs_cons, ih, List.flatMap_cons]

/-- They are among the symbols that are introduced. -/
lemma externs_sublist (nodes : List Node) : (externs nodes).Sublist (introducedAll nodes) := by
  unfold externs introducedAll
  generalize checkOrderAll nodes = order
  induction order with
  | nil => exact .slnil
  | cons node rest ih =>
    rw [List.flatMap_cons]
    cases node with
    | externDecl loc symbol? =>
      cases symbol? with
      | none => exact ih
      | some id => exact ih.cons_cons id
    | _ => exact ih.trans (List.sublist_append_right _ _)

lemma externs_singleton (node : Node) :
    externs [node] = node.extern?.toList ++ externs node.parts := by
  cases node with
  | externDecl loc symbol? => cases symbol? <;> rfl
  | _ => simp [externs, checkOrderAll, checkOrder, extern?, parts, List.filterMap_cons]

mutual

/-- The functions that a node declares as defined elsewhere, in the order in which code is emitted
for the declarations: a step comes after the body of its loop. -/
def announced (node : Node) : List SymbolId :=
  match node with
  | externDecl _ symbol? => symbol?.toList
  | block _ body | functionDef _ _ _ body | ifThen _ _ body | whileLoop _ _ body =>
    announcedAll body
  | ifElse _ _ thenBody elseBody => announcedAll thenBody ++ announcedAll elseBody
  | forLoop _ init _ step body => init.announced ++ announcedAll body ++ step.announced
  | returnValue _ value _ => value.announced
  | _ => []
termination_by structural node

/-- The functions that several nodes declare, in this order. -/
def announcedAll (nodes : List Node) : List SymbolId :=
  match nodes with
  | [] => []
  | node :: rest => node.announced ++ announcedAll rest
termination_by structural nodes

end

lemma announcedAll_eq_flatMap (nodes : List Node) :
    announcedAll nodes = nodes.flatMap announced := by
  induction nodes with
  | nil => rfl
  | cons node rest ih => rw [announcedAll, ih, List.flatMap_cons]

lemma announcedAll_append (xs ys : List Node) :
    announcedAll (xs ++ ys) = announcedAll xs ++ announcedAll ys := by
  simp [announcedAll_eq_flatMap]

/-- The step of a loop does not overtake declarations in the body, or the other way round. -/
def Orderly : Node → Prop
  | forLoop _ _ _ step body => externs [step] = [] ∨ externs body = []
  | _ => True

/-- No loop among nodes or below them changes the order of declarations. -/
def OrderlyAll (nodes : List Node) : Prop := ∀ node ∈ checkOrderAll nodes, node.Orderly

lemma orderlyAll_cons {node : Node} {nodes : List Node} :
    OrderlyAll (node :: nodes) ↔ OrderlyAll [node] ∧ OrderlyAll nodes :=
  forall_checkOrderAll_cons

lemma orderlyAll_singleton {node : Node} :
    OrderlyAll [node] ↔ node.Orderly ∧ OrderlyAll node.parts :=
  forall_checkOrderAll_singleton

lemma orderlyAll_iff {nodes : List Node} :
    OrderlyAll nodes ↔ ∀ node ∈ nodes, OrderlyAll [node] := by
  induction nodes with
  | nil => simp [OrderlyAll, checkOrderAll]
  | cons node rest ih => rw [orderlyAll_cons, ih, List.forall_mem_cons]

/-- Where nothing is declared, no loop can change an order. -/
lemma orderlyAll_of_externs {nodes : List Node} (h : externs nodes = []) : OrderlyAll nodes := by
  intro node hnode
  cases node with
  | forLoop loc init cond step body =>
    refine .inl (List.eq_nil_iff_forall_not_mem.mpr fun id hid => ?_)
    obtain ⟨inner, hinner, hdeclared⟩ := List.mem_filterMap.mp hid
    have hpart : inner ∈ (Node.forLoop loc init cond step body).checkOrder := by
      obtain ⟨part, hpart, hinner⟩ := mem_checkOrderAll.mp hinner
      refine mem_checkOrder.mpr (.inr (mem_checkOrderAll.mpr ⟨part, ?_, hinner⟩))
      simp [parts, List.mem_singleton.mp hpart]
    have hmem : id ∈ externs nodes :=
      List.mem_filterMap.mpr ⟨inner, checkOrderAll_trans hnode hpart, hdeclared⟩
    rw [h] at hmem
    cases hmem
  | _ => trivial

/-- The node passes on what it declares once, and in order just if its loops are orderly. -/
structure Passes (node : Node) : Prop where
  /-- Everything is passed on. -/
  perm : node.announced.Perm (externs [node])
  /-- The order is kept just if no loop changes it. -/
  order : (externs [node]).Nodup → (node.announced = externs [node] ↔ OrderlyAll [node])

/-- So do several nodes. -/
lemma Passes.all {nodes : List Node} (h : ∀ node ∈ nodes, node.Passes) :
    (announcedAll nodes).Perm (externs nodes) ∧
      ((externs nodes).Nodup → (announcedAll nodes = externs nodes ↔ OrderlyAll nodes)) := by
  rw [announcedAll_eq_flatMap, externs_eq_flatMap]
  refine ⟨List.Perm.flatMap_left _ fun node hnode => (h node hnode).perm, fun hnodup => ?_⟩
  have hkept := flatMap_partition_eq_iff (fun _ => false)
    (fun node hnode => (h node hnode).perm) hnodup
  have hall : nodes.filter (fun _ : Node => !false) = nodes := by simp
  rw [hall, List.filter_false, List.flatMap_nil, List.append_nil] at hkept
  rw [hkept, orderlyAll_iff]
  have hsame : ∀ node ∈ nodes, (node.announced = externs [node] ↔ OrderlyAll [node]) :=
    fun node hnode => (h node hnode).order ((List.nodup_flatMap.mp hnodup).1 node hnode)
  constructor
  · rintro ⟨heq, -⟩ node hnode
    exact (hsame node hnode).mp (heq node hnode)
  · intro horderly
    refine ⟨fun node hnode => (hsame node hnode).mpr (horderly node hnode), ?_⟩
    exact List.pairwise_of_forall fun _ _ hfalse => absurd hfalse (by simp)

/-- A construct that holds statements passes on what they do. -/
lemma Passes.wrap {node : Node} {body : List Node} (h : ∀ part ∈ body, part.Passes)
    (hannounced : node.announced = announcedAll body) (hexterns : externs [node] = externs body)
    (horderly : OrderlyAll [node] ↔ OrderlyAll body) : node.Passes := by
  obtain ⟨hperm, horder⟩ := Passes.all h
  exact ⟨by rwa [hannounced, hexterns], by rwa [hannounced, hexterns, horderly]⟩

/-- In a loop, the body and the step change places. -/
lemma Passes.forLoop {loc : Location} {init cond step : Node} {body : List Node}
    (hcond : externs [cond] = []) (hinit : init.Passes) (hstep : step.Passes)
    (hbody : ∀ part ∈ body, part.Passes) : (forLoop loc init cond step body).Passes := by
  obtain ⟨hperm, horder⟩ := Passes.all hbody
  have hexterns : externs [.forLoop loc init cond step body] =
      externs [init] ++ (externs [step] ++ externs body) := by
    rw [externs_singleton, parts, externs_cons init, externs_cons cond, externs_cons step, hcond]
    rfl
  have horderly : OrderlyAll [.forLoop loc init cond step body] ↔
      (externs [step] = [] ∨ externs body = []) ∧
        OrderlyAll [init] ∧ OrderlyAll [step] ∧ OrderlyAll body := by
    have hparts : OrderlyAll (init :: cond :: step :: body) ↔
        OrderlyAll [init] ∧ OrderlyAll [cond] ∧ OrderlyAll [step] ∧ OrderlyAll body :=
      orderlyAll_cons.trans (and_congr_right fun _ =>
        orderlyAll_cons.trans (and_congr_right fun _ => orderlyAll_cons))
    rw [orderlyAll_singleton, parts, hparts]
    exact and_congr_right fun _ => and_congr_right fun _ =>
      and_iff_right (orderlyAll_of_externs hcond)
  have hannounced : (Node.forLoop loc init cond step body).announced =
      init.announced ++ (announcedAll body ++ step.announced) := List.append_assoc ..
  refine ⟨?_, fun hnodup => ?_⟩
  · rw [hexterns, hannounced]
    exact hinit.perm.append ((hperm.append hstep.perm).trans List.perm_append_comm)
  · rw [hexterns, List.nodup_append', List.nodup_append'] at hnodup
    obtain ⟨hnodup₁, ⟨hnodup₂, hnodup₃, hdisjoint⟩, -⟩ := hnodup
    rw [hexterns, horderly, hannounced, ← hinit.order hnodup₁, ← hstep.order hnodup₂,
      ← horder hnodup₃]
    constructor
    · intro h
      obtain ⟨hfirst, hrest⟩ := List.append_inj h hinit.perm.length_eq
      -- with different names in both, the two orders agree only if one of them is empty
      have hmoved : (announcedAll body).Disjoint (externs [step]) :=
        fun id hid hstep => hdisjoint hstep (hperm.subset hid)
      rcases eq_nil_of_append_eq hrest hmoved with hnil | hnil
      · have hnil' : step.announced = [] := List.Perm.eq_nil (hnil ▸ hstep.perm)
        rw [hnil, hnil', List.append_nil, List.nil_append] at hrest
        exact ⟨.inl hnil, hfirst, by rw [hnil, hnil'], hrest⟩
      · have hnil' : externs body = [] := List.Perm.eq_nil (hnil ▸ hperm.symm)
        rw [hnil, hnil', List.append_nil, List.nil_append] at hrest
        exact ⟨.inr hnil', hfirst, hrest, by rw [hnil, hnil']⟩
    · rintro ⟨hone | hone, hfirst, hlast, hmiddle⟩
      · rw [hfirst, hlast, hmiddle, hone, List.append_nil, List.nil_append]
      · rw [hfirst, hlast, hmiddle, hone, List.append_nil, List.nil_append]

/-- A construct in which nothing is declared passes on nothing. -/
lemma Passes.of_externs {node : Node} (hannounced : node.announced = [])
    (h : externs [node] = []) : node.Passes :=
  ⟨by rw [hannounced, h], fun _ => iff_of_true (by rw [hannounced, h]) (orderlyAll_of_externs h)⟩

lemma Passes.externDecl (loc : Location) (symbol? : Option SymbolId) :
    (externDecl loc symbol?).Passes := by
  have hsame : externs [.externDecl loc symbol?] = symbol?.toList := by
    cases symbol? <;> rfl
  have hparts : OrderlyAll (Node.externDecl loc symbol?).parts := by
    simp [OrderlyAll, parts, checkOrderAll]
  refine ⟨?_, fun _ => iff_of_true hsame.symm (orderlyAll_singleton.mpr ⟨trivial, hparts⟩)⟩
  rw [hsame]
  rfl

/-- Nothing is declared where there are expressions only. -/
lemma externs_of_isExpression {nodes : List Node}
    (h : ∀ node ∈ checkOrderAll nodes, node.isExpression = true) : externs nodes = [] := by
  refine List.filterMap_eq_nil_iff.mpr fun node hnode => ?_
  have hexpression := h node hnode
  cases node <;> first | rfl | cases hexpression

lemma announced_of_isExpression {node : Node} (h : node.isExpression = true) :
    node.announced = [] := by
  cases node <;> first | rfl | cases h

end Node

/-! ## Code -/

namespace Lowering

variable {tables : Tables}

/-- Nothing is declared in a value that an action computes. -/
lemma Action.externs_eq_nil {action : Action} {code : Counted Instr}
    (h : Emitted tables action code) : Node.externs [action.value] = [] := by
  obtain ⟨-, inner, tail, hinner, -⟩ := Action.emit_lowers h
  exact Node.externs_of_isExpression hinner.isExpression

/-- Each of the statements passes on what it declares. -/
def Work.Passes : Work → Prop
  | statement node => node.Passes
  | statements nodes => ∀ node ∈ nodes, node.Passes

/-- A condition in front of statements changes nothing. -/
lemma passes_cond {node cond : Node} {body : List Node} (hbody : ∀ part ∈ body, part.Passes)
    (hcond : Node.externs [cond] = []) (hparts : node.parts = cond :: body)
    (hforeign : node.extern? = none) (horderly : node.Orderly)
    (hannounced : node.announced = Node.announcedAll body) : node.Passes := by
  refine .wrap hbody hannounced ?_ ?_
  · rw [Node.externs_singleton, hforeign, hparts, Node.externs_cons, hcond]
    rfl
  · rw [Node.orderlyAll_singleton, hparts, Node.orderlyAll_cons]
    exact ⟨fun h => h.2.2, fun h => ⟨horderly, Node.orderlyAll_of_externs hcond, h⟩⟩

/-- Every statement for which there is code passes on what it declares, by induction on the shape of
the code. -/
theorem Lays.passes {work : Work} {next stop : Nat} {chunks : List Chunk}
    (h : Lays tables work next chunks stop) : work.Passes := by
  induction h with
  | block inner ih =>
    refine Node.Passes.wrap ih rfl (Node.externs_singleton _) ?_
    rw [Node.orderlyAll_singleton]
    exact and_iff_right trivial
  | @assign loc lhs rhs next code emitted =>
    obtain ⟨-, inner, tail, hinner, ⟨place, htarget, -⟩, -⟩ := Action.emit_lowers emitted
    -- an assignment is no expression, but both of its sides are
    refine Node.Passes.of_externs rfl (Node.externs_of_isExpression ?_)
    exact forall_checkOrderAll_singleton.mpr
      ⟨rfl, forall_checkOrderAll_cons.mpr ⟨isExpression_of_storage htarget, hinner.isExpression⟩⟩
  | @effect node next code isEffect emitted =>
    have hexpression : node.isExpression = true := by
      cases node <;> first | rfl | cases isEffect
    exact Node.Passes.of_externs (Node.announced_of_isExpression hexpression)
      (Action.externs_eq_nil emitted)
  | ifThen emitted inner ih =>
    exact passes_cond ih (Action.externs_eq_nil emitted) rfl rfl trivial rfl
  | whileLoop emitted inner ih =>
    exact passes_cond ih (Action.externs_eq_nil emitted) rfl rfl trivial rfl
  | ifElse emitted onTrue onFalse ihTrue ihFalse =>
    exact passes_cond (List.forall_mem_append.mpr ⟨ihTrue, ihFalse⟩) (Action.externs_eq_nil emitted)
      rfl rfl trivial (Node.announcedAll_append _ _).symm
  | forLoop before emitted inner after ihBefore ihInner ihAfter =>
    exact Node.Passes.forLoop (Action.externs_eq_nil emitted) ihBefore ihAfter ihInner
  | returnVoid => exact Node.Passes.of_externs rfl rfl
  | @silent node next isSilent =>
    cases node with
    | externDecl loc symbol? => exact Node.Passes.externDecl loc symbol?
    | varDecl | typedefDecl | empty => exact Node.Passes.of_externs rfl rfl
    | _ => cases isSilent
  | nil => exact List.forall_mem_nil _
  | @returnResult loc value function next code isExpression emitted =>
    have hannounced : value.announced = [] := Node.announced_of_isExpression isExpression
    refine Node.Passes.of_externs hannounced ?_
    rw [Node.externs_singleton]
    exact Action.externs_eq_nil emitted
  | @returnStatement loc value function next chunks stop isStatement inner ih =>
    refine Node.Passes.wrap (List.forall_mem_singleton.mpr ih) (List.append_nil _).symm
      (Node.externs_singleton _) ?_
    rw [Node.orderlyAll_singleton]
    exact and_iff_right trivial
  | cons head tail ihHead ihTail => exact List.forall_mem_cons.mpr ⟨ihHead, ihTail⟩

/-! ### What is passed on -/

/-- A function that is declared has a name. -/
lemma functionName_eq_ok {symbols : SymbolTable} {loc : Location} {symbol? : Option SymbolId}
    {name : String} (h : functionName symbols loc symbol? = .ok name) :
    [name] = symbol?.toList.map symbols.nameOf := by
  cases symbol? with
  | none => cases h
  | some id =>
    simp only [functionName, bind, Except.bind] at h
    cases hget : symbols.get id with
    | error defect => simp [hget] at h
    | ok symbol =>
      simp only [hget, pure, Except.pure, Except.ok.injEq] at h
      simp [SymbolTable.nameOf, SymbolTable.get_eq_ok_iff.mp hget, h]

mutual

/-- The code of a statement passes on the names of what the statement announces. -/
theorem statement_externs (node : Node) {next depth depth' : Nat} {code : Code}
    (h : statement tables next node depth = .ok (code, depth')) :
    code.externs = node.announced.map tables.symbols.nameOf := by
  match node with
  | .block loc body => exact statements_externs body h
  | .binary loc .assign lhs rhs =>
    -- what is emitted for an expression names nothing, here and in the other cases
    obtain ⟨_, _, -, h⟩ := bind_eq_ok.mp h
    cases h
    rfl
  | .ifThen loc cond body | .whileLoop loc cond body =>
    obtain ⟨_, _, -, h⟩ := bind_eq_ok.mp h
    obtain ⟨inner, _, hinner, h⟩ := bind_eq_ok.mp h
    cases h
    rw [Node.announced, ← statements_externs body hinner]
  | .ifElse loc cond thenBody elseBody =>
    obtain ⟨_, _, -, h⟩ := bind_eq_ok.mp h
    obtain ⟨first, _, hfirst, h⟩ := bind_eq_ok.mp h
    obtain ⟨second, _, hsecond, h⟩ := bind_eq_ok.mp h
    cases h
    rw [Node.announced, List.map_append, ← statements_externs thenBody hfirst,
      ← statements_externs elseBody hsecond]
  | .forLoop loc init cond step body =>
    obtain ⟨start, _, hstart, h⟩ := bind_eq_ok.mp h
    obtain ⟨_, _, -, h⟩ := bind_eq_ok.mp h
    obtain ⟨inner, _, hinner, h⟩ := bind_eq_ok.mp h
    obtain ⟨last, _, hlast, h⟩ := bind_eq_ok.mp h
    cases h
    rw [Node.announced, List.map_append, List.map_append, ← statement_externs init hstart,
      ← statements_externs body hinner, ← statement_externs step hlast]
  | .returnVoid loc function =>
    cases h
    rfl
  | .returnValue loc result function =>
    unfold statement at h
    split at h
    · rename_i hresult
      obtain ⟨_, _, -, h⟩ := bind_eq_ok.mp h
      cases h
      rw [Node.announced, Node.announced_of_isExpression hresult, List.map_nil]
    · obtain ⟨inner, _, hinner, h⟩ := bind_eq_ok.mp h
      cases h
      rw [Node.announced, ← statement_externs result hinner]
  | .externDecl loc symbol? =>
    obtain ⟨name, hname, h⟩ := lift_bind_eq_ok.mp h
    cases h
    exact functionName_eq_ok (promised_eq_ok.mp hname)
  | .varDecl .. | .typedefDecl .. | .empty _ =>
    cases h
    rfl
  | .functionDef .. => cases h
  | .integer .. | .boolean .. | .varRef .. | .binary _ (.arith _) .. | .binary _ (.compare _) ..
  | .call .. | .cast .. =>
    obtain ⟨_, _, -, h⟩ := bind_eq_ok.mp h
    cases h
    rfl

/-- The code of statements passes on the names, statement by statement. -/
theorem statements_externs (nodes : List Node) {next depth depth' : Nat} {code : Code}
    (h : statements tables next nodes depth = .ok (code, depth')) :
    code.externs = (Node.announcedAll nodes).map tables.symbols.nameOf := by
  match nodes with
  | [] =>
    cases h
    rfl
  | node :: rest =>
    obtain ⟨first, _, hfirst, h⟩ := bind_eq_ok.mp h
    obtain ⟨others, _, hothers, h⟩ := bind_eq_ok.mp h
    cases h
    rw [Node.announcedAll, List.map_append, ← statement_externs node hfirst,
      ← statements_externs rest hothers]
    rfl

end

/-- So does the code of the statements of a function. -/
lemma bodyCode_externs {nodes : List Node} {next depth depth' : Nat} {code : Code}
    (h : bodyCode tables next nodes depth = .ok (code, depth')) :
    code.externs = (Node.announcedAll nodes).map tables.symbols.nameOf := by
  induction nodes generalizing next depth code with
  | nil =>
    cases h
    rfl
  | cons node rest ih =>
    obtain ⟨first, depth₁, hfirst, h⟩ := bind_eq_ok.mp h
    obtain ⟨_, _, hget, h⟩ := bind_eq_ok.mp h
    cases hget
    split at h
    · cases h
    · obtain ⟨others, _, hothers, h⟩ := bind_eq_ok.mp h
      cases h
      rw [Node.announcedAll, List.map_append, ← statement_externs node hfirst, ← ih hothers]
      rfl

lemma Function.code_externs {function : Function} {frame next : Nat} {code : Code}
    (h : function.code tables frame next = .ok code) :
    code.externs = (Node.announcedAll function.body).map tables.symbols.nameOf := by
  simp only [Function.code, StateT.run', bind, Except.bind, Functor.map, Except.map] at h
  cases hspill : spill tables function.location (function.params.zip Reg.arguments) with
  | error obstacle => simp [hspill] at h
  | ok spills =>
    rcases hbody : bodyCode tables next function.body 0 with obstacle | ⟨body, depth⟩
    · simp [hspill, hbody] at h
    · simp only [hspill, hbody, pure, Except.pure, Except.ok.injEq] at h
      rw [← h, ← bodyCode_externs hbody]

/-! ### What the head of a program names -/

/-- Adding a function adds the names of what its body announces. -/
lemma addFunction_externs {ws ws' : Workspace} {assembly assembly' : Assembly} {function : Function}
    (hsame : Repositioned tables ws'.toTables)
    (hrun : addFunction assembly function ws = .ok assembly' ws') :
    assembly'.externs =
      assembly.externs ++ (Node.announcedAll function.body).map tables.symbols.nameOf := by
  obtain ⟨used, ws₁, code, -, htables, hcode, -, -, hexterns⟩ := addFunction_run hrun
  rw [hexterns, Function.code_externs hcode, ← htables]
  congr 1
  exact List.map_congr_left fun id _ => (hsame.alike.nameOf id).symm

/-- Adding items adds the names of what they announce, but for statements. -/
theorem Adds.externs {items : List Node} {assembly assembly' : Assembly} {ws ws' : Workspace}
    (h : Adds tables items assembly ws assembly' ws') :
    assembly'.externs = assembly.externs ++
      (Node.announcedAll (items.filter (!·.isStatement))).map tables.symbols.nameOf := by
  induction h with
  | nil => exact (List.append_nil _).symm
  | externDecl others ih =>
    rw [ih, List.append_assoc]
    rfl
  | functionDef add same frame kept others ih =>
    rw [ih, addFunction_externs same add, List.filter_cons_of_pos rfl, Node.announcedAll,
      List.map_append, List.append_assoc]
    rfl
  | typedefDecl others ih => exact ih
  | statement isStatement others ih =>
    rw [ih, List.filter_cons_of_neg (by simp [isStatement])]

end Lowering

/-! ## Programs -/

namespace Program

/-- The functions that a program declares as defined elsewhere, in the order in which code is
emitted for the declarations: those of statements of the top level come last. -/
def announced (program : Program) : List SymbolId :=
  Node.announcedAll (program.items.filter (!·.isStatement)) ++ Node.announcedAll program.statements

/-- Nothing changes the order of the declarations of functions from elsewhere. -/
structure Orderly (program : Program) : Prop where
  /-- No loop does. -/
  loops : Node.OrderlyAll program.items
  /-- No declaration in a statement of the top level comes before one in a function, or one that
  stands at the top level itself. -/
  statements : program.items.Pairwise fun item later =>
    item.isStatement = true → later.isStatement = false →
      Node.externs [item] = [] ∨ Node.externs [later] = []

variable {program : Program}

/-- Where each construct of the top level passes on what it declares, the program does. -/
lemma announced_eq_iff (h : ∀ item ∈ program.items, item.Passes)
    (hnodup : (Node.externs program.items).Nodup) :
    program.announced = Node.externs program.items ↔ program.Orderly := by
  have hsplit := flatMap_partition_eq_iff Node.isStatement (fun item hitem => (h item hitem).perm)
    (Node.externs_eq_flatMap _ ▸ hnodup)
  rw [← Node.externs_eq_flatMap, ← Node.announcedAll_eq_flatMap, ← Node.announcedAll_eq_flatMap]
    at hsplit
  have hloops : (∀ item ∈ program.items, item.announced = Node.externs [item]) ↔
      Node.OrderlyAll program.items := by
    rw [Node.externs_eq_flatMap, List.nodup_flatMap] at hnodup
    rw [Node.orderlyAll_iff]
    exact forall₂_congr fun item hitem => (h item hitem).order (hnodup.1 item hitem)
  rw [hloops] at hsplit
  exact hsplit.trans ⟨fun h => ⟨h.1, h.2⟩, fun h => ⟨h.loops, h.statements⟩⟩

lemma announced_perm (h : ∀ item ∈ program.items, item.Passes) :
    program.announced.Perm (Node.externs program.items) := by
  have hsplit : (program.items.filter (!·.isStatement) ++ program.statements).Perm program.items :=
    List.perm_append_comm.trans (List.filter_append_perm _ _)
  unfold announced
  rw [← Node.announcedAll_append, Node.announcedAll_eq_flatMap, Node.externs_eq_flatMap]
  exact (hsplit.flatMap_right _).trans
    (List.Perm.flatMap_left _ fun item hitem => (h item hitem).perm)

/-- Every construct at the top level of a program with code passes on what it declares. -/
lemma Accepted.passes {tables : Tables} (h : program.Accepted tables) {routines : List Routine}
    (hcode : List.Forall₂ (IsCodeOf tables) (program.functions tables.symbols) routines) :
    ∀ item ∈ program.items, item.Passes := by
  have hbody : ∀ unit ∈ program.functions tables.symbols, ∀ node ∈ unit.2.body, node.Passes := by
    intro unit hunit
    obtain ⟨i, hi, rfl⟩ := List.getElem_of_mem hunit
    obtain ⟨placed, used, next, code, -, hcompiled, -⟩ := hcode.get hi (hcode.length_eq ▸ hi)
    obtain ⟨-, -, chunks, -, -, -, hchunks, -⟩ := Function.code_lays hcompiled.code
    exact hchunks.passes
  intro item hitem
  by_cases hstatement : item.isStatement = true
  · have hmem : item ∈ program.statements := List.mem_filter.mpr ⟨hitem, hstatement⟩
    -- statements of the top level make up the start, which there is then
    have hstart : program.start ∈ program.functions tables.symbols := by
      refine Program.mem_functions.mpr (.inr ⟨rfl, fun other hother hname => ?_⟩)
      rw [h.statements_eq_nil (List.any_eq_true.mpr ⟨other, hother, by simp [hname]⟩)] at hmem
      cases hmem
    exact hbody _ hstart _ hmem
  · cases item with
    | functionDef loc symbol? params body =>
      obtain ⟨f, rfl⟩ := Option.ne_none_iff_exists'.mp (h.checked _ hitem).fits.named
      have hunit : (some f, ⟨tables.symbols.nameOf f, loc, params, body, false⟩) ∈
          program.functions tables.symbols :=
        mem_functions.mpr (.inl (mem_definitions.mpr ⟨loc, f, params, body, hitem, rfl⟩))
      refine .wrap (hbody _ hunit) rfl (Node.externs_singleton _) ?_
      rw [Node.orderlyAll_singleton]
      exact and_iff_right trivial
    | externDecl loc symbol? => exact .externDecl loc symbol?
    | typedefDecl => exact .of_externs rfl rfl
    | _ => exact absurd rfl hstatement

/-- No function is defined below the constructs of the top level. -/
lemma Accepted.filter_isFunction {tables : Tables} (h : program.Accepted tables) :
    (Node.checkOrderAll program.items).filter Node.isFunction =
      program.items.filter Node.isFunction := by
  have signed : Signed tables := signed_of_analyzed h.toAnalyzed
  have hbelow : ∀ {node : Node} {owner : Option SymbolId}, node.Checked tables owner →
      node.isFunction = false → node.checkOrder.filter Node.isFunction = [] := by
    intro node owner hchecked hfunction
    refine List.filter_eq_nil_iff.mpr fun n hn => ?_
    rw [isFunction_of_below h.complete signed hchecked hfunction n hn]
    exact Bool.false_ne_true
  have hitem : ∀ item ∈ program.items,
      item.checkOrder.filter Node.isFunction = [item].filter Node.isFunction := by
    intro item hitem
    have hchecked := h.checked item hitem
    cases hfunction : item.isFunction with
    | false =>
      rw [hbelow hchecked hfunction, List.filter_singleton, hfunction]
      rfl
    | true =>
      cases item with
      | functionDef loc symbol? params body =>
        -- inside a function there is none
        have hbody : (Node.checkOrderAll body).filter Node.isFunction = [] := by
          rw [Node.checkOrderAll_eq_flatMap, List.filter_flatMap]
          refine List.flatMap_eq_nil_iff.mpr fun node hnode => ?_
          exact hbelow (hchecked.part hnode) (hchecked.fits.flat node hnode)
        rw [Node.checkOrder, List.filter_cons_of_pos hfunction, hbody,
          List.filter_cons_of_pos hfunction, List.filter_nil]
      | _ => cases hfunction
  rw [Node.checkOrderAll_eq_flatMap, List.filter_flatMap, List.flatMap_congr hitem,
    ← List.filter_flatMap, List.flatMap_singleton']

/-- There is a function for each definition. -/
lemma Accepted.definitions_fst {tables : Tables} (h : program.Accepted tables) :
    (program.definitions tables.symbols).map Prod.fst =
      ((Node.checkOrderAll program.items).filter Node.isFunction).map Node.symbol? := by
  rw [h.filter_isFunction, Program.definitions]
  have hnamed : ∀ item ∈ program.items, item.Named tables.symbols none :=
    fun item hitem => (h.checked item hitem).fits.named
  generalize program.items = items at hnamed ⊢
  induction items with
  | nil => rfl
  | cons item rest ih =>
    obtain ⟨hitem, hrest⟩ := List.forall_mem_cons.mp hnamed
    cases item with
    | functionDef loc symbol? params body =>
      obtain ⟨f, rfl⟩ := Option.ne_none_iff_exists'.mp hitem
      rw [List.filter_cons_of_pos rfl, List.map_cons, ← ih hrest]
      rfl
    | _ =>
      rw [List.filter_cons_of_neg (by simp [Node.isFunction]), ← ih hrest]
      rfl

end Program

/-- The head of the text names the functions from elsewhere that are announced. -/
theorem generate_externs {program : Program} {ws ws' : Workspace} {assembly : Assembly}
    (h : program.Accepted ws.toTables) (hrun : generate program ws = .ok assembly ws') :
    assembly.externs = program.announced.map ws.symbols.nameOf := by
  obtain ⟨assembly₁, ws₁, hitems, hend⟩ := generate_run h.toAnalyzed hrun
  have hfirst := hitems.externs
  rw [show ({} : Assembly).externs = [] from rfl, List.nil_append] at hfirst
  unfold Program.announced
  rcases hend with ⟨hmain, -, rfl, -⟩ | ⟨-, -, ws₂, hstart, htables⟩
  · rw [hfirst, h.statements_eq_nil hmain, Node.announcedAll, List.append_nil]
  · have hsame := (generate_frames h.toAnalyzed hrun).1
    rw [htables] at hsame
    rw [addFunction_externs hsame hstart, hfirst, List.map_append]
    rfl

/-- What the sections of the text are. -/
structure HasSections (program : Program) (tables : Tables) (assembly : Assembly) : Prop where
  /-- The head is followed by a section for each routine. -/
  text : assembly.textLines = [".section .text", ".globl main"] ++
    program.announced.map (".extern " ++ tables.symbols.nameOf ·) ++
    assembly.routines.flatMap Routine.textLines
  /-- Each declaration of a function from elsewhere has its symbol, wherever it stands. -/
  declared : ∀ loc, .externDecl loc none ∉ Node.checkOrderAll program.items
  /-- They are declared one after the other. -/
  sorted : (Node.externs program.items).Pairwise (·.index < ·.index)
  /-- Each of them is announced once, and nothing else is. -/
  once : program.announced.Perm (Node.externs program.items)
  /-- The head is in the order of the declarations just if nothing changes it. -/
  order : program.announced = Node.externs program.items ↔ program.Orderly
  /-- The routines are those of the functions of the program, in their order. -/
  routines : List.Forall₂ (IsCodeOf tables) (program.functions tables.symbols) assembly.routines
  /-- There is one function for each definition, in whatever construct it stands, in their order. -/
  definitions : (program.definitions tables.symbols).map Prod.fst =
    ((Node.checkOrderAll program.items).filter Node.isFunction).map Node.symbol?
  /-- The statements of the top level are the last function, or there are none. -/
  main : program.functions tables.symbols =
        program.definitions tables.symbols ++ [program.start] ∧
      (∀ unit ∈ program.definitions tables.symbols, unit.2.name ≠ "main") ∨
    program.functions tables.symbols = program.definitions tables.symbols ∧
      (∃ unit ∈ program.definitions tables.symbols, unit.2.name = "main") ∧
      program.statements = []

/-- A program that is analyzed and compiled becomes a text whose head names each function from
elsewhere once, in the order of the declarations but for steps of loops and statements of the top
level, and whose sections are the functions in the order of their definitions, the statements of the
top level last. -/
theorem sections_in_order {file source : String} {program : Program} {ws ws' : Workspace}
    {assembly : Assembly} (hanalyze : analyze source (.initial file) = .ok program ws)
    (hgenerate : generate program ws = .ok assembly ws') :
    HasSections program ws.toTables assembly := by
  obtain ⟨haccepted, -⟩ := Program.Accepted.of_analyze hanalyze
  have hroutines := generated_routines hanalyze hgenerate
  have hpasses := haccepted.passes hroutines
  -- numbers grow in the order of the declarations, so no function is announced twice
  have hsorted : (Node.externs program.items).Pairwise (·.index < ·.index) :=
    (Program.introduced_sorted hanalyze).sublist (Node.externs_sublist _)
  have hnodup : (Node.externs program.items).Nodup := by
    refine hsorted.imp ?_
    rintro id _ hlt rfl
    exact Nat.lt_irrefl _ hlt
  refine {
    text := ?_
    declared := ?_
    sorted := hsorted
    once := Program.announced_perm hpasses
    order := Program.announced_eq_iff hpasses hnodup
    routines := hroutines
    definitions := haccepted.definitions_fst
    main := ?_ }
  · rw [Assembly.textLines, generate_externs haccepted hgenerate, List.map_map]
    rfl
  · intro loc hnode
    obtain ⟨owner, hholds⟩ := Program.exists_holds hnode
    exact (haccepted.checked_of_holds hholds).fits.named rfl
  · unfold Program.functions
    by_cases hmain : (program.definitions ws.symbols).any (·.2.name = "main") = true
    · obtain ⟨unit, hunit, hname⟩ := List.any_eq_true.mp hmain
      exact .inr ⟨by simp [hmain], ⟨unit, hunit, of_decide_eq_true hname⟩,
        haccepted.statements_eq_nil hmain⟩
    · refine .inl ⟨by simp [hmain], fun unit hunit hname => hmain ?_⟩
      exact List.any_eq_true.mpr ⟨unit, hunit, by simp [hname]⟩

/-- Declarations in a branch, in a function and in its result, and in the start of a loop. -/
theorem sections_in_order_nested : ∃ program ws assembly ws',
    analyze "(exfun put) (defun f (n: s64) void ((if (> n 0) (exfun one) (put n)
      (else (exfun two (a: s64) s64) (two n)))) (return (exfun three)))
      (for (exfun four) (== 1 2) (exfun five) (f 1))" (.initial "nested") = .ok program ws ∧
    generate program ws = .ok assembly ws' ∧
    assembly.externs = ["put", "one", "two", "three", "four", "five"] ∧
    HasSections program ws.toTables assembly := by
  have hcompiles : compilesAnd "nested"
      "(exfun put) (defun f (n: s64) void ((if (> n 0) (exfun one) (put n)
      (else (exfun two (a: s64) s64) (two n)))) (return (exfun three)))
      (for (exfun four) (== 1 2) (exfun five) (f 1))"
      (fun _ _ assembly =>
        assembly.externs = ["put", "one", "two", "three", "four", "five"]) = true := by
    rw [compilesAnd_ofList]
    decide +kernel
  obtain ⟨program, ws, assembly, ws', hanalyze, hgenerate, hexterns⟩ :=
    runs_of_compilesAnd hcompiles
  exact ⟨program, ws, assembly, ws', hanalyze, hgenerate, of_decide_eq_true hexterns,
    sections_in_order hanalyze hgenerate⟩

/-- The body of a loop is emitted before the step, which stands in front of it. -/
theorem not_in_order_step : ∃ program ws assembly ws',
    analyze "(for () false (exfun s) (exfun b))" (.initial "step") = .ok program ws ∧
    generate program ws = .ok assembly ws' ∧
    (Node.externs program.items).map ws.symbols.nameOf = ["s", "b"] ∧
    assembly.externs = ["b", "s"] := by
  have hcompiles : compilesAnd "step" "(for () false (exfun s) (exfun b))"
      (fun program tables assembly =>
        (Node.externs program.items).map tables.symbols.nameOf = ["s", "b"] ∧
          assembly.externs = ["b", "s"]) = true := by
    decide +kernel
  obtain ⟨program, ws, assembly, ws', hanalyze, hgenerate, hexterns⟩ :=
    runs_of_compilesAnd hcompiles
  exact ⟨program, ws, assembly, ws', hanalyze, hgenerate, of_decide_eq_true hexterns⟩

end ParenC
