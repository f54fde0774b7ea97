/-
The code of functions, as chunks.

A routine is its prologue, which also stores the parameters, and the chunks of its body and of its
end.  `Function.runs` lists the expressions of the body for which code is generated on the way;
each of them finds its instructions somewhere among the lines of the routine.
-/
import ParenC.Proofs.Lowering.Statement

namespace ParenC

open Lowering

mutual

/-- The expressions that a statement has computed: those that are statements themselves, the right
sides of assignments, conditions and results. -/
def Node.roots (node : Node) : List Node :=
  match node with
  | .block _ body => rootsAll body
  | .binary _ .assign _ rhs => [rhs]
  | .ifThen _ cond body => cond :: rootsAll body
  | .ifElse _ cond thenBody elseBody => cond :: (rootsAll thenBody ++ rootsAll elseBody)
  | .whileLoop _ cond body => cond :: rootsAll body
  | .forLoop _ init cond step body => init.roots ++ cond :: (rootsAll body ++ step.roots)
  | .returnValue _ value _ => if value.isExpression then [value] else value.roots
  | .functionDef .. | .externDecl .. | .varDecl .. | .typedefDecl .. | .returnVoid .. | .empty _ =>
    []
  | .integer .. | .boolean .. | .varRef .. | .binary .. | .call .. | .cast .. => [node]
termination_by structural node

/-- The same for statements. -/
def Node.rootsAll (nodes : List Node) : List Node :=
  match nodes with
  | [] => []
  | node :: rest => node.roots ++ rootsAll rest
termination_by structural nodes

end

namespace Lowering

/-- The expressions for which code is generated when it is generated for a function, each with the
number of values on the stack then. -/
def Function.runs (function : Function) : List (Nat × Node) :=
  (Node.rootsAll function.body).flatMap (valueRuns 0)

/-- How the code of a function ends. -/
def Function.ending (function : Function) : List Chunk :=
  if function.exitsZero then [.zero, .leave] else [.leave]

/-- The expressions that are computed in the course of the work. -/
def Work.roots : Work → List Node
  | statement node => node.roots
  | statements nodes => Node.rootsAll nodes

variable {tables : Tables}

/-! ## Parameters -/

/-- The first parameter is stored in its variable, then the others. -/
lemma spill_cons_eq_ok {loc : Location} {param : SymbolId} {reg : Reg}
    {rest : List (SymbolId × Reg)} {spills : List Instr}
    (h : spill tables loc ((param, reg) :: rest) = .ok spills) : ∃ place others,
      slot tables loc param = .ok place ∧ spill tables loc rest = .ok others ∧
      spills = place.store reg :: others := by
  simp only [spill, bind, Except.bind] at h
  cases hslot : slot tables loc param with
  | error obstacle => simp [hslot] at h
  | ok place =>
    cases hrest : spill tables loc rest with
    | error obstacle => simp [hslot, hrest] at h
    | ok others =>
      simp only [hslot, hrest, pure, Except.pure, Except.ok.injEq] at h
      exact ⟨place, others, rfl, rfl, h.symm⟩

/-! ## Chunks of a routine -/

/-- The code of a function is its prologue and the chunks of its body and its end. -/
theorem Counted.code_lays {function : Function} {frame next : Nat} {code : Counted.Code}
    (h : Counted.code function tables frame next = .ok code) : ∃ spills chunks,
      spill tables function.location (function.params.zip Reg.arguments) = .ok spills ∧
      Lays tables (.statements function.body) next chunks code.next ∧
      code.lines = level 0 (Lowering.plain (prologue frame ++ spills)) ++
        chunkLines (chunks ++ function.ending) := by
  unfold Counted.code at h
  cases hspill : spill tables function.location (function.params.zip Reg.arguments) with
  | error obstacle => simp [hspill, bind, Except.bind] at h
  | ok spills =>
    rcases hbody : bodyCode tables next function.body 0 with obstacle | ⟨body, depth⟩
    · simp [hspill, hbody, StateT.run', StateT.bind, emit, bind, Except.bind,
        Functor.map, Except.map, get, getThe, MonadStateOf.get, StateT.get, pure, pure_at,
        Except.pure] at h
    · obtain ⟨rfl, chunks, hchunks, hlines⟩ := bodyCode_lays function.body hbody
      simp only [hspill, hbody, StateT.run', StateT.bind, emit, bind, Except.bind,
        Functor.map, Except.map, get, getThe, MonadStateOf.get, StateT.get, pure, pure_at,
        Except.pure, Except.ok.injEq] at h
      subst h
      refine ⟨spills, chunks, rfl, hchunks, ?_⟩
      cases hzero : function.exitsZero <;> simp [hlines, Function.ending, hzero, Chunk.lines, level]

/-- So it is without the counters. -/
theorem Function.code_lays {function : Function} {frame next : Nat} {code : Code}
    (h : function.code tables frame next = .ok code) : ∃ counted spills chunks,
      Counted.code function tables frame next = .ok counted ∧ counted.erase = code ∧
      spill tables function.location (function.params.zip Reg.arguments) = .ok spills ∧
      Lays tables (.statements function.body) next chunks code.next ∧
      counted.lines = Counted.level 0 (plain (prologue frame ++ spills)) ++
        chunkLines (chunks ++ function.ending) := by
  rw [← Counted.erase_code] at h
  cases hcounted : Counted.code function tables frame next with
  | error obstacle => simp [hcounted, Functor.map, Except.map] at h
  | ok counted =>
    simp only [hcounted, Functor.map, Except.map, Except.ok.injEq] at h
    subst h
    obtain ⟨spills, chunks, hspills, hchunks, hlines⟩ := Counted.code_lays hcounted
    exact ⟨counted, spills, chunks, rfl, rfl, hspills, hchunks, hlines⟩

/-- The code of an action among chunks was emitted for it, and its value is computed in the course
of the work. -/
lemma Lays.action {work : Work} {next stop : Nat} {chunks : List Chunk}
    (h : Lays tables work next chunks stop) {action : Action} {code : Counted Instr}
    (hmem : .action action code ∈ chunks) :
    Emitted tables action code ∧ action.value ∈ work.roots := by
  induction h with
  | block inner ih => exact ih hmem
  | assign emitted =>
    cases List.mem_singleton.mp hmem
    exact ⟨emitted, List.mem_singleton_self _⟩
  | @effect node next code isEffect emitted =>
    cases List.mem_singleton.mp hmem
    refine ⟨emitted, ?_⟩
    cases node with
    | binary loc op lhs rhs =>
      -- an assignment would be another kind of work
      cases op <;> first | exact List.mem_singleton_self _ | simp [Lowering.isEffect] at isEffect
    | integer | boolean | varRef | call | cast => exact List.mem_singleton_self _
    | _ => simp [Lowering.isEffect, Node.isExpression] at isEffect
  | @ifThen loc cond body next test inside stop emitted inner ih =>
    have hcases : (action = .test cond ∧ code = test) ∨ .action action code ∈ inside := by
      simpa using hmem
    rw [Work.roots, Node.roots, List.mem_cons]
    rcases hcases with ⟨rfl, rfl⟩ | hinside
    · exact ⟨emitted, Or.inl rfl⟩
    · exact ⟨(ih hinside).1, Or.inr (ih hinside).2⟩
  | @ifElse loc cond thenBody elseBody next test first second middle stop emitted onTrue onFalse
      ihTrue ihFalse =>
    have hcases : (action = .test cond ∧ code = test) ∨ .action action code ∈ first ∨
        .action action code ∈ second := by
      simpa using hmem
    rw [Work.roots, Node.roots, List.mem_cons, List.mem_append]
    rcases hcases with ⟨rfl, rfl⟩ | hfirst | hsecond
    · exact ⟨emitted, Or.inl rfl⟩
    · exact ⟨(ihTrue hfirst).1, Or.inr (Or.inl (ihTrue hfirst).2)⟩
    · exact ⟨(ihFalse hsecond).1, Or.inr (Or.inr (ihFalse hsecond).2)⟩
  | @whileLoop loc cond body next test inside stop emitted inner ih =>
    have hcases : (action = .test cond ∧ code = test) ∨ .action action code ∈ inside := by
      simpa using hmem
    rw [Work.roots, Node.roots, List.mem_cons]
    rcases hcases with ⟨rfl, rfl⟩ | hinside
    · exact ⟨emitted, Or.inl rfl⟩
    · exact ⟨(ih hinside).1, Or.inr (ih hinside).2⟩
  | @forLoop loc init cond step body next test start inside last first second stop before emitted
      inner after ihBefore ihInner ihAfter =>
    -- the chunks of a loop: those of its start, the test, the body and the step
    have hcases : .action action code ∈ start ∨ (action = .test cond ∧ code = test) ∨
        .action action code ∈ inside ∨ .action action code ∈ last := by
      simpa using hmem
    rw [Work.roots, Node.roots, List.mem_append, List.mem_cons, List.mem_append]
    rcases hcases with hstart | ⟨rfl, rfl⟩ | hinside | hlast
    · exact ⟨(ihBefore hstart).1, Or.inl (ihBefore hstart).2⟩
    · exact ⟨emitted, Or.inr (Or.inl rfl)⟩
    · exact ⟨(ihInner hinside).1, Or.inr (Or.inr (Or.inl (ihInner hinside).2))⟩
    · exact ⟨(ihAfter hlast).1, Or.inr (Or.inr (Or.inr (ihAfter hlast).2))⟩
  | @returnResult loc value function next result isExpression emitted =>
    have hcases : action = .result value ∧ code = result := by simpa using hmem
    obtain ⟨rfl, rfl⟩ := hcases
    rw [Work.roots, Node.roots, if_pos isExpression]
    exact ⟨emitted, List.mem_singleton_self _⟩
  | @returnStatement loc value function next inside stop isStatement inner ih =>
    have hinside : .action action code ∈ inside := by simpa using hmem
    rw [Work.roots, Node.roots, if_neg (by simp [isStatement])]
    exact ih hinside
  | returnVoid | silent | nil => simp at hmem
  | @cons node rest next first others middle stop head tail ihHead ihTail =>
    rw [Work.roots, Node.rootsAll, List.mem_append]
    rcases List.mem_append.mp hmem with hfirst | hothers
    · exact ⟨(ihHead hfirst).1, Or.inl (ihHead hfirst).2⟩
    · exact ⟨(ihTail hothers).1, Or.inr (ihTail hothers).2⟩

/-- One of the chunks goes to the label. -/
def GoesTo (chunks : List Chunk) (target : Nat) : Prop :=
  .jump target ∈ chunks ∨ .branch target ∈ chunks

lemma goesTo_cons {chunk : Chunk} {chunks : List Chunk} {target : Nat} :
    GoesTo (chunk :: chunks) target ↔
      (.jump target = chunk ∨ .branch target = chunk) ∨ GoesTo chunks target := by
  simp only [GoesTo, List.mem_cons]
  exact or_or_or_comm

lemma goesTo_append {xs ys : List Chunk} {target : Nat} :
    GoesTo (xs ++ ys) target ↔ GoesTo xs target ∨ GoesTo ys target := by
  simp only [GoesTo, List.mem_append]
  exact or_or_or_comm

lemma not_goesTo_nil {target : Nat} : ¬ GoesTo [] target := by
  simp [GoesTo]

/-- There is a label for each jump. -/
lemma Lays.target {work : Work} {next stop : Nat} {chunks : List Chunk}
    (h : Lays tables work next chunks stop) {target : Nat} (hgoes : GoesTo chunks target) :
    .label target ∈ chunks := by
  induction h with
  | block inner ih => exact ih hgoes
  | assign | effect | returnVoid | returnResult | silent | nil =>
    simp [goesTo_cons, not_goesTo_nil] at hgoes
  | @ifThen loc cond body next test inside stop emitted inner ih =>
    -- the branch goes to the label at the end
    have hcases : target = next ∨ GoesTo inside target := by
      simpa [goesTo_cons, goesTo_append, not_goesTo_nil] using hgoes
    rcases hcases with rfl | hinside
    · simp
    · simp [ih hinside]
  | @ifElse loc cond thenBody elseBody next test first second middle stop emitted onTrue onFalse
      ihTrue ihFalse =>
    -- the branch goes to the label between both parts, and the jump to the one at the end
    have hcases : target = next ∨ GoesTo first target ∨ target = middle ∨
        GoesTo second target := by
      simpa [goesTo_cons, goesTo_append, not_goesTo_nil] using hgoes
    rcases hcases with rfl | hfirst | rfl | hsecond
    · simp
    · simp [ihTrue hfirst]
    · simp
    · simp [ihFalse hsecond]
  | @whileLoop loc cond body next test inside stop emitted inner ih =>
    -- the branch goes to the label at the end, and the jump to the one at the start
    have hcases : target = next + 1 ∨ GoesTo inside target ∨ target = next := by
      simpa [goesTo_cons, goesTo_append, not_goesTo_nil] using hgoes
    rcases hcases with rfl | hinside | rfl
    · simp
    · simp [ih hinside]
    · simp
  | @forLoop loc init cond step body next test start inside last first second stop before emitted
      inner after ihBefore ihInner ihAfter =>
    have hcases : GoesTo start target ∨ target = next + 1 ∨ GoesTo inside target ∨
        GoesTo last target ∨ target = next := by
      simpa [goesTo_cons, goesTo_append, not_goesTo_nil] using hgoes
    rcases hcases with hstart | rfl | hinside | hlast | rfl
    · simp [ihBefore hstart]
    · simp
    · simp [ihInner hinside]
    · simp [ihAfter hlast]
    · simp
  | @returnStatement loc value function next inside stop isStatement inner ih =>
    have hinside : GoesTo inside target := by
      simpa [goesTo_cons, goesTo_append, not_goesTo_nil] using hgoes
    exact List.mem_append_left _ (ih hinside)
  | cons head tail ihHead ihTail =>
    rcases goesTo_append.mp hgoes with hfirst | hothers
    · exact List.mem_append_left _ (ihHead hfirst)
    · exact List.mem_append_right _ (ihTail hothers)

/-! ## Expressions in a routine -/

/-- The expression is that of an action among the chunks. -/
def HasAction (tables : Tables) (chunks : List Chunk) (root : Node) : Prop :=
  ∃ action code, .action action code ∈ chunks ∧ action.value = root ∧ Emitted tables action code

lemma HasAction.mono {chunks chunks' : List Chunk} {root : Node}
    (h : HasAction tables chunks root) (hsub : ∀ chunk ∈ chunks, chunk ∈ chunks') :
    HasAction tables chunks' root := by
  obtain ⟨action, code, hmem, hrest⟩ := h
  exact ⟨action, code, hsub _ hmem, hrest⟩

/-- Each expression that a statement has computed is that of an action. -/
theorem Lays.hasAction {work : Work} {next stop : Nat} {chunks : List Chunk}
    (h : Lays tables work next chunks stop) :
    ∀ root ∈ work.roots, HasAction tables chunks root := by
  have self : ∀ {action : Action} {code : Counted Instr} {chunks : List Chunk},
      Emitted tables action code → .action action code ∈ chunks →
      HasAction tables chunks action.value := fun hcode hmem => ⟨_, _, hmem, rfl, hcode⟩
  induction h with
  | block inner ih => exact ih
  | assign emitted =>
    intro root hroot
    rw [List.mem_singleton.mp hroot]
    exact self emitted (by simp)
  | @effect node next code isEffect emitted =>
    -- an assignment would be another kind of work
    have hroots : node.roots = [node] := by
      cases node with
      | binary loc op lhs rhs => cases op <;> first | rfl | simp [Lowering.isEffect] at isEffect
      | integer | boolean | varRef | call | cast => rfl
      | _ => simp [Lowering.isEffect, Node.isExpression] at isEffect
    intro root hroot
    rw [Work.roots, hroots] at hroot
    rw [List.mem_singleton.mp hroot]
    exact self emitted (by simp)
  | ifThen emitted inner ih =>
    intro root hroot
    rcases List.mem_cons.mp hroot with rfl | hroot
    · exact self emitted (by simp)
    · exact (ih root hroot).mono (by grind)
  | ifElse emitted onTrue onFalse ihTrue ihFalse =>
    intro root hroot
    rcases List.mem_cons.mp hroot with rfl | hroot
    · exact self emitted (by simp)
    rcases List.mem_append.mp hroot with hroot | hroot
    · exact (ihTrue root hroot).mono (by grind)
    · exact (ihFalse root hroot).mono (by grind)
  | whileLoop emitted inner ih =>
    intro root hroot
    rcases List.mem_cons.mp hroot with rfl | hroot
    · exact self emitted (by simp)
    · exact (ih root hroot).mono (by grind)
  | forLoop before emitted inner after ihBefore ihInner ihAfter =>
    intro root hroot
    rcases List.mem_append.mp hroot with hroot | hroot
    · exact (ihBefore root hroot).mono (by grind)
    rcases List.mem_cons.mp hroot with rfl | hroot
    · exact self emitted (by simp)
    rcases List.mem_append.mp hroot with hroot | hroot
    · exact (ihInner root hroot).mono (by grind)
    · exact (ihAfter root hroot).mono (by grind)
  | returnVoid => simp [Work.roots, Node.roots]
  | returnResult isExpression emitted =>
    intro root hroot
    simp only [Work.roots, Node.roots, isExpression, if_true, List.mem_singleton] at hroot
    rw [hroot]
    exact self emitted (by simp)
  | returnStatement isStatement inner ih =>
    intro root hroot
    simp only [Work.roots, Node.roots, isStatement] at hroot
    exact (ih root hroot).mono (by grind)
  | @silent node next isSilent =>
    cases node <;> simp [Lowering.isSilent, Work.roots, Node.roots] at isSilent ⊢
  | nil => simp [Work.roots, Node.rootsAll]
  | cons head tail ihHead ihTail =>
    intro root hroot
    rcases List.mem_append.mp hroot with hroot | hroot
    · exact (ihHead root hroot).mono (by grind)
    · exact (ihTail root hroot).mono (by grind)

/-- Forgetting the counters keeps parts. -/
lemma Counted.erase_part {α : Type} {part code : Counted α} (h : part <:+: code) :
    part.erase <:+: code.erase := h.map _

lemma chunkLines_part {chunk : Chunk} {chunks : List Chunk} (h : chunk ∈ chunks) :
    chunk.lines <:+: chunkLines chunks := by
  obtain ⟨before, after, rfl⟩ := List.append_of_mem h
  rw [chunkLines_append, chunkLines_cons]
  exact ⟨chunkLines before, chunkLines after, by simp⟩

/-- The instructions for each expression of a function are among the lines of its routine. -/
theorem Function.runs_emitted {function : Function} {frame next : Nat} {code : Code}
    (h : function.code tables frame next = .ok code) : ∀ run ∈ function.runs,
      ∃ part, Lowers tables (.value run.2) run.1 part ∧ plain part.erase <:+: code.lines := by
  obtain ⟨counted, spills, chunks, -, rfl, -, hchunks, hlines⟩ := Function.code_lays h
  intro run hrun
  obtain ⟨root, hroot, hrun⟩ := List.mem_flatMap.mp hrun
  obtain ⟨action, code, hmem, rfl, hcode⟩ := hchunks.hasAction root hroot
  obtain ⟨-, inner, tail, hinner, -, heq⟩ := Action.emit_lowers hcode
  obtain ⟨part, hpart, hwithin⟩ := hinner.ran run hrun
  refine ⟨part, hpart, ?_⟩
  have haction : Counted.plain part <:+: (Chunk.action action code).lines := by
    rw [heq]
    exact (List.infix_append_of_infix_left hwithin).map _
  have hbody : Counted.plain part <:+: chunkLines (chunks ++ function.ending) :=
    haction.trans (chunkLines_part (List.mem_append_left _ hmem))
  have hchunk : Counted.plain part <:+: counted.lines := by
    rw [hlines]
    exact List.infix_append_of_infix_right hbody
  rw [← Counted.erase_plain]
  exact Counted.erase_part hchunk

end Lowering

end ParenC
