/-
Reading token by token comes to what the reading of data comes to.

`Follows` compares a descent with the reading of the data ahead of its cursor: from every workspace
the descent comes to an end if its depth suffices, with the same result or failure and the same
workspace; its cursor has moved on without passing an end marker; and if it has succeeded, then it
stands after those data.  One induction over the data shows it for all functions of the descent.

Where no datum is ahead, at a closing parenthesis or at the end, the functions that need one refuse
the next token without doing anything; `Refuses` says so.
-/
import ParenC.Proofs.Reading.Ahead
import ParenC.Proofs.Reading.Descent

namespace ParenC

open CompileM

/-! ## Runs -/

namespace CompileM

variable {α β : Type} {act : CompileM α} {next : α → CompileM β} {ws ws' : Workspace}

lemma leaves_ok_bind {a : α} (hrun : act ws = .ok a ws') :
    (act >>= next).leaves ws = (next a).leaves ws' := by
  simp only [leaves, Bind.bind, EStateM.bind, hrun]

end CompileM

namespace Descent

open Reading

variable {α β : Type} {s s' : TokenStream} {st st₁ st₂ : Descent} {ws : Workspace}
  {act : Nat → DescentM α} {next : Nat → α → DescentM β} {model : CompileM α}
  {next' : α → CompileM β} {ends ends' : TokenStream → Prop} {loc : Location} {refusal : Refusal}

/-- If the depth suffices, the descent comes to an end, with the given outcome. -/
def ComesTo (act : Nat → DescentM α) (st : Descent) (outcome : Except Failure α) (st' : Descent) :
    Prop :=
  ∃ least, ∀ depth, least ≤ depth → (act depth).run.run st = some (outcome, st')

namespace ComesTo

variable {outcome : Except Failure α} {outcome' : Except Failure β}

lemma of_eq (h : ∀ depth, (act depth).run.run st = some (outcome, st₁)) :
    ComesTo act st outcome st₁ := ⟨0, fun depth _ => h depth⟩

/-- A call takes one from the depth. -/
lemma succ (h : ComesTo (fun depth => act (depth + 1)) st outcome st₁) :
    ComesTo act st outcome st₁ := by
  obtain ⟨least, hrun⟩ := h
  refine ⟨least + 1, fun depth hdepth => ?_⟩
  obtain ⟨lower, rfl⟩ := Nat.exists_eq_add_of_le' hdepth
  exact hrun (lower + least) (by omega)

/-- More depth does no harm. -/
lemma deeper (h : ComesTo act st outcome st₁) :
    ComesTo (fun depth => act (depth + 1)) st outcome st₁ := by
  obtain ⟨least, hrun⟩ := h
  exact ⟨least, fun depth hdepth => hrun (depth + 1) (by omega)⟩

lemma bind_ok {a : α} (h : ComesTo act st (.ok a) st₁)
    (hnext : ComesTo (fun depth => next depth a) st₁ outcome' st₂) :
    ComesTo (fun depth => act depth >>= next depth) st outcome' st₂ := by
  obtain ⟨least, hrun⟩ := h
  obtain ⟨least', hrun'⟩ := hnext
  refine ⟨max least least', fun depth hdepth => ?_⟩
  have hfirst := hrun depth (by omega)
  have hsecond := hrun' depth (by omega)
  simp only [ExceptT.run_bind, StateT.run_bind, hfirst, Option.bind_eq_bind, Option.bind_some,
    hsecond]

lemma bind_error {failure : Failure} (h : ComesTo act st (.error failure) st₁) :
    ComesTo (fun depth => act depth >>= next depth) st (.error failure) st₁ := by
  obtain ⟨least, hrun⟩ := h
  refine ⟨least, fun depth hdepth => ?_⟩
  have hfirst := hrun depth hdepth
  simp only [ExceptT.run_bind, StateT.run_bind, hfirst, Option.bind_eq_bind, Option.bind_some]
  rfl

end ComesTo

/-- The descent fails at once, for the given reason, and changes nothing. -/
def Refuses (s : TokenStream) (act : Nat → DescentM α) (loc : Location) (refusal : Refusal) :
    Prop :=
  ∀ ws, ComesTo act ⟨s, ws⟩ (.error (.error (ws.journal.fatal loc refusal.message))) ⟨s, ws⟩

namespace Refuses

lemma bind (h : Refuses s act loc refusal) :
    Refuses s (fun depth => act depth >>= next depth) loc refusal :=
  fun ws => (h ws).bind_error

lemma succ (h : Refuses s (fun depth => act (depth + 1)) loc refusal) :
    Refuses s act loc refusal := fun ws => (h ws).succ

lemma refuse : Refuses s (fun _ => (work (refuse loc refusal) : DescentM α)) loc refusal :=
  fun _ => .of_eq fun _ => rfl

lemma look {next : Nat → TokenStream → DescentM β}
    (h : Refuses s (fun depth => next depth s) loc refusal) :
    Refuses s (fun depth => look >>= next depth) loc refusal :=
  fun ws => .bind_ok (.of_eq fun _ => rfl) (h ws)

lemma expect {kind : TokenKind} (h : s.next.kind ≠ kind) :
    Refuses s (fun _ => expect kind) s.next.location (.expected kind s.next) := by
  refine .look ?_
  simp only [TokenStream.expect, if_neg h]
  exact refuse

end Refuses

/-! ## The judgement -/

/-- From `s` on, the descent comes to what the action comes to, moves on, and if it succeeds then
its cursor stands as `ends` says. -/
def Follows (s : TokenStream) (act : Nat → DescentM α) (model : CompileM α)
    (ends : TokenStream → Prop) : Prop :=
  ∀ ws, ∃ s', ComesTo act ⟨s, ws⟩ (model.outcome ws) ⟨s', model.leaves ws⟩ ∧ s.Advances s' ∧
    ∀ a, model.outcome ws = .ok a → ends s'

namespace Follows

lemma pure {a : α} (h : ends s) : Follows s (fun _ => pure a) (pure a) ends :=
  fun _ => ⟨s, .of_eq fun _ => rfl, .refl s, fun _ _ => h⟩

lemma work {act : CompileM α} (h : ends s) : Follows s (fun _ => work act) act ends :=
  fun _ => ⟨s, .of_eq fun _ => rfl, .refl s, fun _ _ => h⟩

lemma refuses (h : Refuses s act loc refusal) : Follows s act (refuse loc refusal) ends := by
  intro ws
  refine ⟨s, h ws, .refl s, fun a ha => ?_⟩
  cases ha

lemma succ (h : Follows s (fun depth => act (depth + 1)) model ends) :
    Follows s act model ends := by
  intro ws
  obtain ⟨s', hrun, hmoves⟩ := h ws
  exact ⟨s', hrun.succ, hmoves⟩

lemma deeper (h : Follows s act model ends) :
    Follows s (fun depth => act (depth + 1)) model ends := by
  intro ws
  obtain ⟨s', hrun, hmoves⟩ := h ws
  exact ⟨s', hrun.deeper, hmoves⟩

lemma mono (h : Follows s act model ends) (hends : ∀ s', ends s' → ends' s') :
    Follows s act model ends' := by
  intro ws
  obtain ⟨s', hrun, hadvances, hstands⟩ := h ws
  exact ⟨s', hrun, hadvances, fun a ha => hends s' (hstands a ha)⟩

lemma bind (h : Follows s act model ends)
    (hnext : ∀ a s', ends s' → Follows s' (fun depth => next depth a) (next' a) ends') :
    Follows s (fun depth => act depth >>= next depth) (model >>= next') ends' := by
  intro ws
  obtain ⟨s₁, hrun, hadvances, hends⟩ := h ws
  cases hmodel : model ws with
  | ok a ws₁ =>
    have hout : model.outcome ws = .ok a := by simp only [outcome, hmodel]
    have hleaves : model.leaves ws = ws₁ := by simp only [leaves, hmodel]
    obtain ⟨s₂, hrun₂, hadvances₂, hends₂⟩ := hnext a s₁ (hends a hout) ws₁
    rw [hout, hleaves] at hrun
    rw [outcome_ok_bind hmodel, leaves_ok_bind hmodel]
    exact ⟨s₂, hrun.bind_ok hrun₂, hadvances.trans hadvances₂, hends₂⟩
  | error failure ws₁ =>
    have hout : (model >>= next').outcome ws = .error failure := by
      simp only [outcome, Bind.bind, EStateM.bind, hmodel]
    have hleaves : (model >>= next').leaves ws = ws₁ := by
      simp only [leaves, Bind.bind, EStateM.bind, hmodel]
    simp only [outcome, leaves, hmodel] at hrun
    rw [hout, hleaves]
    refine ⟨s₁, hrun.bind_error, hadvances, fun a ha => ?_⟩
    cases ha

/-- What comes afterwards moves on, but it makes no difference to the tables. -/
lemma further {next : Nat → α → DescentM α} (h : Follows s act model ends)
    (hnext : ∀ a s', ends s' → Follows s' (fun depth => next depth a) (Pure.pure a) ends') :
    Follows s (fun depth => act depth >>= next depth) model ends' := by
  have hboth := h.bind hnext
  rwa [bind_pure] at hboth

/-- What takes no tokens leaves the cursor where it is. -/
lemma work_bind {act : CompileM α}
    (hnext : ∀ a, Follows s (fun depth => next depth a) (next' a) ends) :
    Follows s (fun depth => Descent.work act >>= next depth) (act >>= next') ends := by
  have hwork : Follows s (fun _ => Descent.work act) act (· = s) := .work rfl
  exact hwork.bind fun a s' heq => heq ▸ hnext a

/-- Looking at the tokens ahead changes nothing. -/
lemma look {next : Nat → TokenStream → DescentM α}
    (h : Follows s (fun depth => next depth s) model ends) :
    Follows s (fun depth => look >>= next depth) model ends := by
  intro ws
  obtain ⟨s', hrun, hmoves⟩ := h ws
  exact ⟨s', .bind_ok (.of_eq fun _ => rfl) hrun, hmoves⟩

lemma consume {next : Nat → Token → DescentM α} (hended : s.Ended)
    (h : Follows s.advance (fun depth => next depth s.next) model ends) :
    Follows s (fun depth => consume >>= next depth) model ends := by
  intro ws
  obtain ⟨s', hrun, hadvances, hends⟩ := h ws
  exact ⟨s', .bind_ok (.of_eq fun _ => rfl) hrun,
    (TokenStream.advances_advance hended).trans hadvances, hends⟩

lemma expect {kind : TokenKind} {next : Nat → Token → DescentM α} (hended : s.Ended)
    (hkind : s.next.kind = kind)
    (h : Follows s.advance (fun depth => next depth s.next) model ends) :
    Follows s (fun depth => expect kind >>= next depth) model ends := by
  simp only [Descent.expect, bind_assoc]
  refine .look ?_
  simp only [TokenStream.expect, if_pos hkind]
  exact .consume hended h

/-- A scope is closed however the descent inside it ends. -/
lemma inScope (h : Follows s act model ends) :
    Follows s (fun depth => inScope (act depth)) (withScope model) ends := by
  intro ws
  obtain ⟨s', ⟨least, hrun⟩, hadvances, hends⟩ := h { ws with symbols := ws.symbols.openScope }
  have hscoped : ∀ depth, least ≤ depth → (Descent.inScope (act depth)).run.run ⟨s, ws⟩ = _ :=
    fun depth hdepth => congrArg (· >>= _) (hrun depth hdepth)
  suffices h : (∀ depth, least ≤ depth → (Descent.inScope (act depth)).run.run ⟨s, ws⟩ =
      some ((withScope model).outcome ws, ⟨s', (withScope model).leaves ws⟩)) ∧
      ∀ a, (withScope model).outcome ws = .ok a → ends s' from
    ⟨s', ⟨least, h.1⟩, hadvances, h.2⟩
  simp only [outcome, leaves, withScope] at hscoped hends ⊢
  cases hmodel : model { ws with symbols := ws.symbols.openScope } with
  | ok a ws₁ =>
    simp only [hmodel] at hscoped hends
    refine ⟨fun depth hdepth => (hscoped depth hdepth).trans ?_, fun _ _ => hends a rfl⟩
    cases hclose : ws₁.symbols.closeScopeAt ws.symbols.openScope.depth <;> simp [hclose]
  | error failure ws₁ =>
    simp only [hmodel] at hscoped
    refine ⟨fun depth hdepth => (hscoped depth hdepth).trans ?_, ?_⟩
    · cases hclose : ws₁.symbols.closeScopeAt ws.symbols.openScope.depth <;> simp [hclose]
    · cases hclose : ws₁.symbols.closeScopeAt ws.symbols.openScope.depth <;> simp [hclose]

/-- A loop that stops. -/
lemma turn_stop {stop : TokenStream → Bool} {round others : Nat → List α → DescentM (List α)}
    {before : List α} (hstop : stop s = true) (h : ends s) :
    Follows s (fun depth => turn stop (round depth) (others depth) before)
      (Pure.pure before.reverse) ends := by
  refine .look ?_
  simp only [hstop, if_true]
  exact .pure h

/-- A loop that goes round. -/
lemma turn_round {stop : TokenStream → Bool} {round others : Nat → List α → DescentM (List α)}
    {before : List α} {model : CompileM (List α)} (hstop : stop s = false)
    (h : Follows s (fun depth => round depth before >>= others depth) model ends) :
    Follows s (fun depth => turn stop (round depth) (others depth) before) model ends := by
  refine .look ?_
  simp only [hstop, Bool.false_eq_true, if_false]
  exact h

end Follows

/-- A loop that has read nothing yet. -/
lemma Follows.of_nil {act : Nat → DescentM (List α)} {model : CompileM (List α)}
    (h : Follows s act (model >>= fun nodes => Pure.pure (([] : List α).reverse ++ nodes)) ends) :
    Follows s act model ends := by simpa using h

/-! ## The end of a list -/

variable {items rest : List Datum} {datum : Datum} {closing : Token} {outer : List Remainder}

/-- The cursor stands at the parenthesis that closes the list. -/
def AtEnd (closing : Token) (outer : List Remainder) (s : TokenStream) : Prop :=
  closing.kind = .rparen ∧ s.Stands [] closing outer

/-- The cursor stands after the parenthesis that closes the list. -/
def Past (closing : Token) (outer : List Remainder) (s : TokenStream) : Prop :=
  closing.kind = .rparen ∧ ∀ remainder further, outer = remainder :: further →
    s.Stands remainder.items remainder.closing further

/-- The token that closes a list is none of the others. -/
lemma nil_refuses {kind : TokenKind} (h : s.Stands [] closing outer)
    (hkind : kind ≠ .rparen ∧ kind ≠ .eof) :
    Refuses s (fun _ => expect kind) closing.location (.expected kind closing) := by
  obtain ⟨hnext, hclosing⟩ := h.next_nil
  rw [← hnext] at hclosing ⊢
  refine .expect fun heq => ?_
  rcases hclosing with hclosing | hclosing
  · exact hkind.1 (heq.symm.trans hclosing)
  · exact hkind.2 (heq.symm.trans hclosing)

/-- An atom of the given kind. -/
lemma expectAtom_follows {kind : TokenKind} (h : s.Stands (datum :: rest) closing outer)
    (hkind : kind ≠ .lparen) :
    Follows s (fun _ => expect kind) (expectAtom kind datum) (·.Stands rest closing outer) := by
  have hnext := h.next_cons.1
  cases datum with
  | atom token =>
    obtain rfl : s.next = token := hnext
    simp only [expectAtom]
    by_cases htoken : s.next.kind = kind
    · rw [if_pos htoken]
      have htaken : Follows s (fun _ => expect kind >>= pure) (pure s.next)
          (·.Stands rest closing outer) := .expect h.ended htoken (.pure h.atom.2)
      simpa only [bind_pure] using htaken
    · rw [if_neg htoken]
      exact .refuses (.expect htoken)
  | list opening items close =>
    obtain rfl : s.next = opening := hnext
    exact .refuses (.expect fun heq => hkind (heq.symm.trans h.list.1))

/-- A closing parenthesis that is there. -/
lemma closed_follows {act : Nat → DescentM α} (h : AtEnd closing outer s)
    (hnext : ∀ s', Past closing outer s' → Follows s' act model ends) :
    Follows s (fun depth => expect .rparen >>= fun _ => act depth) model ends := by
  obtain ⟨hclosing, hstands⟩ := h
  have htoken : s.next.kind = .rparen := by rw [hstands.next_nil.1, hclosing]
  refine .expect hstands.ended htoken (hnext _ ⟨hclosing, ?_⟩)
  rintro remainder further rfl
  exact hstands.leave

/-- A closing parenthesis that has to be there. -/
lemma expectEnd_follows {act : Nat → DescentM α} (h : s.Stands rest closing outer)
    (hnext : ∀ s', Past closing outer s' → Follows s' act model ends) :
    Follows s (fun depth => expect .rparen >>= fun _ => act depth)
      (expectEnd rest closing >>= fun _ => model) ends := by
  cases rest with
  | nil =>
    unfold expectEnd
    by_cases hclosing : closing.kind = .rparen
    · rw [if_pos hclosing]
      exact closed_follows ⟨hclosing, h⟩ hnext
    · rw [if_neg hclosing]
      rw [← h.next_nil.1] at hclosing ⊢
      exact .refuses (.bind (.expect hclosing))
  | cons datum rest =>
    obtain ⟨hfirst, hparen, -⟩ := h.next_cons
    simp only [expectEnd, ← hfirst]
    exact .refuses (.bind (.expect hparen))

/-- The end of a list whose construct has ended there. -/
lemma close_follows {node : Node} (h : AtEnd closing outer s) :
    Follows s (fun _ => close node) (pure node) (Past closing outer) :=
  closed_follows h fun _ hpast => .pure hpast

lemma work_close_follows {act : CompileM Node} (h : AtEnd closing outer s) :
    Follows s (fun _ => work act >>= close) act (Past closing outer) :=
  .further (.work h) fun _ _ hend => close_follows hend

end Descent

end ParenC
