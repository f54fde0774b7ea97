/-
Reading comes to an end because its cursor moves on.

From every point of every sequence of tokens, a list, a value and a type are read in finitely many
steps, and if one was read then the cursor is past at least one token.  So each round of a loop that
goes on either takes a token or fails, and at an end marker, which no cursor passes, it fails; hence
the loops come to an end, and with them the reading of programs, which is shown to be the same as
the reading of their data.
-/
import ParenC.Proofs.Reading.Agreement

namespace ParenC

open CompileM

namespace Descent

open Reading

variable {α β : Type} {s : TokenStream} {act : Nat → DescentM α} {model : CompileM α}
  {ends : TokenStream → Prop} {place : Place} {loc : Location} {refusal : Refusal}

/-! ## Programs -/

/-- The lists of the top level, which the token after them has to end. -/
def top (items : List Datum) (closing : Token) : CompileM (List Node) := do
  let nodes ← Reading.topForms items
  if closing.kind = .eof then return nodes else refuseFor .lparen closing

lemma top_cons (datum : Datum) (rest : List Datum) (closing : Token) :
    top (datum :: rest) closing =
      (do let node ← form .topLevel datum; return node :: (← top rest closing)) := by
  simp only [top, Reading.topForms, bind_assoc, pure_bind]
  by_cases hclosing : closing.kind = .eof
  · simp only [if_pos hclosing, pure_bind]
  · -- a refusal does not depend on what was read before
    simp only [if_neg hclosing]
    rfl

theorem topForms_follows (items : List Datum) (before : List Node) {s : TokenStream}
    {closing : Token} {outer : List Remainder} (h : s.Stands items closing outer) :
    Follows s (topForms · before)
      (top items closing >>= fun nodes => pure (before.reverse ++ nodes)) (·.isEof = true) := by
  induction items generalizing before s with
  | nil =>
    refine .succ ?_
    unfold topForms top Reading.topForms
    simp only [pure_bind]
    obtain ⟨rfl, hclosing | hclosing⟩ := h.next_nil
    · have hlist : s.next.kind ≠ .lparen := by simp [hclosing]
      have hstop : s.isEof = false := by simp [TokenStream.isEof, hclosing]
      rw [if_neg (by simp [hclosing])]
      exact .turn_round hstop (.refuses (.bind (.bind (list_refuses hlist))))
    · have hstop : s.isEof = true := by simp [TokenStream.isEof, hclosing]
      simp only [if_pos hclosing, pure_bind, List.append_nil]
      exact .turn_stop hstop hstop
  | cons datum rest ih =>
    have hstop : s.isEof = false := by simpa [TokenStream.isEof] using h.next_cons.2.2
    refine .succ ?_
    unfold topForms
    rw [top_cons]
    exact turn_cons hstop (form_follows datum .topLevel h) fun before s₁ h₁ => ih before h₁

lemma program_eq (tokens : List Token) :
    let ahead := (TokenStream.ofTokens tokens).nesting.inner
    Reading.program tokens = top ahead.items ahead.closing >>= finish := by
  intro ahead
  have hmodel : Reading.program tokens = Reading.topForms ahead.items >>= fun items =>
      if ahead.closing.kind ≠ .eof then refuseFor .lparen ahead.closing >>= fun _ => finish items
      else finish items := rfl
  rw [hmodel]
  unfold top
  by_cases hclosing : ahead.closing.kind = .eof
  · simp [hclosing]
  · -- a refusal does not depend on what was read before
    simp only [hclosing, ne_eq, not_false_eq_true, if_true, if_false, bind_assoc]
    rfl

/-- Reading a program token by token comes to what reading its data comes to. -/
theorem program_follows (tokens : List Token) :
    Follows (.ofTokens tokens) program (Reading.program tokens) (·.isEof = true) := by
  rw [program_eq]
  unfold program
  exact .bind (.of_nil (topForms_follows _ [] (.of_ended (TokenStream.ofTokens_ended tokens))))
    fun items s' heof => .work heof

/-! ## Progress -/

/-- From `s` on, the descent comes to an end, and it moves on without passing an end marker. -/
def Moves (s : TokenStream) (act : Nat → DescentM α) : Prop :=
  ∀ ws, ∃ outcome s' ws', ComesTo act ⟨s, ws⟩ outcome ⟨s', ws'⟩ ∧ s.Advances s'

/-- Moreover it takes at least one token if it succeeds. -/
def Progresses (s : TokenStream) (act : Nat → DescentM α) : Prop :=
  ∀ ws, ∃ outcome s' ws', ComesTo act ⟨s, ws⟩ outcome ⟨s', ws'⟩ ∧ s.Advances s' ∧
    ∀ a, outcome = .ok a → s.StrictlyAdvances s'

lemma Follows.moves (h : Follows s act model ends) : Moves s act := by
  intro ws
  obtain ⟨s', hrun, hadvances, -⟩ := h ws
  exact ⟨_, s', _, hrun, hadvances⟩

lemma Follows.progresses (h : Follows s act model ends) (hends : ∀ s', ends s' → s' ≠ s) :
    Progresses s act := by
  intro ws
  obtain ⟨s', hrun, hadvances, hstands⟩ := h ws
  exact ⟨_, s', _, hrun, hadvances, fun a ha => hadvances.strictly (hends s' (hstands a ha))⟩

lemma Refuses.progresses (h : Refuses s act loc refusal) : Progresses s act :=
  fun ws => ⟨_, s, ws, h ws, .refl s, fun _ ha => nomatch ha⟩

lemma moves_pure (a : α) : Moves s (fun _ => pure a) :=
  fun ws => ⟨_, s, ws, .of_eq fun _ => rfl, .refl s⟩

namespace Progresses

lemma moves (h : Progresses s act) : Moves s act := by
  intro ws
  obtain ⟨outcome, s', ws', hrun, hadvances, -⟩ := h ws
  exact ⟨outcome, s', ws', hrun, hadvances⟩

lemma succ (h : Progresses s (fun depth => act (depth + 1))) : Progresses s act := by
  intro ws
  obtain ⟨outcome, s', ws', hrun, hmoves⟩ := h ws
  exact ⟨outcome, s', ws', hrun.succ, hmoves⟩

/-- A token taken at first stays taken. -/
lemma bind {next : Nat → α → DescentM β} (hended : s.Ended) (h : Progresses s act)
    (hnext : ∀ a s', s'.Ended → Moves s' (fun depth => next depth a)) :
    Progresses s (fun depth => act depth >>= next depth) := by
  intro ws
  obtain ⟨outcome, s₁, ws₁, hrun, hadvances, hstrictly⟩ := h ws
  cases outcome with
  | ok a =>
    obtain ⟨outcome, s₂, ws₂, hrun₂, hadvances₂⟩ := hnext a s₁ (hadvances.ended hended) ws₁
    exact ⟨outcome, s₂, ws₂, hrun.bind_ok hrun₂, hadvances.trans hadvances₂,
      fun _ _ => (hstrictly a rfl).trans hadvances₂⟩
  | error failure =>
    exact ⟨_, s₁, ws₁, hrun.bind_error, hadvances, fun _ ha => nomatch ha⟩

lemma push {part : Nat → DescentM β} (hended : s.Ended) (h : Progresses s part)
    (before : List β) : Progresses s (fun depth => push (part depth) before) :=
  .bind hended h fun _ _ _ => moves_pure _

end Progresses

/-- A cursor that has passed a datum is not where it was. -/
lemma ne_of_stands {s' : TokenStream} {datum : Datum} {rest : List Datum} {closing : Token}
    {outer : List Remainder} (h : s.Stands (datum :: rest) closing outer)
    (h' : s'.Stands rest closing outer) : s' ≠ s := by
  rintro rfl
  have heq := h.nesting_eq.symm.trans h'.nesting_eq
  simp at heq

/-- What either refuses the end of a list or passes one datum makes progress everywhere. -/
lemma progresses_of_datum (hended : s.Ended)
    (hnil : ∀ {closing : Token} {outer : List Remainder}, s.Stands [] closing outer →
      ∃ loc refusal, Refuses s act loc refusal)
    (hcons : ∀ {datum : Datum} {rest : List Datum} {closing : Token} {outer : List Remainder},
      s.Stands (datum :: rest) closing outer →
        ∃ model : CompileM α, Follows s act model (·.Stands rest closing outer)) :
    Progresses s act := by
  have h := TokenStream.Stands.of_ended hended
  cases hitems : s.nesting.inner.items with
  | nil =>
    rw [hitems] at h
    obtain ⟨loc, refusal, hrefuses⟩ := hnil h
    exact hrefuses.progresses
  | cons datum rest =>
    rw [hitems] at h
    obtain ⟨model, hfollows⟩ := hcons h
    exact hfollows.progresses fun s' h' => ne_of_stands h h'

theorem list_progresses (hended : s.Ended) (place : Place) : Progresses s (list · place) :=
  progresses_of_datum hended (fun h => ⟨_, _, list_refuses_nil h⟩)
    fun h => ⟨_, form_follows _ place h⟩

theorem item_progresses (hended : s.Ended) (place : Place) : Progresses s (item · place) :=
  progresses_of_datum hended (fun h => ⟨_, _, item_refuses h⟩) fun h => ⟨_, item_follows _ place h⟩

theorem typeExpr_progresses (hended : s.Ended) : Progresses s typeExpr :=
  progresses_of_datum hended (fun h => ⟨_, _, typeExpr_refuses h⟩)
    fun h => ⟨_, typeExpr_follows _ h⟩

lemma expect_progresses {kind : TokenKind} (hended : s.Ended) (hkind : kind ≠ .eof) :
    Progresses s (fun _ => expect kind) := by
  by_cases htoken : s.next.kind = kind
  · have htaken : Follows s (fun _ => expect kind >>= pure) (pure s.next) (· = s.advance) :=
      .expect hended htoken (.pure rfl)
    simp only [bind_pure] at htaken
    refine htaken.progresses fun s' heq => ?_
    rw [heq]
    exact TokenStream.advance_ne hended (htoken ▸ hkind)
  · exact Refuses.progresses (.expect htoken)

lemma binding_progresses (hended : s.Ended) (distinct : Bool) (before : List (Token × TypeId)) :
    Progresses s (binding · distinct before) := by
  refine .succ (.bind hended (expect_progresses hended (by decide)) fun name s₁ hended₁ => ?_)
  have hcolon := expect_progresses hended₁ (show TokenKind.colon ≠ .eof by decide)
  refine (hcolon.bind hended₁ fun _ s₂ hended₂ => ?_).moves
  refine ((typeExpr_progresses hended₂).bind hended₂ fun type s₃ _ => ?_).moves
  -- a name that was there before is reported, and then the round is over, too
  split
  · have hreport : Follows s₃
        (fun _ => do work (complain name.location (.duplicateField name.text)); return before)
        (do complain name.location (.duplicateField name.text); return before) (fun _ => True) :=
      .work_bind fun _ => .pure trivial
    exact hreport.moves
  · exact moves_pure _

/-! ## Loops -/

/-- From `s` on, `loop` repeats `round` until it stops, and comes to an end. -/
structure Loops (s : TokenStream) (stop : TokenStream → Bool)
    (round loop : Nat → List β → DescentM (List β)) : Prop where
  /-- The loop is made of its rounds. -/
  turns : ∀ depth before, loop (depth + 1) before = turn stop (round depth) (loop depth) before
  /-- Every round takes a token or fails. -/
  rounds : stop s = false → ∀ before, Progresses s (round · before)
  /-- At an end marker the loop ends on the spot, with an error unless it stops there. -/
  atEof : s.isEof = true → ∀ before ws, ∃ outcome,
    ComesTo (loop · before) ⟨s, ws⟩ outcome ⟨s, ws⟩ ∧
      ((∃ nodes, outcome = .ok nodes) ↔ stop s = true)
  /-- The loop comes to an end, and if it succeeds then where it stops. -/
  halts : ∀ before ws, ∃ outcome s' ws', ComesTo (loop · before) ⟨s, ws⟩ outcome ⟨s', ws'⟩ ∧
    s.Advances s' ∧ ∀ nodes, outcome = .ok nodes → stop s' = true

section

variable {stop : TokenStream → Bool} {round loop : Nat → List β → DescentM (List β)}
  {before : List β} {ws : Workspace}

lemma ComesTo.stopped
    (hturns : ∀ depth before, loop (depth + 1) before = turn stop (round depth) (loop depth) before)
    (hstop : stop s = true) : ComesTo (loop · before) ⟨s, ws⟩ (.ok before.reverse) ⟨s, ws⟩ := by
  refine .succ ?_
  simp only [hturns]
  refine .bind_ok (.of_eq fun _ => rfl) (.of_eq fun depth => ?_)
  simp only [hstop, if_true]
  rfl

lemma ComesTo.goesOn {outcome : Except Failure (List β)} {st : Descent}
    (hturns : ∀ depth before, loop (depth + 1) before = turn stop (round depth) (loop depth) before)
    (hstop : stop s = false)
    (h : ComesTo (fun depth => round depth before >>= loop depth) ⟨s, ws⟩ outcome st) :
    ComesTo (loop · before) ⟨s, ws⟩ outcome st := by
  refine .succ ?_
  simp only [hturns]
  refine .bind_ok (.of_eq fun _ => rfl) ?_
  simpa only [hstop, Bool.false_eq_true, if_false] using h

/-- Rounds that each take a token or fail cannot go on forever. -/
theorem halts_of_rounds
    (hturns : ∀ depth before, loop (depth + 1) before = turn stop (round depth) (loop depth) before)
    (hrounds : ∀ s : TokenStream, s.Ended → stop s = false → ∀ before,
      Progresses s (round · before))
    (hended : s.Ended) (before : List β) (ws : Workspace) :
    ∃ outcome s' ws', ComesTo (loop · before) ⟨s, ws⟩ outcome ⟨s', ws'⟩ ∧
      s.Advances s' ∧ ∀ nodes, outcome = .ok nodes → stop s' = true := by
  induction hlength : s.later.length using Nat.strong_induction_on generalizing s before ws with
  | _ length ih =>
    cases hstop : stop s with
    | true => exact ⟨_, s, ws, .stopped hturns hstop, .refl s, fun _ _ => hstop⟩
    | false =>
      obtain ⟨outcome, s₁, ws₁, hrun, hadvances, hstrictly⟩ := hrounds s hended hstop before ws
      cases outcome with
      | error failure =>
        exact ⟨_, s₁, ws₁, .goesOn hturns hstop hrun.bind_error, hadvances, fun _ ha => nomatch ha⟩
      | ok after =>
        have hshorter := (hstrictly after rfl).2
        obtain ⟨outcome, s₂, ws₂, hothers, hadvances₂, hstops⟩ :=
          ih _ (hlength ▸ hshorter) (hadvances.ended hended) after ws₁ rfl
        exact ⟨outcome, s₂, ws₂, .goesOn hturns hstop (hrun.bind_ok hothers),
          hadvances.trans hadvances₂, hstops⟩

theorem loops_of_rounds
    (hturns : ∀ depth before, loop (depth + 1) before = turn stop (round depth) (loop depth) before)
    (hrounds : ∀ s : TokenStream, s.Ended → stop s = false → ∀ before,
      Progresses s (round · before))
    (hrefuses : ∀ s : TokenStream, s.isEof = true → stop s = false → ∀ before,
      ∃ loc refusal, Refuses s (round · before) loc refusal)
    (hended : s.Ended) : Loops s stop round loop where
  turns := hturns
  rounds := hrounds s hended
  atEof := by
    intro heof before ws
    cases hstop : stop s with
    | true => exact ⟨_, .stopped hturns hstop, by simp⟩
    | false =>
      obtain ⟨loc, refusal, h⟩ := hrefuses s heof hstop before
      exact ⟨_, .goesOn hturns hstop (h ws).bind_error, by simp⟩
  halts := halts_of_rounds hturns hrounds hended

end

/-! ## Every point of every text -/

/-- Whatever is read from `s` on moves the cursor on and comes to an end. -/
structure MovesOn (s : TokenStream) : Prop where
  /-- Lists. -/
  lists : ∀ place, Progresses s (list · place)
  /-- Values. -/
  items : ∀ place, Progresses s (item · place)
  /-- Types. -/
  types : Progresses s typeExpr
  /-- The fields of structs, whose names are distinct, and the parameters of functions. -/
  bindings : ∀ distinct, Loops s (·.atClose) (binding · distinct) (bindings · distinct)
  /-- The statements of a body. -/
  statements : ∀ place, Loops s (·.atClose) (fun depth => push (list depth place))
    (statements · place)
  /-- The values between an operator or a name and the end of its list. -/
  operands : ∀ place, Loops s (·.atClose) (fun depth => push (item depth place)) (operands · place)
  /-- The statements of the first branch of a condition. -/
  branch : ∀ place, Loops s (·.atBranchEnd) (fun depth => push (list depth place))
    (branch · place)
  /-- The lists of the top level. -/
  topForms : Loops s (·.isEof) (fun depth => push (list depth .topLevel)) topForms

lemma movesOn (hended : s.Ended) : MovesOn s where
  lists := list_progresses hended
  items := item_progresses hended
  types := typeExpr_progresses hended
  bindings := fun distinct => loops_of_rounds (fun _ _ => rfl)
    (fun s hended _ => binding_progresses hended distinct)
    (fun s heof _ before => ⟨_, _, .succ (.bind (nil_refuses (.of_isEof heof) (by decide)))⟩) hended
  statements := fun place => loops_of_rounds (fun _ _ => rfl)
    (fun s hended _ => .push hended (list_progresses hended place))
    (fun s heof _ before => ⟨_, _, .bind (list_refuses_nil (.of_isEof heof))⟩) hended
  operands := fun place => loops_of_rounds (fun _ _ => rfl)
    (fun s hended _ => .push hended (item_progresses hended place))
    (fun s heof _ before => ⟨_, _, .bind (item_refuses (.of_isEof heof))⟩) hended
  branch := fun place => loops_of_rounds (fun _ _ => rfl)
    (fun s hended _ => .push hended (list_progresses hended place))
    (fun s heof _ before => ⟨_, _, .bind (list_refuses_nil (.of_isEof heof))⟩) hended
  topForms := loops_of_rounds (fun _ _ => rfl)
    (fun s hended _ => .push hended (list_progresses hended .topLevel))
    (fun s heof _ before => ⟨_, _, .bind (list_refuses_nil (.of_isEof heof))⟩) hended

end Descent

open Descent

/-- Reading token by token comes to an end on all tokens, and comes to what reading their data comes
to.  At every point that the cursor can reach, lists, values and types are read in finitely many
steps and take at least one token if they are read, no cursor goes back or passes an end marker, and
each round of a loop takes a token or fails. -/
theorem reading_progresses (tokens : List Token) :
    Follows (.ofTokens tokens) Descent.program (Reading.program tokens) (·.isEof = true) ∧
      ∀ s, (TokenStream.ofTokens tokens).Advances s → MovesOn s :=
  ⟨program_follows tokens, fun _ hadvances =>
    movesOn (hadvances.ended (TokenStream.ofTokens_ended tokens))⟩

/-- A call whose arguments are cut off by an end marker in the middle of the tokens. -/
def cutOff : List Token :=
  [⟨.lparen, ⟨1, 1⟩, "("⟩, ⟨.ident, ⟨1, 2⟩, "f"⟩, Token.eof ⟨1, 3⟩, ⟨.rparen, ⟨1, 4⟩, ")"⟩]

theorem reading_progresses_cutOff :
    let call := TokenStream.ofTokens cutOff
    call.Advances call.advance.advance ∧ call.advance.advance.isEof = true ∧
      (∃ s', ComesTo Descent.program ⟨call, .initial "cut"⟩
        ((Reading.program cutOff).outcome (.initial "cut"))
        ⟨s', (Reading.program cutOff).leaves (.initial "cut")⟩ ∧ call.Advances s') ∧
      ∃ failure, ComesTo (Descent.operands · .topLevel []) ⟨call.advance.advance, .initial "cut"⟩
        (.error failure) ⟨call.advance.advance, .initial "cut"⟩ := by
  intro call
  obtain ⟨hprogram, hmoves⟩ := reading_progresses cutOff
  have hreach : call.Advances call.advance.advance :=
    ⟨[⟨.lparen, ⟨1, 1⟩, "("⟩, ⟨.ident, ⟨1, 2⟩, "f"⟩], by decide, rfl⟩
  have heof : call.advance.advance.isEof = true := rfl
  refine ⟨hreach, heof, ?_, ?_⟩
  · obtain ⟨s', hrun, hadvances, -⟩ := hprogram (.initial "cut")
    exact ⟨s', hrun, hadvances⟩
  · obtain ⟨outcome, hrun, hstops⟩ :=
      ((hmoves _ hreach).operands .topLevel).atEof heof [] (.initial "cut")
    cases outcome with
    | ok nodes => exact absurd (hstops.mp ⟨nodes, rfl⟩) (by decide)
    | error failure => exact ⟨failure, hrun⟩

end ParenC
