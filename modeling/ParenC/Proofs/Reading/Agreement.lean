/-
The functions of the descent follow those that read data.

Each function of the descent is compared with the one that reads the same construct from data: from
a cursor in front of these data it comes to what reading them comes to.  The induction is on the
data and follows the recursion of their reading, which is why the descent comes to an end.

A list ends with its closing parenthesis.  The reading of data looks for it at the end of every
construct, the descent in one place after all of them, so that a construct is compared together
with that last step.
-/
import ParenC.Proofs.Reading.Following

namespace ParenC.Descent

open CompileM Reading

variable {s : TokenStream} {items rest : List Datum} {closing : Token} {outer : List Remainder}
  {place : Place} {loc : Location}

/-- The second token of a list is its head. -/
lemma peek_is {opening close : Token} {inner : List Datum}
    (h : s.Stands (.list opening inner close :: rest) closing outer) (text : String) :
    (s.peek 1).is .keyword text = match inner with
      | .atom head :: _ => head.is .keyword text
      | _ => false := by
  obtain ⟨hopening, around, hinner, -⟩ := h.list
  rw [TokenStream.peek_one h.ended h.next_cons.2.2]
  match inner with
  | [] => obtain ⟨hnext, hclose | hclose⟩ := hinner.next_nil <;> simp [hnext, Token.is, hclose]
  | .atom head :: _ => simp [hinner.next_cons.1, Datum.first]
  | .list _ _ _ :: _ => simp [hinner.next_cons.1, Datum.first, Token.is, hinner.list.1]

lemma atClose_nil (h : s.Stands [] closing outer) : s.atClose = (closing.kind == .rparen) := by
  simp [TokenStream.atClose, h.next_nil.1]

lemma atClose_cons {datum : Datum} (h : s.Stands (datum :: rest) closing outer) :
    s.atClose = false := by
  simpa [TokenStream.atClose] using h.next_cons.2.1

/-! ## Types -/

/-- At a token that no type starts with. -/
lemma typeExpr_refuses (h : s.Stands [] closing outer) :
    Refuses s typeExpr closing.location (.expected .typeName closing) := by
  obtain ⟨rfl, hclosing⟩ := h.next_nil
  refine .succ (.look ?_)
  rcases hclosing with hclosing | hclosing
  · simp only [hclosing]
    exact .refuse
  · simp only [hclosing]
    exact .refuse

mutual

theorem typeExpr_follows (datum : Datum) {s : TokenStream} {rest : List Datum} {closing : Token}
    {outer : List Remainder} (h : s.Stands (datum :: rest) closing outer) :
    Follows s typeExpr (Reading.typeExpr datum) (·.Stands rest closing outer) := by
  obtain ⟨hfirst, hparen, heof⟩ := h.next_cons
  refine .succ ?_
  unfold typeExpr
  refine .look ?_
  match datum with
  | .atom token =>
    obtain rfl : s.next = token := hfirst
    obtain ⟨hopening, hrest⟩ := h.atom
    unfold Reading.typeExpr atomType
    cases hkind : s.next.kind with
    | typeName => exact .consume h.ended (.work hrest)
    | ident => exact .consume h.ended (.work hrest)
    | lparen => exact absurd hkind hopening
    | _ => exact .refuses .refuse
  | .list opening inner close =>
    obtain rfl : s.next = opening := hfirst
    obtain ⟨hopening, around, hinner, hleave⟩ := h.list
    -- a list is a struct just if the token behind its parenthesis is the keyword
    simp only [hopening, peek_is h]
    match inner with
    | [] | .list _ _ _ :: _ =>
      simp only [Bool.false_eq_true, if_false]
      exact .refuses .refuse
    | .atom head :: data =>
      unfold Reading.typeExpr
      dsimp only
      by_cases hstruct : head.is .keyword "struct" = true
      · simp only [hstruct, if_true]
        refine .expect h.ended hopening (.consume hinner.ended ?_)
        refine .bind (bindings_follows data true [] hinner.atom.2) fun fields s' hend => ?_
        refine closed_follows hend fun s'' hpast => .work ?_
        exact hpast.2 ⟨rest, closing⟩ outer (hleave hpast.1)
      · simp only [hstruct, Bool.false_eq_true, if_false]
        exact .refuses .refuse
termination_by structural datum

theorem bindings_follows (items : List Datum) (distinct : Bool) (before : List (Token × TypeId))
    {s : TokenStream} {closing : Token} {outer : List Remainder}
    (h : s.Stands items closing outer) :
    Follows s (bindings · distinct before) (Reading.bindings distinct before items closing)
      (AtEnd closing outer) := by
  refine .succ ?_
  unfold bindings
  match items with
  | [] =>
    unfold Reading.bindings
    -- the loop stops at a closing parenthesis only; at the end of the text a name is missing
    by_cases hclose : closing.kind = .rparen
    · rw [if_pos hclose]
      exact .turn_stop (by simp [atClose_nil h, hclose]) ⟨hclose, h⟩
    · rw [if_neg hclose]
      refine .turn_round (by simp [atClose_nil h, hclose]) (.refuses (.bind (.succ ?_)))
      exact .bind (nil_refuses h (by decide))
  | nameDatum :: afterName =>
    refine .turn_round (atClose_cons h) ?_
    unfold Reading.bindings
    refine .succ ?_
    unfold binding
    simp only [bind_assoc]
    refine .bind (expectAtom_follows h (by decide)) fun name s₁ h₁ => ?_
    match afterName with
    | [] => exact .refuses (.bind (nil_refuses h₁ (by decide)))
    | colonDatum :: afterColon =>
      refine .bind (expectAtom_follows h₁ (by decide)) fun _ s₂ h₂ => ?_
      match afterColon with
      | [] => exact .refuses (.bind (typeExpr_refuses h₂))
      | typeDatum :: rest =>
        refine .bind (typeExpr_follows typeDatum h₂) fun type s₃ h₃ => ?_
        -- a field that is there twice is reported and left out, and the loop goes on
        by_cases htwice : (distinct && before.any (·.1.text == name.text)) = true
        · simp only [htwice, if_true, bind_assoc, pure_bind]
          exact .work_bind fun _ => (bindings_follows rest distinct before h₃).deeper
        · simp only [htwice, Bool.false_eq_true, if_false, pure_bind]
          exact (bindings_follows rest distinct _ h₃).deeper
termination_by structural items

end

theorem params_follows {datum : Datum} (h : s.Stands (datum :: rest) closing outer) :
    Follows s params (Reading.params datum) (·.Stands rest closing outer) := by
  have hfirst := h.next_cons.1
  unfold params
  cases datum with
  | atom token =>
    obtain rfl : s.next = token := hfirst
    exact .refuses (.bind (.expect h.atom.1))
  | list opening inner close =>
    obtain ⟨hopening, around, hinner, hleave⟩ := h.list
    obtain rfl : s.next = opening := hfirst
    refine .expect h.ended hopening ?_
    exact .further (bindings_follows inner false [] hinner) fun bound s' hend =>
      closed_follows hend fun s'' hpast => .pure (hpast.2 _ _ (hleave hpast.1))

/-! ## Declarations -/

theorem variableDecl_follows {head : Token} (h : s.Stands (.atom head :: items) closing outer) :
    Follows s (fun depth => variableDecl depth place loc >>= close)
      (Reading.variableDecl place loc items closing) (Past closing outer) := by
  unfold variableDecl Reading.variableDecl close
  simp only [bind_assoc, pure_bind]
  refine .consume h.ended ?_
  have hitems := h.atom.2
  cases items with
  | nil => exact .refuses (.bind (typeExpr_refuses hitems))
  | cons typeDatum afterType =>
    refine .bind (typeExpr_follows typeDatum hitems) fun type s₁ h₁ => ?_
    cases afterType with
    | nil => exact .refuses (.bind (nil_refuses h₁ (by decide)))
    | cons nameDatum rest =>
      refine .bind (expectAtom_follows h₁ (by decide)) fun name s₂ h₂ => ?_
      refine .work_bind fun id? => ?_
      exact expectEnd_follows h₂ fun s₃ hpast => .pure hpast

theorem definitionDecl_follows {head : Token} (h : s.Stands (.atom head :: items) closing outer) :
    Follows s (fun depth => definitionDecl depth loc >>= close)
      (Reading.definitionDecl loc items closing) (Past closing outer) := by
  unfold definitionDecl Reading.definitionDecl close
  simp only [bind_assoc, pure_bind]
  refine .consume h.ended ?_
  have hitems := h.atom.2
  cases items with
  | nil => exact .refuses (.bind (nil_refuses hitems (by decide)))
  | cons nameDatum afterName =>
    refine .bind (expectAtom_follows hitems (by decide)) fun name s₁ h₁ => ?_
    cases afterName with
    | nil => exact .refuses (.bind (typeExpr_refuses h₁))
    | cons typeDatum rest =>
      refine .bind (typeExpr_follows typeDatum h₁) fun target s₂ h₂ => ?_
      refine .work_bind fun defined => .work_bind fun id? => ?_
      exact expectEnd_follows h₂ fun s₃ hpast => .pure hpast

theorem externalDecl_follows {head : Token} (h : s.Stands (.atom head :: items) closing outer) :
    Follows s (fun depth => externalDecl depth loc >>= close)
      (Reading.externalDecl loc items closing) (Past closing outer) := by
  unfold externalDecl Reading.externalDecl close
  simp only [bind_assoc]
  refine .consume h.ended ?_
  have hitems := h.atom.2
  cases items with
  | nil => exact .refuses (.bind (nil_refuses hitems (by decide)))
  | cons nameDatum afterName =>
    refine .bind (expectAtom_follows hitems (by decide)) fun name s₁ h₁ => ?_
    refine .work_bind fun id? => .look ?_
    cases afterName with
    | nil =>
      -- only an opening parenthesis leads to parameters
      have hopening : s₁.next.kind ≠ .lparen := by
        obtain ⟨hnext, hclosing | hclosing⟩ := h₁.next_nil <;> simp [hnext, hclosing]
      simp only [hopening, if_false, bind_assoc, pure_bind]
      exact .work_bind fun _ => expectEnd_follows h₁ fun s₂ hpast => .pure hpast
    | cons datum afterParams =>
      cases datum with
      | atom token =>
        have hopening : s₁.next.kind ≠ .lparen := by
          rw [h₁.next_cons.1]
          exact h₁.atom.1
        simp only [hopening, if_false, bind_assoc, pure_bind]
        exact .work_bind fun _ => expectEnd_follows h₁ fun s₂ hpast => .pure hpast
      | list opening inner close =>
        have hopening : s₁.next.kind = .lparen := by
          rw [h₁.next_cons.1]
          exact h₁.list.1
        simp only [hopening, if_true, bind_assoc, pure_bind]
        refine .bind (params_follows h₁) fun bound s₂ h₂ => ?_
        cases afterParams with
        | nil => exact .refuses (.bind (typeExpr_refuses h₂))
        | cons typeDatum rest =>
          refine .bind (typeExpr_follows typeDatum h₂) fun result s₃ h₃ => .work_bind fun _ => ?_
          exact expectEnd_follows h₃ fun s₄ hpast => .pure hpast

/-! ## Lists -/

/-- At a token that no list starts with. -/
lemma list_refuses (h : s.next.kind ≠ .lparen) :
    Refuses s (list · place) s.next.location (.expected .lparen s.next) :=
  .succ (.bind (.expect h))

lemma list_refuses_nil (h : s.Stands [] closing outer) :
    Refuses s (list · place) closing.location (.expected .lparen closing) := by
  obtain ⟨rfl, hclosing⟩ := h.next_nil
  refine list_refuses ?_
  rcases hclosing with hclosing | hclosing <;> simp [hclosing]

/-- At a token that no value starts with. -/
lemma item_refuses (h : s.Stands [] closing outer) :
    Refuses s (item · place) closing.location (.unexpected closing) := by
  obtain ⟨rfl, hclosing⟩ := h.next_nil
  refine .succ (.look ?_)
  rcases hclosing with hclosing | hclosing
  · simp only [hclosing]
    exact .refuse
  · simp only [hclosing]
    exact .refuse

/-- A loop whose parts are used up. -/
lemma turn_nil {stop : TokenStream → Bool} {part : Nat → DescentM Node}
    {others : Nat → List Node → DescentM (List Node)} {before : List Node} {refusal : Refusal}
    {ends : TokenStream → Prop} (hstop : stop s = (closing.kind == .rparen))
    (hpart : Refuses s part closing.location refusal)
    (hends : closing.kind = .rparen → ends s) :
    Follows s (fun depth => turn stop (push (part depth)) (others depth) before)
      ((if closing.kind = .rparen then pure [] else refuse closing.location refusal) >>=
        fun nodes => pure (before.reverse ++ nodes)) ends := by
  by_cases hclose : closing.kind = .rparen
  · simp only [hclose, if_true, pure_bind, List.append_nil]
    exact .turn_stop (by simp [hstop, hclose]) (hends hclose)
  · rw [if_neg hclose]
    exact .turn_round (by simp [hstop, hclose]) (.refuses (.bind (.bind hpart)))

/-- A loop that reads one part more. -/
lemma turn_cons {stop : TokenStream → Bool} {part : Nat → DescentM Node}
    {others : Nat → List Node → DescentM (List Node)} {before : List Node}
    {model : CompileM Node} {model' : CompileM (List Node)} {ends : TokenStream → Prop}
    (hstop : stop s = false) (hpart : Follows s part model (·.Stands rest closing outer))
    (hothers : ∀ (before : List Node) (s' : TokenStream), s'.Stands rest closing outer →
      Follows s' (others · before) (model' >>= fun nodes => pure (before.reverse ++ nodes)) ends) :
    Follows s (fun depth => turn stop (push (part depth)) (others depth) before)
      ((do let node ← model; return node :: (← model')) >>=
        fun nodes => pure (before.reverse ++ nodes)) ends := by
  refine .turn_round hstop ?_
  unfold push
  simp only [bind_assoc, pure_bind]
  refine hpart.bind fun node s₁ h₁ => ?_
  simpa using hothers (node :: before) s₁ h₁

/-- Where the first branch of a condition ends: reading its second branch, if there is one, and the
end of the condition comes to what looking for a second branch among `items` comes to. -/
def AtAlternative (place : Place) (items : List Datum) (closing : Token)
    (outer : List Remainder) (s : TokenStream) : Prop :=
  ∀ node : Option (List Node) → Node,
    Follows s (fun depth => alternative? depth place >>= fun body? => close (node body?))
      (Reading.alternative? place items closing >>= fun body? => pure (node body?))
      (Past closing outer)

lemma atElse_cons {datum : Datum} (h : s.Stands (datum :: rest) closing outer) :
    s.atElse = isAlternative datum := by
  have hfirst := h.next_cons.1
  cases datum with
  | atom token => simp [TokenStream.atElse, isAlternative, hfirst, Datum.first, h.atom.1]
  | list opening inner close =>
    simp only [TokenStream.atElse, hfirst, Datum.first, h.list.1, peek_is h]
    cases inner with
    | nil => rfl
    | cons first data =>
      cases first with
      | atom head => simp [isAlternative]
      | list => rfl

lemma alternative?_cons {datum : Datum} (h : isAlternative datum = false) :
    Reading.alternative? place (datum :: rest) closing =
      Reading.alternative? place rest closing := by
  match datum with
  | .atom _ | .list _ [] _ | .list _ (.list _ _ _ :: _) _ => rfl
  | .list opening (.atom head :: data) close =>
    rw [Reading.alternative?, if_neg (by simpa [isAlternative] using h)]

/-- The first branch ends at the second one, whose body is known to follow. -/
lemma alternative?_follows {opening head close' : Token} {data : List Datum}
    (h : s.Stands (.list opening (.atom head :: data) close' :: rest) closing outer)
    (hhead : head.is .keyword "else" = true)
    (hbody : ∀ {s₁ : TokenStream} {around : List Remainder}, s₁.Stands data close' around →
      Follows s₁ (statements · place []) (Reading.statements place data close')
        (AtEnd close' around)) :
    AtAlternative place (.list opening (.atom head :: data) close' :: rest) closing outer s := by
  intro node
  obtain ⟨hopening, around, hinner, hleave⟩ := h.list
  have helse : s.atElse = true := (atElse_cons h).trans hhead
  refine .succ ?_
  unfold alternative? Reading.alternative?
  simp only [bind_assoc, pure_bind, hhead, if_true]
  refine .look ?_
  simp only [helse, if_true, bind_assoc, pure_bind]
  refine .consume h.ended (.consume hinner.ended ?_)
  refine .bind (.inScope (hbody hinner.atom.2)) fun body s₁ hend =>
    closed_follows hend fun s₂ hpast => ?_
  exact expectEnd_follows (hpast.2 ⟨rest, closing⟩ outer (hleave hpast.1))
    fun s₃ hpast => .pure hpast

/-- The first branch goes on with a datum that is not the second one. -/
lemma branch_cons {datum : Datum} {before : List Node}
    (h : s.Stands (datum :: rest) closing outer) (hfirst : isAlternative datum = false)
    (hform : Follows s (list · place) (Reading.form place datum) (·.Stands rest closing outer))
    (hrest : ∀ (before : List Node) (s₁ : TokenStream), s₁.Stands rest closing outer →
      Follows s₁ (branch · place before)
        (Reading.branch place rest closing >>= fun nodes => pure (before.reverse ++ nodes))
        (AtAlternative place rest closing outer)) :
    Follows s (branch · place before)
      (Reading.branch place (datum :: rest) closing >>= fun nodes =>
        pure (before.reverse ++ nodes))
      (AtAlternative place (datum :: rest) closing outer) := by
  refine .succ ?_
  unfold branch Reading.branch
  simp only [hfirst, Bool.false_eq_true, if_false]
  refine turn_cons ?_ hform fun before s₁ h₁ => ?_
  · simp [TokenStream.atBranchEnd, atClose_cons h, atElse_cons h, hfirst]
  · refine (hrest before s₁ h₁).mono fun s₂ hend => ?_
    unfold AtAlternative
    rw [alternative?_cons hfirst]
    exact hend

/-- A call or a cast, once its operands are known to follow. -/
lemma application_follows {head : Token} (h : s.Stands (.atom head :: rest) closing outer)
    (hoperands : Follows s.advance (operands · place []) (Reading.operands place rest closing)
      (AtEnd closing outer)) :
    Follows s (fun depth => application depth place loc >>= close)
      (applyNode loc head (Reading.operands place rest closing)) (Past closing outer) := by
  obtain rfl : s.next = head := h.next_cons.1
  refine .succ ?_
  unfold application applyNode
  simp only [bind_assoc]
  refine .consume h.ended (.work_bind fun ws => ?_)
  cases ws.symbols.resolve s.next.text with
  | none =>
    simp only [bind_assoc, pure_bind]
    exact .work_bind fun _ => .bind hoperands fun operands s₁ hend => close_follows hend
  | some id =>
    simp only [bind_assoc]
    refine .work_bind fun symbol => ?_
    cases symbol.kind with
    | type =>
      simp only [bind_assoc]
      exact .work_bind fun target => .bind hoperands fun operands s₁ hend => work_close_follows hend
    | function params prototyped external =>
      simp only [bind_assoc, pure_bind]
      exact .bind hoperands fun operands s₁ hend => close_follows hend
    | localVar offset? function? =>
      simp only [bind_assoc, pure_bind]
      exact .work_bind fun _ => .bind hoperands fun operands s₁ hend => close_follows hend

/-! ### All constructs

The keyword of a construct is still ahead of the cursor, since the descent passes it in the function
for the construct. -/

mutual

theorem form_follows (datum : Datum) (place : Place) {s : TokenStream} {rest : List Datum}
    {closing : Token} {outer : List Remainder} (h : s.Stands (datum :: rest) closing outer) :
    Follows s (list · place) (Reading.form place datum) (·.Stands rest closing outer) := by
  have hfirst := h.next_cons.1
  match datum with
  | .atom token =>
    obtain rfl : s.next = token := hfirst
    exact .refuses (list_refuses h.atom.1)
  | .list opening items close =>
    obtain rfl : s.next = opening := hfirst
    obtain ⟨hopening, around, hinner, hleave⟩ := h.list
    refine .succ ?_
    unfold list Reading.form
    refine .expect h.ended hopening ?_
    refine .mono (list_follows items place s.next hinner) fun s' hpast => ?_
    exact hpast.2 ⟨rest, closing⟩ outer (hleave hpast.1)
termination_by structural datum

theorem item_follows (datum : Datum) (place : Place) {s : TokenStream} {rest : List Datum}
    {closing : Token} {outer : List Remainder} (h : s.Stands (datum :: rest) closing outer) :
    Follows s (item · place) (Reading.item place datum) (·.Stands rest closing outer) := by
  have hfirst := h.next_cons.1
  match datum with
  | .atom token =>
    obtain rfl : s.next = token := hfirst
    obtain ⟨hopening, hrest⟩ := h.atom
    refine .succ ?_
    unfold item Reading.item atomNode
    refine .look ?_
    cases hkind : s.next.kind with
    | lparen => exact absurd hkind hopening
    | integer => exact .consume h.ended (.work hrest)
    | ident => exact .consume h.ended (.work hrest)
    | keyword =>
      dsimp only
      by_cases htrue : s.next.text = "true"
      · simp only [if_pos htrue]
        exact .consume h.ended (.pure hrest)
      · by_cases hfalse : s.next.text = "false"
        · simp only [if_neg htrue, if_pos hfalse]
          exact .consume h.ended (.pure hrest)
        · simp only [if_neg htrue, if_neg hfalse]
          exact .refuses .refuse
    | _ => exact .refuses .refuse
  | .list opening items close =>
    obtain rfl : s.next = opening := hfirst
    obtain ⟨hopening, around, hinner, hleave⟩ := h.list
    -- a list is opened by the caller, and leaves behind what stands around it
    refine .succ (.look ?_)
    simp only [hopening]
    refine .succ ?_
    unfold list Reading.item
    refine .expect h.ended hopening ?_
    refine .mono (list_follows items place s.next hinner) fun s' hpast => ?_
    exact hpast.2 ⟨rest, closing⟩ outer (hleave hpast.1)
termination_by structural datum

theorem list_follows (items : List Datum) (place : Place) (opening : Token) {s : TokenStream}
    {closing : Token} {outer : List Remainder} (h : s.Stands items closing outer) :
    Follows s (fun depth => construct depth place opening.location >>= close)
      (Reading.list place opening items closing) (Past closing outer) := by
  refine .succ ?_
  -- both look at the next token, which is the first datum or the closing one
  unfold construct Reading.list
  simp only [bind_assoc]
  refine .look ?_
  match items with
  | [] =>
    obtain ⟨rfl, hclosing⟩ := h.next_nil
    rcases hclosing with hclosing | hclosing
    · simp only [hclosing, if_true, pure_bind]
      exact close_follows ⟨hclosing, h⟩
    · simp only [hclosing, reduceCtorEq, if_false]
      exact .refuses (.bind .refuse)
  | .list opening' inner close' :: rest =>
    -- a block: the list is opened for its scope alone, and then read as its first statement
    have hkind : s.next.kind = .lparen := by
      rw [h.next_cons.1]
      exact h.list.1
    simp only [hkind, Datum.atom?, bind_assoc, pure_bind]
    refine .bind (.inScope (.of_nil (.succ ?_))) fun body s₁ hend => close_follows hend
    exact turn_cons (atClose_cons h) (form_follows _ place h)
      fun before s₁ h₁ => statements_follows rest place before h₁
  | .atom head :: rest =>
    obtain rfl : s.next = head := h.next_cons.1
    obtain ⟨hopening, hrest⟩ := h.atom
    dsimp only [Datum.atom?]
    cases hkind : s.next.kind with
    | lparen => exact absurd hkind hopening
    | rparen => exact absurd hkind h.next_cons.2.1
    | operator =>
      simp only [bind_assoc]
      refine .consume h.ended ?_
      cases hop : BinOp.ofText? s.next.text with
      | none => exact .refuses (.bind .refuse)
      | some op =>
        simp only [bind_assoc]
        exact .bind (.of_nil (operands_follows rest place [] hrest)) fun operands s₁ hend =>
          work_close_follows hend
    | ident => exact application_follows h (.of_nil (operands_follows rest place [] hrest))
    | typeName =>
      simp only [bind_assoc]
      refine .consume h.ended (.work_bind fun target => ?_)
      exact .bind (.of_nil (operands_follows rest place [] hrest)) fun operands s₁ hend =>
        work_close_follows hend
    | keyword =>
      dsimp only
      cases hconstruct : Construct.ofKeyword? s.next.text with
      | none => exact .refuses (.bind .refuse)
      | some construct =>
        cases construct with
        | binding => exact variableDecl_follows h
        | definition => exact definitionDecl_follows h
        | external => exact externalDecl_follows h
        | function => exact functionForm_follows rest place opening.location h
        | conditional => exact conditionalForm_follows rest place opening.location h
        | alternative =>
          simp only [bind_assoc, pure_bind]
          refine .consume h.ended (.work_bind fun _ => ?_)
          exact .bind (.inScope (.of_nil (statements_follows rest place [] hrest)))
            fun body s₁ hend => close_follows hend
        | whileLoop => exact whileForm_follows rest place opening.location h
        | forLoop =>
          simp only [bind_assoc]
          refine .consume h.ended ?_
          exact .further (.inScope (forForm_follows rest place opening.location hrest))
            fun node s₁ hend => close_follows hend
        | result => exact returnForm_follows rest place opening.location h
    | _ => exact .refuses (.bind .refuse)
termination_by structural items

theorem functionForm_follows (items : List Datum) (place : Place) (loc : Location)
    {s : TokenStream} {head closing : Token} {outer : List Remainder}
    (h : s.Stands (.atom head :: items) closing outer) :
    Follows s (fun depth => functionForm depth place loc >>= close)
      (Reading.functionForm place loc items closing) (Past closing outer) := by
  refine .succ ?_
  unfold functionForm Reading.functionForm
  simp only [bind_assoc, pure_bind]
  refine .consume h.ended ?_
  match items, h.atom.2 with
  | [], h => exact .refuses (.bind (nil_refuses h (by decide)))
  | nameDatum :: afterName, h =>
    refine .bind (expectAtom_follows h (by decide)) fun name s₁ h₁ => ?_
    refine .work_bind fun _ => .work_bind fun id? => ?_
    refine .bind (.inScope ?_) fun parts s₂ hend => close_follows hend
    match afterName with
    | [] => exact .refuses (.bind (.bind (nil_refuses h₁ (by decide))))
    | paramsDatum :: afterParams =>
      refine .bind (params_follows h₁) fun bound s₂ h₂ => .work_bind fun ids => ?_
      match afterParams with
      | [] => exact .refuses (.bind (typeExpr_refuses h₂))
      | typeDatum :: bodyData =>
        refine .bind (typeExpr_follows typeDatum h₂) fun result s₃ h₃ => .work_bind fun _ => ?_
        exact .bind (.of_nil (statements_follows bodyData (.body id?) [] h₃)) fun body s₄ hend =>
          .pure hend
termination_by structural items

theorem conditionalForm_follows (items : List Datum) (place : Place) (loc : Location)
    {s : TokenStream} {head closing : Token} {outer : List Remainder}
    (h : s.Stands (.atom head :: items) closing outer) :
    Follows s (fun depth => conditionalForm depth place loc >>= close)
      (Reading.conditionalForm place loc items closing) (Past closing outer) := by
  refine .succ ?_
  unfold conditionalForm Reading.conditionalForm
  simp only [bind_assoc]
  refine .consume h.ended ?_
  match items, h.atom.2 with
  | [], h => exact .refuses (.bind (item_refuses h))
  | condDatum :: branches, h =>
    refine .bind (item_follows condDatum place h) fun cond s₁ h₁ => ?_
    refine .bind (.inScope (.of_nil (branch_follows branches place [] h₁))) fun body s₂ hend => ?_
    have hnode := hend fun body? => body?.elim (.ifThen loc cond body) (.ifElse loc cond body)
    refine (congrArg₂ (fun act model => Follows s₂ act model (Past closing outer)) ?_ ?_).mp hnode
    · funext depth
      congr 1
      funext body?
      cases body? <;> simp
    · congr 1
      funext body?
      cases body? <;> rfl
termination_by structural items

theorem whileForm_follows (items : List Datum) (place : Place) (loc : Location)
    {s : TokenStream} {head closing : Token} {outer : List Remainder}
    (h : s.Stands (.atom head :: items) closing outer) :
    Follows s (fun depth => whileForm depth place loc >>= close)
      (Reading.whileForm place loc items closing) (Past closing outer) := by
  refine .succ ?_
  unfold whileForm Reading.whileForm
  simp only [bind_assoc, pure_bind]
  refine .consume h.ended ?_
  match items, h.atom.2 with
  | [], h => exact .refuses (.bind (item_refuses h))
  | condDatum :: bodyData, h =>
    refine .bind (item_follows condDatum place h) fun cond s₁ h₁ => ?_
    exact .bind (.inScope (.of_nil (statements_follows bodyData place [] h₁))) fun body s₂ hend =>
      close_follows hend
termination_by structural items

theorem forForm_follows (items : List Datum) (place : Place) (loc : Location)
    {s : TokenStream} {closing : Token} {outer : List Remainder}
    (h : s.Stands items closing outer) :
    Follows s (forForm · place loc) (Reading.forForm place loc items closing)
      (AtEnd closing outer) := by
  refine .succ ?_
  unfold forForm Reading.forForm
  match items, h with
  | [], h => exact .refuses (.bind (item_refuses h))
  | initDatum :: afterInit, h =>
    refine .bind (item_follows initDatum place h) fun init s₁ h₁ => ?_
    match afterInit with
    | [] => exact .refuses (.bind (item_refuses h₁))
    | condDatum :: afterCond =>
      refine .bind (item_follows condDatum place h₁) fun cond s₂ h₂ => ?_
      match afterCond with
      | [] => exact .refuses (.bind (item_refuses h₂))
      | stepDatum :: bodyData =>
        refine .bind (item_follows stepDatum place h₂) fun step s₃ h₃ => ?_
        exact .bind (.of_nil (statements_follows bodyData place [] h₃)) fun body s₄ hend =>
          .pure hend
termination_by structural items

theorem returnForm_follows (items : List Datum) (place : Place) (loc : Location)
    {s : TokenStream} {head closing : Token} {outer : List Remainder}
    (h : s.Stands (.atom head :: items) closing outer) :
    Follows s (fun depth => returnForm depth place loc >>= close)
      (Reading.returnForm place loc items closing) (Past closing outer) := by
  refine .succ ?_
  unfold returnForm Reading.returnForm
  simp only [bind_assoc]
  refine .consume h.ended (.look ?_)
  match items, h.atom.2 with
  | [], h =>
    by_cases hclose : closing.kind = .rparen
    · simp only [atClose_nil h, hclose, beq_self_eq_true, if_true]
      exact work_close_follows ⟨hclose, h⟩
    · simp only [atClose_nil h, hclose, beq_iff_eq, if_false]
      exact .refuses (.bind (.bind (item_refuses h)))
  | valueDatum :: rest, h =>
    simp only [atClose_cons h, Bool.false_eq_true, if_false, bind_assoc]
    refine .bind (item_follows valueDatum place h) fun value s₁ h₁ => .work_bind fun node => ?_
    exact expectEnd_follows h₁ fun s₂ hpast => .pure hpast
termination_by structural items

theorem statements_follows (items : List Datum) (place : Place) (before : List Node)
    {s : TokenStream} {closing : Token} {outer : List Remainder}
    (h : s.Stands items closing outer) :
    Follows s (statements · place before)
      (Reading.statements place items closing >>= fun nodes => pure (before.reverse ++ nodes))
      (AtEnd closing outer) := by
  refine .succ ?_
  unfold statements Reading.statements
  match items with
  | [] =>
    exact turn_nil (atClose_nil h) (list_refuses_nil h) fun hclose => ⟨hclose, h⟩
  | datum :: rest =>
    exact turn_cons (atClose_cons h) (form_follows datum place h)
      fun before s₁ h₁ => statements_follows rest place before h₁
termination_by structural items

theorem operands_follows (items : List Datum) (place : Place) (before : List Node)
    {s : TokenStream} {closing : Token} {outer : List Remainder}
    (h : s.Stands items closing outer) :
    Follows s (operands · place before)
      (Reading.operands place items closing >>= fun nodes => pure (before.reverse ++ nodes))
      (AtEnd closing outer) := by
  refine .succ ?_
  unfold operands Reading.operands
  match items with
  | [] =>
    exact turn_nil (atClose_nil h) (item_refuses h) fun hclose => ⟨hclose, h⟩
  | datum :: rest =>
    exact turn_cons (atClose_cons h) (item_follows datum place h)
      fun before s₁ h₁ => operands_follows rest place before h₁
termination_by structural items

theorem branch_follows (items : List Datum) (place : Place) (before : List Node)
    {s : TokenStream} {closing : Token} {outer : List Remainder}
    (h : s.Stands items closing outer) :
    Follows s (branch · place before)
      (Reading.branch place items closing >>= fun nodes => pure (before.reverse ++ nodes))
      (AtAlternative place items closing outer) := by
  match items with
  | [] =>
    refine .succ ?_
    unfold branch Reading.branch
    obtain ⟨rfl, hclosing⟩ := h.next_nil
    -- the end of the list or of the text, where there is no list to read
    have hlist : s.next.kind ≠ .lparen := by
      rcases hclosing with hclosing | hclosing <;> simp [hclosing]
    have hstop : s.atBranchEnd = (s.next.kind == .rparen) := by
      simp [TokenStream.atBranchEnd, TokenStream.atClose, TokenStream.atElse, hlist]
    refine turn_nil hstop (list_refuses hlist) fun hclose node => .succ ?_
    unfold alternative? Reading.alternative?
    simp only [bind_assoc, pure_bind]
    refine .look ?_
    simp only [TokenStream.atElse, hclose]
    exact close_follows ⟨hclose, h⟩
  | .list opening (.atom head :: data) close' :: rest =>
    by_cases hhead : head.is .keyword "else" = true
    · refine .succ ?_
      unfold branch Reading.branch
      simp only [isAlternative, hhead, if_true, pure_bind, List.append_nil]
      -- the second branch starts here, and what was read so far is the first one
      refine .turn_stop ?_ (alternative?_follows h hhead fun h₁ =>
        .of_nil (statements_follows data place [] h₁))
      simp [TokenStream.atBranchEnd, atElse_cons h, isAlternative, hhead]
    · exact branch_cons h (by simpa [isAlternative] using hhead) (form_follows _ place h)
        fun before s₁ h₁ => branch_follows rest place before h₁
  | .atom _ :: rest | .list _ [] _ :: rest | .list _ (.list _ _ _ :: _) _ :: rest =>
    exact branch_cons h rfl (form_follows _ place h)
      fun before s₁ h₁ => branch_follows rest place before h₁
termination_by structural items

end

end ParenC.Descent
