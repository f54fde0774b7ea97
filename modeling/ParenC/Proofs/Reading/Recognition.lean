/-
Programs are read just if the grammar derives them.

The functions that recurse on the data are treated in one induction that follows their recursion:
each of them accepts what the data grammar asks for.  With the grammar over tokens this settles
which texts are programs, before anything is known about the names in them.
-/
import ParenC.Proofs.Reading.Acceptance

namespace ParenC

open CompileM Workspace

namespace Reading

variable {place : Place} {ws : Workspace}

/-! ## Lists -/

/-- Statements up to the second branch of a condition. -/
def FirstBranch (closing : Token) : List Datum → Prop
  | [] => closing.kind = .rparen
  | datum :: rest => isAlternative datum = true ∨ (datum.IsForm ∧ FirstBranch closing rest)

/-- The second branch of a condition, if there is one. -/
def SecondBranch (closing : Token) : List Datum → Prop
  | [] => True
  | datum :: rest => if isAlternative datum = true then
      datum.IsForm ∧ rest = [] ∧ closing.kind = .rparen
    else SecondBranch closing rest

lemma branches_iff {closing : Token} (items : List Datum) :
    FirstBranch closing items ∧ SecondBranch closing items ↔
      Datum.AreBranches items ∧ closing.kind = .rparen := by
  induction items with
  | nil => simp [FirstBranch, SecondBranch, Datum.AreBranches]
  | cons datum rest ih =>
    rw [Datum.areBranches_cons, FirstBranch, SecondBranch]
    by_cases halternative : isAlternative datum = true
    · simp [halternative, and_assoc]
    · simp only [halternative, Bool.false_eq_true, false_or, if_false, and_assoc]
      rw [ih]

/-- Where the body of an alternative is read, its form is. -/
lemma isForm_else {opening head closing : Token} {data : List Datum}
    (hopening : opening.kind = .lparen) (h : head.is .keyword "else" = true) :
    (Datum.list opening (.atom head :: data) closing).IsForm ↔
      Datum.AreForms data ∧ closing.kind = .rparen := by
  have hbody := Datum.isBody_else h data
  constructor
  · rintro ⟨-, h, hclosing⟩
    exact ⟨hbody.mp h, hclosing⟩
  · rintro ⟨h, hclosing⟩
    exact ⟨hopening, hbody.mpr h, hclosing⟩

/-- What follows the name of a function. -/
def Signature (closing : Token) : List Datum → Prop
  | params :: type :: body =>
    params.IsParams ∧ type.IsType ∧ Datum.AreForms body ∧ closing.kind = .rparen
  | _ => False

/-- An operator of the text is an operator of the tree. -/
lemma exists_operator {head : Token} (hkind : head.kind = .operator) (h : head.Lexical) :
    ∃ op, BinOp.ofText? head.text = some op := by
  have hall : ∀ text ∈ operators, (BinOp.ofText? text).isSome = true := by decide
  rw [Token.Lexical, hkind] at h
  exact Option.isSome_iff_exists.mp (hall _ h)

mutual

/-- Where a list has to stand, a list of the grammar is read and nothing else. -/
theorem form_accepts {place : Place} {ws : Workspace} (datum : Datum) (h : datum.Proper)
    (sound : ws.toTables.Sound) (hplace : PlaceSound place ws) :
    Accepts (form place datum) ws datum.IsForm := by
  match datum, h with
  | .atom token, _ => exact Accepts.refuse
  | .list opening items closing, .list hopening _ _ inner =>
    refine (list_accepts opening items closing inner sound hplace).iff ?_
    exact ⟨fun h => ⟨hopening, h⟩, fun h => h.2⟩

/-- Where an item has to stand, an item of the grammar is read and nothing else. -/
theorem item_accepts {place : Place} {ws : Workspace} (datum : Datum) (h : datum.Proper)
    (sound : ws.toTables.Sound) (hplace : PlaceSound place ws) :
    Accepts (item place datum) ws datum.IsItem := by
  match datum, h with
  | .atom token, .atom lexical => exact atomNode_accepts lexical
  | .list opening items closing, .list hopening _ _ inner =>
    refine (list_accepts opening items closing inner sound hplace).iff ?_
    exact ⟨fun h => ⟨hopening, h⟩, fun h => h.2⟩

/-- The head of a list selects what has to follow. -/
theorem list_accepts {place : Place} {ws : Workspace} (opening : Token) (items : List Datum)
    (closing : Token) (h : ∀ datum ∈ items, datum.Proper) (sound : ws.toTables.Sound)
    (hplace : PlaceSound place ws) : Accepts (list place opening items closing) ws
      (Datum.IsBody items ∧ closing.kind = .rparen) := by
  match items with
  | [] =>
    unfold list
    exact (Accepts.ite .pure).iff (by simp [Datum.IsBody])
  | .list opening' inner closing' :: rest =>
    unfold list
    have sound' := opened_sound sound
    have hplace' := opened_placeSound hplace
    -- a block is read like statements, of which the first one is known to be a list
    have hdoes := statements_does (.list opening' inner closing' :: rest) closing sound' hplace'
    unfold statements at hdoes
    refine Accepts.iff (.before (withScope_accepts ?_ hdoes) fun _ => .pure _)
      (and_assoc (a := (Datum.list opening' inner closing').IsForm)).symm
    refine .bind (form_accepts (.list opening' inner closing') (h _ (by simp)) sound' hplace')
      (form_does (.list opening' inner closing') sound' hplace') ?_
    rintro node ws₁ hgrows₁ -
    exact .before (statements_accepts rest closing (proper_rest h) (hgrows₁.sound sound')
      (hplace'.mono hgrows₁)) fun _ => .pure _
  | .atom head :: rest =>
    have hrest := proper_rest h
    have hlexical : head.Lexical := (h (.atom head) (by simp)).lexical
    have hoperands : head.kind = .operator ∨ head.kind = .ident ∨ head.kind = .typeName →
        (Datum.AreItems rest ∧ closing.kind = .rparen ↔
          Datum.IsBody (.atom head :: rest) ∧ closing.kind = .rparen) := by
      intro hkind
      unfold Datum.IsBody
      rcases hkind with hkind | hkind | hkind <;> simp only [Datum.atom?, hkind]
    unfold list
    dsimp only [Datum.atom?]
    split
    · rename_i hkind
      obtain ⟨op, hop⟩ := exists_operator hkind hlexical
      rw [hop]
      exact (Accepts.before (operands_accepts rest closing hrest sound hplace)
        fun _ => binaryNode_tolerant).iff (hoperands (.inl hkind))
    · rename_i hkind
      exact (applyNode_accepts sound fun ws' hgrows => operands_accepts rest closing hrest
        (hgrows.sound sound) (hplace.mono hgrows)).iff (hoperands (.inr (.inl hkind)))
    · rename_i hkind
      refine Accepts.iff (.after (builtinType_tolerant hkind hlexical) (builtinType_does sound) ?_)
        (hoperands (.inr (.inr hkind)))
      rintro target ws' - ⟨-, rfl⟩
      exact .before (operands_accepts rest closing hrest sound hplace) fun _ => castNode_tolerant
    · rename_i hkind
      split
      · rename_i hselected
        refine Accepts.refuse.iff (iff_of_false id ?_)
        rintro ⟨hbody, -⟩
        unfold Datum.IsBody at hbody
        simp only [Datum.atom?, hkind, hselected] at hbody
      all_goals
        rename_i hselected
        rw [Datum.isBody_keyword (Datum.is_keyword hkind hselected)]
      · exact variableDecl_accepts hrest sound hplace
      · exact definitionDecl_accepts hrest sound
      · exact externalDecl_accepts hrest sound
      · exact functionForm_accepts _ rest closing hrest sound
      · exact conditionalForm_accepts _ rest closing hrest sound hplace
      · refine .after complain_tolerant .report ?_
        rintro _ ws₁ hgrows₁ -
        have sound₁ := opened_sound (hgrows₁.sound sound)
        have hplace₁ := opened_placeSound (hplace.mono hgrows₁)
        exact .before (withScope_accepts (statements_accepts rest closing hrest sound₁ hplace₁)
          (statements_does rest closing sound₁ hplace₁)) fun _ => .pure _
      · exact whileForm_accepts _ rest closing hrest sound hplace
      · have hinner : (opened ws).symbols.enclosing ≠ [] := by
          simp [opened, SymbolTable.openScope, SymbolTable.scopes]
        exact withScope_accepts
          (forForm_accepts _ rest closing hrest (opened_sound sound) (opened_placeSound hplace))
          (forForm_does _ rest closing (opened_sound sound) (opened_placeSound hplace) hinner)
      · exact returnForm_accepts _ rest closing hrest sound hplace
    · rename_i hoperator hname htype hkeyword
      refine Accepts.refuse.iff (iff_of_false id ?_)
      rintro ⟨hbody, -⟩
      unfold Datum.IsBody at hbody
      cases hkind : head.kind with
      | operator => exact hoperator hkind
      | ident => exact hname hkind
      | typeName => exact htype hkind
      | keyword => exact hkeyword hkind
      | _ => simp only [Datum.atom?, hkind] at hbody

theorem functionForm_accepts {place : Place} {ws : Workspace} (loc : Location)
    (items : List Datum) (closing : Token) (h : ∀ datum ∈ items, datum.Proper)
    (sound : ws.toTables.Sound) : Accepts (functionForm place loc items closing) ws
      (Datum.Takes .function items ∧ closing.kind = .rparen) := by
  match items with
  | [] => exact Accepts.refuse.iff (by simp [Datum.Takes])
  | nameDatum :: afterName =>
    unfold functionForm
    have hcondition : (nameDatum.IsToken .ident ∧ Signature closing afterName) ↔
        Datum.Takes .function (nameDatum :: afterName) ∧ closing.kind = .rparen := by
      match afterName with
      | [] | [_] => simp [Datum.Takes, Signature]
      | _ :: _ :: _ => simp [Datum.Takes, Signature, and_assoc]
    refine Accepts.iff ?_ hcondition
    refine .bind expectAtom_accepts expectAtom_does ?_
    rintro name ws' - rfl
    refine .after checkFunctionPlace_tolerant checkFunctionPlace_does ?_
    rintro _ ws₀ hgrows₀ -
    refine .after declare_tolerant (declareFunction_does (hgrows₀.sound sound)) ?_
    rintro id? ws₁ hgrows₁ hdeclared
    have sound₁ := opened_sound (hgrows₁.sound (hgrows₀.sound sound))
    have hbody := opened_placeSound hdeclared.placeSound
    have hrest := proper_rest h
    -- what is read in the scope of the function
    suffices hinner : Accepts _ (opened ws₁) (Signature closing afterName) ∧
        Does _ (opened ws₁) fun _ _ => True from
      .before (withScope_accepts hinner.1 hinner.2) fun _ => .pure _
    match afterName with
    | [] => exact ⟨.refuse, .refuse⟩
    | [paramsDatum] =>
      suffices h : Accepts _ (opened ws₁) (paramsDatum.IsParams ∧ True ∧ False) ∧ _ from
        ⟨h.1.iff (by simp [Signature]), h.2⟩
      refine Accepts.bind_and_does (params_accepts (hrest paramsDatum (by simp)) sound₁)
        (params_does sound₁) ?_
      rintro bound ws₂ hgrows₂ ⟨hbound, -⟩
      refine Accepts.bind_and_does (.of_tolerant declareParams_tolerant)
        (declareParams_does loc (hgrows₂.sound sound₁) (hbody.mono hgrows₂) hbound) ?_
      exact fun _ _ _ _ => ⟨.refuse, .refuse⟩
    | paramsDatum :: typeDatum :: bodyData =>
      suffices h : Accepts _ (opened ws₁) (paramsDatum.IsParams ∧ True ∧ typeDatum.IsType ∧ True ∧
          (Datum.AreForms bodyData ∧ closing.kind = .rparen) ∧ True) ∧ _ from
        ⟨h.1.iff (by simp [Signature]), h.2⟩
      refine Accepts.bind_and_does (params_accepts (hrest paramsDatum (by simp)) sound₁)
        (params_does sound₁) ?_
      rintro bound ws₂ hgrows₂ ⟨hbound, -⟩
      have sound₂ := hgrows₂.sound sound₁
      refine Accepts.bind_and_does (.of_tolerant declareParams_tolerant)
        (declareParams_does loc sound₂ (hbody.mono hgrows₂) hbound) ?_
      rintro ids ws₃ hgrows₃ -
      have sound₃ := hgrows₃.sound sound₂
      refine Accepts.bind_and_does (typeExpr_accepts typeDatum (hrest typeDatum (by simp)) sound₃)
        (typeExpr_does typeDatum sound₃) ?_
      rintro result ws₄ hgrows₄ ⟨hresult, -⟩
      have hgrows₁₄ := (hgrows₂.trans hgrows₃).trans hgrows₄
      refine Accepts.bind_and_does (.of_tolerant setSignature_tolerant) (setSignature_read (.body id?)
        (fun f hf => (hdeclared.hasFunction f hf).mono hgrows₁₄.symbols)
        (fun param hparam => (hgrows₃.trans hgrows₄).types.has (hbound param hparam)) hresult) ?_
      rintro _ ws₅ hgrows₅ -
      have sound₅ := hgrows₅.sound (hgrows₄.sound sound₃)
      have hplace₅ := hbody.mono (hgrows₁₄.trans hgrows₅)
      exact Accepts.bind_and_does (statements_accepts bodyData closing (proper_rest (proper_rest hrest))
        sound₅ hplace₅) (statements_does bodyData closing sound₅ hplace₅)
        fun _ _ _ _ => ⟨.pure, .pure trivial⟩

theorem conditionalForm_accepts {place : Place} {ws : Workspace} (loc : Location)
    (items : List Datum) (closing : Token) (h : ∀ datum ∈ items, datum.Proper)
    (sound : ws.toTables.Sound) (hplace : PlaceSound place ws) :
    Accepts (conditionalForm place loc items closing) ws
      (Datum.Takes .conditional items ∧ closing.kind = .rparen) := by
  match items with
  | [] => exact Accepts.refuse.iff (by simp [Datum.Takes])
  | condDatum :: branches =>
    unfold conditionalForm
    have hcondition : (condDatum.IsItem ∧ FirstBranch closing branches ∧
        SecondBranch closing branches) ↔
        Datum.Takes .conditional (condDatum :: branches) ∧ closing.kind = .rparen := by
      rw [branches_iff, Datum.Takes, and_assoc]
    refine Accepts.iff ?_ hcondition
    refine .bind (item_accepts condDatum (h condDatum (by simp)) sound hplace)
      (item_does condDatum sound hplace) ?_
    rintro cond ws₁ hgrows₁ -
    have sound₁ := hgrows₁.sound sound
    have hplace₁ := hplace.mono hgrows₁
    have hdoes := branch_does branches closing (opened_sound sound₁) (opened_placeSound hplace₁)
    refine .bind (withScope_accepts (branch_accepts branches closing (proper_rest h)
      (opened_sound sound₁) (opened_placeSound hplace₁)) hdoes) (withScope_read place hdoes) ?_
    rintro thenBody ws₂ hgrows₂ -
    refine .before (alternative?_accepts branches closing (proper_rest h) (hgrows₂.sound sound₁)
      (hplace₁.mono hgrows₂)) fun elseBody? => ?_
    cases elseBody? <;> exact .pure _

theorem whileForm_accepts {place : Place} {ws : Workspace} (loc : Location)
    (items : List Datum) (closing : Token) (h : ∀ datum ∈ items, datum.Proper)
    (sound : ws.toTables.Sound) (hplace : PlaceSound place ws) :
    Accepts (whileForm place loc items closing) ws
      (Datum.Takes .whileLoop items ∧ closing.kind = .rparen) := by
  match items with
  | [] => exact Accepts.refuse.iff (by simp [Datum.Takes])
  | condDatum :: bodyData =>
    unfold whileForm
    refine Accepts.iff ?_ (and_assoc (a := condDatum.IsItem)).symm
    refine .bind (item_accepts condDatum (h condDatum (by simp)) sound hplace)
      (item_does condDatum sound hplace) ?_
    rintro cond ws₁ hgrows₁ -
    have sound₁ := opened_sound (hgrows₁.sound sound)
    have hplace₁ := opened_placeSound (hplace.mono hgrows₁)
    exact .before (withScope_accepts (statements_accepts bodyData closing (proper_rest h) sound₁
      hplace₁) (statements_does bodyData closing sound₁ hplace₁)) fun _ => .pure _

theorem forForm_accepts {place : Place} {ws : Workspace} (loc : Location)
    (items : List Datum) (closing : Token) (h : ∀ datum ∈ items, datum.Proper)
    (sound : ws.toTables.Sound) (hplace : PlaceSound place ws) :
    Accepts (forForm place loc items closing) ws
      (Datum.Takes .forLoop items ∧ closing.kind = .rparen) := by
  match items with
  | [] => exact Accepts.refuse.iff (by simp [Datum.Takes])
  | [initDatum] =>
    unfold forForm
    refine Accepts.iff (.bind (item_accepts initDatum (h initDatum (by simp)) sound hplace)
      (item_does initDatum sound hplace) fun _ _ _ _ => .refuse) ?_
    simp [Datum.Takes]
  | [initDatum, condDatum] =>
    unfold forForm
    -- what is read up to the missing part, and then a refusal
    have hcondition : (initDatum.IsItem ∧ condDatum.IsItem ∧ False) ↔
        Datum.Takes .forLoop [initDatum, condDatum] ∧ closing.kind = .rparen := by
      simp [Datum.Takes]
    refine Accepts.iff ?_ hcondition
    refine .bind (item_accepts initDatum (h initDatum (by simp)) sound hplace)
      (item_does initDatum sound hplace) ?_
    rintro init ws₁ hgrows₁ -
    have sound₁ := hgrows₁.sound sound
    have hplace₁ := hplace.mono hgrows₁
    exact .bind (item_accepts condDatum (h condDatum (by simp)) sound₁ hplace₁)
      (item_does condDatum sound₁ hplace₁) fun _ _ _ _ => .refuse
  | initDatum :: condDatum :: stepDatum :: bodyData =>
    unfold forForm
    have hcondition : (initDatum.IsItem ∧ condDatum.IsItem ∧ stepDatum.IsItem ∧
        Datum.AreForms bodyData ∧ closing.kind = .rparen) ↔
        Datum.Takes .forLoop (initDatum :: condDatum :: stepDatum :: bodyData) ∧
          closing.kind = .rparen := by
      simp [Datum.Takes, and_assoc]
    refine Accepts.iff ?_ hcondition
    refine .bind (item_accepts initDatum (h initDatum (by simp)) sound hplace)
      (item_does initDatum sound hplace) ?_
    rintro init ws₁ hgrows₁ -
    have sound₁ := hgrows₁.sound sound
    have hplace₁ := hplace.mono hgrows₁
    refine .bind (item_accepts condDatum (h condDatum (by simp)) sound₁ hplace₁)
      (item_does condDatum sound₁ hplace₁) ?_
    rintro cond ws₂ hgrows₂ -
    have sound₂ := hgrows₂.sound sound₁
    have hplace₂ := hplace₁.mono hgrows₂
    refine .bind (item_accepts stepDatum (h stepDatum (by simp)) sound₂ hplace₂)
      (item_does stepDatum sound₂ hplace₂) ?_
    rintro step ws₃ hgrows₃ -
    exact .before (statements_accepts bodyData closing (proper_rest (proper_rest (proper_rest h)))
      (hgrows₃.sound sound₂) (hplace₂.mono hgrows₃)) fun _ => .pure _

theorem returnForm_accepts {place : Place} {ws : Workspace} (loc : Location)
    (items : List Datum) (closing : Token) (h : ∀ datum ∈ items, datum.Proper)
    (sound : ws.toTables.Sound) (hplace : PlaceSound place ws) :
    Accepts (returnForm place loc items closing) ws
      (Datum.Takes .result items ∧ closing.kind = .rparen) := by
  match items with
  | [] =>
    unfold returnForm
    refine (Accepts.ite (.of_tolerant returnNode_tolerant)).iff ?_
    simp [Datum.Takes]
  | valueDatum :: rest =>
    unfold returnForm
    have hcondition : (valueDatum.IsItem ∧ rest = [] ∧ closing.kind = .rparen) ↔
        Datum.Takes .result (valueDatum :: rest) ∧ closing.kind = .rparen := by
      cases rest <;> simp [Datum.Takes]
    refine Accepts.iff ?_ hcondition
    refine .bind (item_accepts valueDatum (h valueDatum (by simp)) sound hplace)
      (item_does valueDatum sound hplace) ?_
    rintro value ws₁ hgrows₁ hread
    refine .after returnNode_tolerant (returnNode_does hread (hplace.mono hgrows₁)) ?_
    rintro node ws₂ - -
    exact .before expectEnd_accepts fun _ => .pure _

/-- Statements are read up to the end of a list. -/
theorem statements_accepts {place : Place} {ws : Workspace} (items : List Datum) (closing : Token)
    (h : ∀ datum ∈ items, datum.Proper) (sound : ws.toTables.Sound)
    (hplace : PlaceSound place ws) : Accepts (statements place items closing) ws
      (Datum.AreForms items ∧ closing.kind = .rparen) := by
  match items with
  | [] =>
    unfold statements
    exact (Accepts.ite .pure).iff (by simp [Datum.AreForms])
  | datum :: rest =>
    unfold statements
    refine Accepts.iff ?_ (and_assoc (a := datum.IsForm)).symm
    refine .bind (form_accepts datum (h datum (by simp)) sound hplace)
      (form_does datum sound hplace) ?_
    rintro node ws₁ hgrows₁ -
    exact .before (statements_accepts rest closing (proper_rest h) (hgrows₁.sound sound)
      (hplace.mono hgrows₁)) fun _ => .pure _

/-- Values are read up to the end of a list. -/
theorem operands_accepts {place : Place} {ws : Workspace} (items : List Datum) (closing : Token)
    (h : ∀ datum ∈ items, datum.Proper) (sound : ws.toTables.Sound)
    (hplace : PlaceSound place ws) : Accepts (operands place items closing) ws
      (Datum.AreItems items ∧ closing.kind = .rparen) := by
  match items with
  | [] =>
    unfold operands
    exact (Accepts.ite .pure).iff (by simp [Datum.AreItems])
  | datum :: rest =>
    unfold operands
    refine Accepts.iff ?_ (and_assoc (a := datum.IsItem)).symm
    refine .bind (item_accepts datum (h datum (by simp)) sound hplace)
      (item_does datum sound hplace) ?_
    rintro node ws₁ hgrows₁ -
    exact .before (operands_accepts rest closing (proper_rest h) (hgrows₁.sound sound)
      (hplace.mono hgrows₁)) fun _ => .pure _

/-- The first branch of a condition goes up to the second one. -/
theorem branch_accepts {place : Place} {ws : Workspace} (items : List Datum) (closing : Token)
    (h : ∀ datum ∈ items, datum.Proper) (sound : ws.toTables.Sound)
    (hplace : PlaceSound place ws) :
    Accepts (branch place items closing) ws (FirstBranch closing items) := by
  match items with
  | [] =>
    unfold branch
    exact (Accepts.ite .pure).iff (by simp [FirstBranch])
  | datum :: rest =>
    unfold branch
    by_cases halternative : isAlternative datum = true
    · rw [if_pos halternative]
      exact Accepts.pure.iff (by simp [FirstBranch, halternative])
    · rw [if_neg halternative]
      refine Accepts.iff ?_ (by rw [FirstBranch, or_iff_right halternative])
      refine .bind (form_accepts datum (h datum (by simp)) sound hplace)
        (form_does datum sound hplace) ?_
      rintro node ws₁ hgrows₁ -
      exact .before (branch_accepts rest closing (proper_rest h) (hgrows₁.sound sound)
        (hplace.mono hgrows₁)) fun _ => .pure _

/-- The second branch of a condition is the last part of it. -/
theorem alternative?_accepts {place : Place} {ws : Workspace} (items : List Datum)
    (closing : Token) (h : ∀ datum ∈ items, datum.Proper) (sound : ws.toTables.Sound)
    (hplace : PlaceSound place ws) :
    Accepts (alternative? place items closing) ws (SecondBranch closing items) := by
  match items with
  | [] =>
    unfold alternative?
    exact Accepts.pure
  | .atom token :: rest =>
    unfold alternative?
    exact alternative?_accepts rest closing (proper_rest h) sound hplace
  | .list opening [] innerClosing :: rest =>
    unfold alternative?
    exact alternative?_accepts rest closing (proper_rest h) sound hplace
  | .list opening (.list .. :: bodyData) innerClosing :: rest =>
    unfold alternative?
    exact alternative?_accepts rest closing (proper_rest h) sound hplace
  | .list opening (.atom head :: bodyData) innerClosing :: rest =>
    unfold alternative?
    split
    · rename_i helse
      -- the second branch, behind which nothing may follow
      cases h _ (List.mem_cons_self ..) with
      | list hopening _ _ inner =>
      have hcondition : ((Datum.AreForms bodyData ∧ innerClosing.kind = .rparen) ∧ rest = [] ∧
          closing.kind = .rparen) ↔ SecondBranch closing
            (.list opening (.atom head :: bodyData) innerClosing :: rest) := by
        have halternative :
            isAlternative (.list opening (.atom head :: bodyData) innerClosing) = true := helse
        rw [SecondBranch, if_pos halternative, isForm_else hopening helse]
      refine Accepts.iff ?_ hcondition
      have hdoes := statements_does bodyData innerClosing (opened_sound sound)
        (opened_placeSound hplace)
      refine .bind (withScope_accepts (statements_accepts bodyData innerClosing
        (proper_rest inner) (opened_sound sound) (opened_placeSound hplace)) hdoes)
        (withScope_read place hdoes) ?_
      rintro body ws₁ - -
      exact .before expectEnd_accepts fun _ => .pure _
    · rename_i helse
      refine (alternative?_accepts rest closing (proper_rest h) sound hplace).iff ?_
      have hother : ¬ isAlternative (.list opening (.atom head :: bodyData) innerClosing) = true :=
        helse
      rw [SecondBranch, if_neg hother]

end

/-! ## Programs -/

lemma topForms_accepts {items : List Datum} (h : ∀ datum ∈ items, datum.Proper)
    (sound : ws.toTables.Sound) : Accepts (topForms items) ws (Datum.AreForms items) := by
  induction items generalizing ws with
  | nil => exact Accepts.pure
  | cons datum rest ih =>
    refine .bind (form_accepts datum (h datum (by simp)) sound trivial)
      (form_does datum sound trivial) ?_
    rintro node ws₁ hgrows₁ -
    exact .before (ih (proper_rest h) (hgrows₁.sound sound)) fun _ => .pure _

/-- What comes after the last list can be refused for one reason only. -/
lemma program_accepts {body : List Token} (h : ∀ token ∈ body, token.Lexical ∧ token.kind ≠ .eof)
    (loc : Location) (sound : ws.toTables.Sound) :
    Accepts (program (body ++ [Token.eof loc])) ws (Derives .lists body) := by
  have hproper := Nesting.ofTokens_proper (show (Token.eof loc).Lexical from rfl)
    (fun token htoken => (h token htoken).1) _ (List.mem_cons_self ..)
  rw [derives_iff (fun token htoken => (h token htoken).2) (show (Token.eof loc).kind = .eof from rfl)]
  unfold program
  rw [Remainder.ofStream_eq fun token htoken => (h token htoken).2]
  generalize (Nesting.ofTokens (Token.eof loc) body).inner = top at hproper
  refine .bind (topForms_accepts hproper.2 sound) (topForms_does _ sound) ?_
  rintro items ws₁ hgrows₁ -
  split
  · rename_i hclosing
    exact ⟨fun h => absurd rfl (h _ _), fun h => absurd h hclosing⟩
  · rename_i hclosing
    refine (Accepts.of_tolerant ?_).iff (by simpa using hclosing)
    -- the last steps, whether or not there was something to say about `main`
    have hfinish : Tolerant (do
        let ws ← get
        if ws.symbols.depth ≠ 1 then throw (.defect .unbalancedScopes)
        log (.parsed items.length ws.symbols.size ws.types.size)
        return (⟨items⟩ : Program)) := by
      refine .get fun ws => ?_
      split
      · exact .bind (.promised (.error .unbalancedScopes)) fun _ => .bind (.modified _) fun _ => .pure _
      · exact .bind (.modified _) fun _ => .pure _
    refine .get fun ws => .bind (.promised _) fun loc? => ?_
    split
    · split
      · exact .bind complain_tolerant fun _ => hfinish
      · exact hfinish
    · exact hfinish

end Reading

/-- An action that meets no defect passes just if it has a result. -/
lemma Does.passes_iff {α : Type} {act : CompileM α} {ws : Workspace}
    {post : α → Workspace → Prop} (h : Does act ws post) :
    Passes act ws ↔ ∃ a ws', act ws = .ok a ws' := by
  unfold Does at h
  unfold Passes
  rcases hact : act ws with ⟨a, ws'⟩ | ⟨error | defect, ws'⟩
  · simp
  · simp
  · rw [hact] at h
    exact h.elim

/-- Whether a text is read without findings, if it is read at all. -/
def verdict (file source : String) : Option Bool :=
  match (tokenize source >>= Reading.program) (.initial file) with
  | .ok _ ws => some (decide ws.Quiet)
  | .error .. => none

lemma runs_of_verdict {file source : String} {quiet : Bool}
    (h : verdict file source = some quiet) : ∃ tokens ws₀ program ws',
      tokenize source (.initial file) = .ok tokens ws₀ ∧
      Reading.program tokens ws₀ = .ok program ws' ∧ (ws'.Quiet ↔ quiet = true) := by
  unfold verdict at h
  split at h
  · rename_i program ws' hrun
    obtain ⟨tokens, ws₀, htokens, hprogram⟩ := CompileM.bind_eq_ok.mp hrun
    refine ⟨tokens, ws₀, program, ws', htokens, hprogram, ?_⟩
    simp [← Option.some.inj h]
  · cases h

/-- A text that can be cut into tokens is read just if the grammar derives its tokens.  This is
so from any tables in which only the global scope is open, whatever names mean in them. -/
theorem reading_succeeds_iff_derives {source file : String} {tokens : List Token}
    {ws₀ : Workspace} (htokens : tokenize source (.initial file) = .ok tokens ws₀) :
    ((∃ program ws', Reading.program tokens ws₀ = .ok program ws') ↔
      Derives .lists (tokens.takeWhile (·.kind != .eof))) ∧
    ∀ ws : Workspace, ws.toTables.Sound → ws.symbols.enclosing = [] →
      ((∃ program ws', Reading.program tokens ws = .ok program ws') ↔
        Derives .lists (tokens.takeWhile (·.kind != .eof))) := by
  obtain ⟨body, loc, rfl, htables, -, hbody⟩ := tokenize_eq_ok htokens
  rw [takeWhile_body fun token htoken => (hbody token htoken).2]
  have hall : ∀ ws : Workspace, ws.toTables.Sound → ws.symbols.enclosing = [] →
      ((∃ program ws', Reading.program (body ++ [Token.eof loc]) ws = .ok program ws') ↔
        Derives .lists body) := by
    intro ws sound hglobal
    rw [← (Reading.program_does _ sound hglobal).passes_iff]
    exact Reading.program_accepts hbody loc sound
  have sound : ws₀.toTables.Sound := htables ▸ Tables.sound_initial
  have hglobal : ws₀.symbols.enclosing = [] := congrArg (·.symbols.enclosing) htables
  exact ⟨hall ws₀ sound hglobal, hall⟩

/-- A program none of whose names means anything. -/
theorem reading_succeeds_iff_derives_unresolved : ∃ tokens ws₀,
    tokenize "(defun f (p: q) r (if (p -9223372036854775808) ((x)) (else (return y))))"
      (.initial "unresolved") = .ok tokens ws₀ ∧
    (∃ program ws', Reading.program tokens ws₀ = .ok program ws') ∧
    Derives .lists (tokens.takeWhile (·.kind != .eof)) := by
  have hreads : verdict "unresolved"
      "(defun f (p: q) r (if (p -9223372036854775808) ((x)) (else (return y))))" =
        some false := by
    decide +kernel
  obtain ⟨tokens, ws₀, program, ws', htokens, hprogram, -⟩ := runs_of_verdict hreads
  refine ⟨tokens, ws₀, htokens, ⟨program, ws', hprogram⟩, ?_⟩
  exact (reading_succeeds_iff_derives htokens).1.mp ⟨program, ws', hprogram⟩

end ParenC
