/-
Reading accepts the grammar and nothing else.

An action passes if its run is not refused.  `Accepts` says under which condition that is so; the
conditions of a construct's parts are put together by one lemma on sequencing, which uses the
judgement `Does` for what the parts leave behind.  What is looked up or declared on the way can
only lead to complaints, so that no condition mentions the tables.
-/
import ParenC.Proofs.Grammar
import ParenC.Proofs.Reading.Form

namespace ParenC

open CompileM Workspace

/-! ## Actions that pass -/

/-- Run on `ws`, the action is not refused. -/
def Passes {α : Type} (act : CompileM α) (ws : Workspace) : Prop :=
  ∀ error ws', act ws ≠ .error (.error error) ws'

/-- The action is never refused. -/
def Tolerant {α : Type} (act : CompileM α) : Prop := ∀ ws, Passes act ws

/-- Run on `ws`, the action is refused just if `p` does not hold. -/
def Accepts {α : Type} (act : CompileM α) (ws : Workspace) (p : Prop) : Prop := Passes act ws ↔ p

section

variable {α β : Type} {act : CompileM α} {next : α → CompileM β} {ws : Workspace} {p q : Prop}

namespace Tolerant

lemma pure (a : α) : Tolerant (Pure.pure a : CompileM α) := by
  intro ws error ws' h
  cases h

lemma bind (h : Tolerant act) (hnext : ∀ a, Tolerant (next a)) : Tolerant (act >>= next) := by
  intro ws error ws' hrun
  simp only [Bind.bind, EStateM.bind] at hrun
  split at hrun
  · exact hnext _ _ _ _ hrun
  · rename_i failure ws₁ hact
    cases hrun
    exact h ws _ _ hact

/-- Looking at the workspace. -/
lemma get {next : Workspace → CompileM β} (h : ∀ ws, Tolerant (next ws)) :
    Tolerant (MonadState.get >>= next) := fun ws => h ws ws

lemma modified (change : Workspace → Workspace) : Tolerant (modify change : CompileM PUnit) := by
  intro ws error ws' h
  cases h

lemma promised (x : Except Defect α) : Tolerant (CompileM.promised x) := by
  intro ws error ws' h
  cases x with
  | error defect => cases h
  | ok a => cases h

end Tolerant

namespace Accepts

lemma refuse {loc : Location} {refusal : Refusal} :
    Accepts (CompileM.refuse loc refusal : CompileM α) ws False :=
  ⟨fun h => h _ _ rfl, False.elim⟩

lemma of_tolerant (h : Tolerant act) : Accepts act ws True :=
  ⟨fun _ => trivial, fun _ => h ws⟩

lemma pure {a : α} : Accepts (Pure.pure a) ws True := of_tolerant (.pure a)

lemma iff (h : Accepts act ws p) (hpq : p ↔ q) : Accepts act ws q := Iff.trans h hpq

/-- One action after the other. -/
lemma bind {post : α → Workspace → Prop} (h : Accepts act ws p) (hdoes : Does act ws post)
    (hnext : ∀ a ws', ws.Grows ws' → post a ws' → Accepts (next a) ws' q) :
    Accepts (act >>= next) ws (p ∧ q) := by
  unfold Accepts Passes at h ⊢
  unfold Does at hdoes
  simp only [Bind.bind, EStateM.bind]
  rcases hact : act ws with ⟨a, ws'⟩ | ⟨error | defect, ws'⟩
  · rw [hact] at h hdoes
    have hp : p := h.mp (by simp)
    have hq := hnext a ws' hdoes.1 hdoes.2
    exact hq.trans ⟨fun h => ⟨hp, h⟩, And.right⟩
  · rw [hact] at h
    simpa using fun hp => absurd (h.mpr hp error ws' rfl) id
  · rw [hact] at hdoes
    exact hdoes.elim

/-- One action after the other, as far as both judgements go. -/
lemma bind_and_does {post : α → Workspace → Prop} {post' : β → Workspace → Prop}
    (h : Accepts act ws p) (hdoes : Does act ws post)
    (hnext : ∀ a ws', ws.Grows ws' → post a ws' →
      Accepts (next a) ws' q ∧ Does (next a) ws' post') :
    Accepts (act >>= next) ws (p ∧ q) ∧ Does (act >>= next) ws post' :=
  ⟨bind h hdoes fun a ws' hgrows hpost => (hnext a ws' hgrows hpost).1,
    .bind hdoes fun a ws' hgrows hpost => (hnext a ws' hgrows hpost).2⟩

/-- An action that is never refused comes first. -/
lemma after {post : α → Workspace → Prop} (h : Tolerant act) (hdoes : Does act ws post)
    (hnext : ∀ a ws', ws.Grows ws' → post a ws' → Accepts (next a) ws' q) :
    Accepts (act >>= next) ws q :=
  (bind (of_tolerant h) hdoes hnext).iff (by simp)

/-- An action that is never refused comes last. -/
lemma before (h : Accepts act ws p) (hnext : ∀ a, Tolerant (next a)) :
    Accepts (act >>= next) ws p := by
  unfold Accepts Passes at h ⊢
  simp only [Bind.bind, EStateM.bind]
  rcases hact : act ws with ⟨a, ws'⟩ | ⟨failure, ws'⟩
  · rw [hact] at h
    exact ⟨fun _ => h.mp (by simp), fun _ => hnext a ws'⟩
  · rw [hact] at h
    simpa using h

/-- Looking at the workspace. -/
lemma get {next : Workspace → CompileM β} (h : Accepts (next ws) ws p) :
    Accepts (MonadState.get >>= next) ws p := h

/-- A condition on the text, without which the text is refused. -/
lemma ite {c : Prop} [Decidable c] {loc : Location} {refusal : Refusal} (h : Accepts act ws p) :
    Accepts (if c then act else CompileM.refuse loc refusal) ws (c ∧ p) := by
  by_cases hc : c
  · rw [if_pos hc]
    exact h.iff (by simp [hc])
  · rw [if_neg hc]
    exact refuse.iff (by simp [hc])

end Accepts

end

namespace Reading

variable {α : Type} {place : Place} {ws : Workspace} {p : Prop}

/-- A scope of its own refuses nothing. -/
lemma withScope_accepts {act : CompileM α} {post : α → Workspace → Prop}
    (h : Accepts act (opened ws) p) (hdoes : Does act (opened ws) post) :
    Accepts (withScope act) ws p := by
  unfold Accepts Passes at h ⊢
  unfold Does at hdoes
  simp only [opened] at h hdoes
  rcases hact : act (opened ws) with ⟨a, ws'⟩ | ⟨error | defect, ws'⟩
  · simp only [opened] at hact
    rw [hact] at h hdoes
    simpa [withScope, hact, closeScopeAt_opened hdoes.1.toKept] using h
  · simp only [opened] at hact
    rw [hact] at h hdoes
    simpa [withScope, hact, closeScopeAt_opened hdoes] using h
  · simp only [opened] at hact
    rw [hact] at hdoes
    exact hdoes.elim

/-! ## Tokens -/

/-- What stands in a list after its head. -/
lemma proper_rest {datum : Datum} {rest : List Datum} (h : ∀ d ∈ datum :: rest, d.Proper) :
    ∀ d ∈ rest, d.Proper :=
  fun d hd => h d (List.mem_cons_of_mem datum hd)

lemma expectAtom_accepts {kind : TokenKind} {datum : Datum} :
    Accepts (expectAtom kind datum) ws (datum.IsToken kind) := by
  cases datum with
  | atom token =>
    refine (Accepts.ite .pure).iff ?_
    simp [Datum.IsToken]
  | list opening items closing => exact Accepts.refuse.iff (by simp [Datum.IsToken])

lemma expectEnd_accepts {rest : List Datum} {closing : Token} :
    Accepts (expectEnd rest closing) ws (rest = [] ∧ closing.kind = .rparen) := by
  cases rest with
  | nil => exact (Accepts.ite .pure).iff (by simp)
  | cons datum rest => exact Accepts.refuse.iff (by simp)

/-! ## What is never refused -/

lemma complain_tolerant {loc : Location} {complaint : Complaint} :
    Tolerant (complain loc complaint) := .modified _

lemma declare_tolerant {name : Token} {sort : SymbolSort} : Tolerant (declare name sort) := by
  refine .get fun ws => ?_
  dsimp only
  split
  · exact .bind (.modified _) fun _ => .bind (.modified _) fun _ => .pure _
  · exact .bind complain_tolerant fun _ => .pure _

lemma changeSymbols_tolerant {change : SymbolTable → Except Defect SymbolTable} :
    Tolerant (changeSymbols change) :=
  .get fun _ => .bind (.promised _) fun _ => .modified _

lemma registerType_tolerant {add : TypeTable → Except Defect (TypeId × TypeTable)} :
    Tolerant (registerType add) :=
  .get fun _ => .bind (.promised _) fun _ => .bind (.modified _) fun _ => .pure _

lemma symbolAt_tolerant {id : SymbolId} : Tolerant (symbolAt id) := .get fun _ => .promised _

lemma declareVariable_tolerant {name : Token} {type : TypeId} :
    Tolerant (declareVariable place name type) := by
  refine .bind declare_tolerant fun id? => ?_
  cases id? with
  | none => exact .pure _
  | some id => exact .bind changeSymbols_tolerant fun _ => .pure _

lemma declareDefinition_tolerant {name : Token} {type : TypeId} :
    Tolerant (declareDefinition name type) := by
  refine .bind declare_tolerant fun id? => ?_
  cases id? with
  | none => exact .pure _
  | some id => exact .bind changeSymbols_tolerant fun _ => .pure _

lemma setSignature_tolerant {id? : Option SymbolId} {name : Token}
    {params : List (Token × TypeId)} {result : TypeId} {prototyped external : Bool} :
    Tolerant (setSignature id? name params result prototyped external) := by
  unfold setSignature
  cases id? with
  | none => exact .pure _
  | some id => exact changeSymbols_tolerant

lemma declareParams_tolerant {bound : List (Token × TypeId)} :
    Tolerant (declareParams place bound) := by
  induction bound with
  | nil => exact .pure _
  | cons param rest ih =>
    exact .bind declareVariable_tolerant fun _ => .bind ih fun _ => .pure _

lemma checkFunctionPlace_tolerant {name : Token} : Tolerant (checkFunctionPlace place name) := by
  cases place with
  | body function? => exact complain_tolerant
  | topLevel =>
    refine .get fun ws => ?_
    split
    · exact complain_tolerant
    · exact .pure _

lemma namedType_tolerant {token : Token} : Tolerant (namedType token) := by
  refine .get fun ws => .bind (.promised _) fun id? => ?_
  cases id? with
  | none => exact .bind complain_tolerant fun _ => .pure _
  | some id => exact .bind symbolAt_tolerant fun _ => .promised _

lemma variableNode_tolerant {token : Token} : Tolerant (variableNode place token) := by
  refine .get fun ws => ?_
  split
  · exact .bind complain_tolerant fun _ => .pure _
  · refine .bind symbolAt_tolerant fun symbol => ?_
    split
    · split
      · exact .bind complain_tolerant fun _ => .pure _
      · exact .pure _
    · exact .bind complain_tolerant fun _ => .pure _

lemma binaryNode_tolerant {loc : Location} {op : BinOp} {text : String} {operands : List Node} :
    Tolerant (binaryNode loc op text operands) := by
  unfold binaryNode
  split
  · exact .bind complain_tolerant fun _ => .pure _
  · exact .pure _

lemma castNode_tolerant {loc : Location} {target : TypeId} {operands : List Node} :
    Tolerant (castNode loc target operands) := by
  unfold castNode
  split
  · exact .bind complain_tolerant fun _ => .pure _
  · exact .pure _

lemma returnNode_tolerant {loc : Location} {value? : Option Node} :
    Tolerant (returnNode place loc value?) := by
  unfold returnNode
  split
  · exact .bind complain_tolerant fun _ => .pure _
  · exact .pure _
  · split <;> exact .pure _

/-! ## Types -/

lemma builtinType_tolerant {token : Token} (hkind : token.kind = .typeName)
    (h : token.Lexical) : Tolerant (builtinType token) := by
  have hname : token.text ∈ typeNames := by
    rw [Token.Lexical, hkind] at h
    exact h
  have hall : ∀ name ∈ typeNames, (Builtin.ofName? name).isSome = true := by decide
  obtain ⟨which, hwhich⟩ := Option.isSome_iff_exists.mp (hall _ hname)
  unfold builtinType
  rw [hwhich]
  exact .pure _

lemma atomType_accepts {token : Token} (h : token.Lexical) :
    Accepts (atomType token) ws (token.kind = .typeName ∨ token.kind = .ident) := by
  unfold atomType
  split
  · rename_i hkind
    exact (Accepts.of_tolerant (builtinType_tolerant hkind h)).iff (by simp [hkind])
  · rename_i hkind
    exact (Accepts.of_tolerant namedType_tolerant).iff (by simp [hkind])
  · rename_i htype hname
    exact Accepts.refuse.iff ⟨False.elim, fun h => h.elim htype hname⟩

mutual

/-- A type is read just if it is one. -/
theorem typeExpr_accepts {ws : Workspace} (datum : Datum) (h : datum.Proper)
    (sound : ws.toTables.Sound) : Accepts (typeExpr datum) ws datum.IsType := by
  match datum, h with
  | .atom token, .atom lexical => exact atomType_accepts lexical
  | .list opening [] closing, _ => exact Accepts.refuse
  | .list opening (.list .. :: rest) closing, _ => exact Accepts.refuse
  | .list opening (.atom head :: rest) closing, .list hopening _ _ inner =>
    unfold typeExpr
    dsimp only
    refine (Accepts.ite (.before (bindings_accepts true [] rest closing (proper_rest inner) sound
      (by simp)) fun fields => registerType_tolerant)).iff ?_
    unfold Datum.IsType
    simp [hopening]

/-- Names with their types are read just if they are such. -/
theorem bindings_accepts {ws : Workspace} (distinct : Bool) (before : List (Token × TypeId))
    (items : List Datum) (closing : Token) (h : ∀ datum ∈ items, datum.Proper)
    (sound : ws.toTables.Sound) (hbefore : ∀ pair ∈ before, ws.types.Has pair.2) :
    Accepts (bindings distinct before items closing) ws
      (Datum.AreBindings items ∧ closing.kind = .rparen) := by
  match items with
  | [] =>
    unfold bindings
    exact (Accepts.ite .pure).iff (by simp [Datum.AreBindings])
  | [nameDatum] =>
    unfold bindings
    refine (Accepts.bind expectAtom_accepts expectAtom_does fun name ws' _ _ => .refuse).iff ?_
    simp [Datum.AreBindings]
  | [nameDatum, colonDatum] =>
    unfold bindings
    refine (Accepts.bind expectAtom_accepts expectAtom_does fun name ws' _ _ =>
      .bind expectAtom_accepts expectAtom_does fun colon ws' _ _ => .refuse).iff ?_
    simp [Datum.AreBindings]
  | nameDatum :: colonDatum :: typeDatum :: rest =>
    have hrest := proper_rest (proper_rest (proper_rest h))
    unfold bindings
    have hcondition : (nameDatum.IsToken .ident ∧ colonDatum.IsToken .colon ∧ typeDatum.IsType ∧
        Datum.AreBindings rest ∧ closing.kind = .rparen) ↔
        Datum.AreBindings (nameDatum :: colonDatum :: typeDatum :: rest) ∧
          closing.kind = .rparen := by
      rw [Datum.AreBindings]
      simp only [and_assoc]
    refine Accepts.iff ?_ hcondition
    refine .bind expectAtom_accepts expectAtom_does ?_
    rintro name ws' - rfl
    refine .bind expectAtom_accepts expectAtom_does ?_
    rintro colon ws'' - rfl
    refine .bind (typeExpr_accepts typeDatum (h typeDatum (by simp)) sound)
      (typeExpr_does typeDatum sound) ?_
    rintro type ws₁ hgrows ⟨htype, -⟩
    have hold : ∀ pair ∈ before, ws₁.types.Has pair.2 :=
      fun pair hpair => hgrows.types.has (hbefore pair hpair)
    split
    · -- a field that is there twice is a finding, but no refusal
      refine .after complain_tolerant .report ?_
      rintro _ ws₂ hgrows' -
      exact bindings_accepts distinct before rest closing hrest
        (hgrows'.sound (hgrows.sound sound)) fun pair hpair => hgrows'.types.has (hold pair hpair)
    · exact bindings_accepts distinct ((name, type) :: before) rest closing hrest
        (hgrows.sound sound) (by simpa using ⟨htype, fun a b => hold (a, b)⟩)

end

lemma params_accepts {datum : Datum} (h : datum.Proper) (sound : ws.toTables.Sound) :
    Accepts (params datum) ws datum.IsParams := by
  match datum, h with
  | .atom token, _ => exact Accepts.refuse
  | .list opening items closing, .list hopening _ _ inner =>
    refine (bindings_accepts false [] items closing inner sound (by simp)).iff ?_
    simp [Datum.IsParams, hopening]

/-! ## Atoms -/

/-- A literal is read just if its value fits. -/
lemma integerNode_accepts {token : Token} (hkind : token.kind = .integer) (h : token.Lexical) :
    Accepts (integerNode token) ws (∃ n : Numeral, token.text = n.text ∧ n.InRange) := by
  rw [Token.Lexical, hkind] at h
  obtain ⟨n, hn⟩ : ∃ n : Numeral, token.text = n.text := h
  unfold integerNode
  split
  · rename_i value hvalue
    rw [hn] at hvalue
    exact Accepts.pure.iff (iff_of_true trivial ⟨n, hn, (n.ofText_eq_ok.mp hvalue).1⟩)
  · rename_i fault hfault
    refine Accepts.refuse.iff (iff_of_false id ?_)
    rintro ⟨m, hm, hrange⟩
    rw [hm, m.ofText_eq_ok.mpr ⟨hrange, rfl⟩] at hfault
    cases hfault

lemma atomNode_accepts {token : Token} (h : token.Lexical) :
    Accepts (atomNode place token) ws token.IsValue := by
  unfold atomNode
  split
  · rename_i hkind
    refine (integerNode_accepts hkind h).iff ?_
    simp [Token.IsValue, Token.is, hkind]
  · rename_i hkind
    exact (Accepts.of_tolerant variableNode_tolerant).iff (by simp [Token.IsValue, hkind])
  · rename_i hkind
    split
    · rename_i htext
      exact Accepts.pure.iff (by simp [Token.IsValue, Token.is, hkind, htext])
    · rename_i htrue
      refine (Accepts.ite .pure).iff ?_
      simp [Token.IsValue, Token.is, hkind, htrue]
  · rename_i hinteger hname hkeyword
    refine Accepts.refuse.iff (iff_of_false id ?_)
    rintro (⟨hkind, -⟩ | htrue | hfalse | hkind)
    · exact hinteger hkind
    · exact hkeyword (Token.is_iff.mp htrue).1
    · exact hkeyword (Token.is_iff.mp hfalse).1
    · exact hname hkind

/-! ## Declarations -/

/-- Whatever the name means, what follows it decides. -/
lemma applyNode_accepts {loc : Location} {head : Token} {operands : CompileM (List Node)}
    (sound : ws.toTables.Sound) (h : ∀ ws', ws.Grows ws' → Accepts operands ws' p) :
    Accepts (applyNode loc head operands) ws p := by
  -- a name that means nothing, or a variable, is a finding but no refusal
  have hunknown : ∀ complaint : Complaint, Accepts (do
        complain head.location complaint
        return Node.call loc none (← operands)) ws p := by
    intro complaint
    refine .after complain_tolerant .report ?_
    rintro _ ws₁ hgrows -
    exact .before (h ws₁ hgrows) fun _ => .pure _
  have haccepts := h ws (.refl ws)
  refine .get ?_
  cases hresolve : ws.symbols.resolve head.text with
  | none => exact hunknown _
  | some id =>
    obtain ⟨symbol, hsymbol⟩ := sound.resolve hresolve
    refine .after symbolAt_tolerant (symbolAt_does hsymbol) ?_
    rintro symbol ws' - ⟨rfl, rfl⟩
    split
    · rename_i hkind
      obtain ⟨type, -, htype, -⟩ :=
        (sound.symbol hsymbol).exists_type (by simp [hkind, SymbolKind.sort])
      have hpromise : Does (promised symbol.type) ws' fun _ ws'' => ws'' = ws' :=
        .promised htype rfl
      refine .after (.promised _) hpromise ?_
      rintro target ws'' - rfl
      exact .before haccepts fun _ => castNode_tolerant
    · exact .before haccepts fun _ => .pure _
    · exact hunknown _

lemma variableDecl_accepts {loc : Location} {items : List Datum} {closing : Token}
    (h : ∀ datum ∈ items, datum.Proper) (sound : ws.toTables.Sound)
    (hplace : PlaceSound place ws) : Accepts (variableDecl place loc items closing) ws
      (Datum.IsVariable items ∧ closing.kind = .rparen) := by
  match items with
  | [] => exact Accepts.refuse.iff (by simp [Datum.IsVariable])
  | [typeDatum] =>
    refine (Accepts.bind (typeExpr_accepts typeDatum (h typeDatum (by simp)) sound)
      (typeExpr_does typeDatum sound) fun _ _ _ _ => .refuse).iff ?_
    simp [Datum.IsVariable]
  | typeDatum :: nameDatum :: rest =>
    have hcondition : (typeDatum.IsType ∧ nameDatum.IsToken .ident ∧ rest = [] ∧
        closing.kind = .rparen) ↔
        Datum.IsVariable (typeDatum :: nameDatum :: rest) ∧ closing.kind = .rparen := by
      cases rest <;> simp [Datum.IsVariable, and_assoc]
    refine Accepts.iff ?_ hcondition
    refine .bind (typeExpr_accepts typeDatum (h typeDatum (by simp)) sound)
      (typeExpr_does typeDatum sound) ?_
    rintro type ws₁ hgrows ⟨htype, -⟩
    refine .bind expectAtom_accepts expectAtom_does ?_
    rintro name ws' - rfl
    refine .after declareVariable_tolerant
      (declareVariable_does (hgrows.sound sound) (hplace.mono hgrows) htype) ?_
    rintro id? ws₂ - -
    exact .before expectEnd_accepts fun _ => .pure _

lemma definitionDecl_accepts {loc : Location} {items : List Datum} {closing : Token}
    (h : ∀ datum ∈ items, datum.Proper) (sound : ws.toTables.Sound) :
    Accepts (definitionDecl loc items closing) ws
      (Datum.IsDefinition items ∧ closing.kind = .rparen) := by
  match items with
  | [] => exact Accepts.refuse.iff (by simp [Datum.IsDefinition])
  | [nameDatum] =>
    refine (Accepts.bind expectAtom_accepts expectAtom_does fun _ _ _ _ => .refuse).iff ?_
    simp [Datum.IsDefinition]
  | nameDatum :: typeDatum :: rest =>
    have hcondition : (nameDatum.IsToken .ident ∧ typeDatum.IsType ∧ rest = [] ∧
        closing.kind = .rparen) ↔
        Datum.IsDefinition (nameDatum :: typeDatum :: rest) ∧ closing.kind = .rparen := by
      cases rest <;> simp [Datum.IsDefinition, and_assoc]
    refine Accepts.iff ?_ hcondition
    refine .bind expectAtom_accepts expectAtom_does ?_
    rintro name ws' - rfl
    refine .bind (typeExpr_accepts typeDatum (h typeDatum (by simp)) sound)
      (typeExpr_does typeDatum sound) ?_
    rintro target ws₁ hgrows ⟨htarget, -⟩
    refine .after registerType_tolerant (registerType_does (fun hsound =>
      TypeTable.registerDefinition_ok hsound name.text htarget) (hgrows.sound sound)) ?_
    rintro defined ws₂ hgrows₂ ⟨hdefined, -, -⟩
    refine .after declareDefinition_tolerant
      (declareDefinition_does (hgrows₂.sound (hgrows.sound sound)) hdefined) ?_
    rintro id? ws₃ - -
    exact .before expectEnd_accepts fun _ => .pure _

/-- What follows the name of a function that is defined elsewhere. -/
def Prototype (closing : Token) : List Datum → Prop
  | [] => closing.kind = .rparen
  | [params, type] => params.IsParams ∧ type.IsType ∧ closing.kind = .rparen
  | _ => False

/-- The end of the declaration of a function that is defined elsewhere. -/
lemma recordExternal_accepts {id? : Option SymbolId} {name closing : Token}
    {params : List (Token × TypeId)} {result : TypeId} {prototyped : Bool} {rest : List Datum}
    {node : Node} (hid : ∀ f ∈ id?, ws.symbols.HasFunction name.text f)
    (hparams : ∀ param ∈ params, ws.types.Has param.2) (hresult : ws.types.Has result) :
    Accepts (do
      setSignature id? name params result prototyped true
      expectEnd rest closing
      return node) ws (rest = [] ∧ closing.kind = .rparen) := by
  refine .after setSignature_tolerant (setSignature_read .topLevel hid hparams hresult) ?_
  rintro _ ws' - -
  exact .before expectEnd_accepts fun _ => .pure _

lemma externalDecl_accepts {loc : Location} {items : List Datum} {closing : Token}
    (h : ∀ datum ∈ items, datum.Proper) (sound : ws.toTables.Sound) :
    Accepts (externalDecl loc items closing) ws
      (Datum.IsExternal items ∧ closing.kind = .rparen) := by
  match items with
  | [] => exact Accepts.refuse.iff (by simp [Datum.IsExternal])
  | nameDatum :: afterName =>
    have hcondition : (nameDatum.IsToken .ident ∧ Prototype closing afterName) ↔
        Datum.IsExternal (nameDatum :: afterName) ∧ closing.kind = .rparen := by
      match afterName with
      | [] | [_] | _ :: _ :: _ :: _ => simp [Datum.IsExternal, Prototype]
      | [_, _] => simp [Datum.IsExternal, Prototype, and_assoc]
    refine Accepts.iff ?_ hcondition
    refine .bind expectAtom_accepts expectAtom_does ?_
    rintro name ws' - rfl
    refine .after declare_tolerant (declareFunction_does sound) ?_
    rintro id? ws₁ hgrows₁ hdeclared
    have sound₁ := hgrows₁.sound sound
    match afterName with
    | [.list opening inner close] =>
      refine (Accepts.bind (params_accepts (h _ (by simp)) sound₁) (params_does sound₁)
        fun _ _ _ _ => .refuse).iff ?_
      simp [Prototype]
    | .list opening inner close :: typeDatum :: rest =>
      have hrest : ((Datum.list opening inner close).IsParams ∧ typeDatum.IsType ∧ rest = [] ∧
          closing.kind = .rparen) ↔
          Prototype closing (.list opening inner close :: typeDatum :: rest) := by
        cases rest <;> simp [Prototype]
      refine Accepts.iff ?_ hrest
      refine .bind (params_accepts (h _ (by simp)) sound₁) (params_does sound₁) ?_
      rintro bound ws₂ hgrows₂ ⟨hbound, -⟩
      refine .bind (typeExpr_accepts typeDatum (h typeDatum (by simp)) (hgrows₂.sound sound₁))
        (typeExpr_does typeDatum (hgrows₂.sound sound₁)) ?_
      rintro result ws₃ hgrows₃ ⟨hresult, -⟩
      exact recordExternal_accepts
        (fun f hf => (hdeclared.hasFunction f hf).mono (hgrows₂.trans hgrows₃).symbols)
        (fun param hparam => hgrows₃.types.has (hbound param hparam)) hresult
    | [] =>
      -- without parameters the list has to end behind the name
      refine (recordExternal_accepts hdeclared.hasFunction (by simp)
        (sound₁.types.has_builtin .void)).iff ?_
      simp [Prototype]
    | .atom token :: rest =>
      refine (recordExternal_accepts hdeclared.hasFunction (by simp)
        (sound₁.types.has_builtin .void)).iff ?_
      match rest with
      | [] | _ :: _ :: _ => simp [Prototype]
      | [_] => simp [Prototype, Datum.IsParams]

end Reading

end ParenC
