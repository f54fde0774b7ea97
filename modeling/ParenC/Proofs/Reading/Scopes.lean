/-
Scopes are closed again on every way out of reading.

Whether a program is read or refused, afterwards the global scope alone is open, with just the
names of which the journal tells that they were declared while no other scope was.  The text says
which ones these are: the names of constructs outside of all blocks, branches, loops and
functions, up to where reading stopped.  The same holds of every construct inside the program and
of the scope in which it stands.
-/
import ParenC.Proofs.Reading.Making
import ParenC.Proofs.Scoping

namespace ParenC

/-- A name means what it means in the global scope if no other one is open. -/
lemma SymbolTable.resolve_eq_lookup {symbols : SymbolTable} (h : symbols.enclosing = [])
    (name : String) : symbols.resolve name = symbols.scope.lookup name := by
  simp only [resolve, scopes, h, List.findSome?_cons, List.findSome?_nil]
  cases symbols.scope.lookup name <;> rfl

namespace Reading

open Datum

variable {place : Place} {ws ws' : Workspace} {items : List Datum} {error : CompileError}

/-! ## Every construct -/

/-- What a construct leaves behind on its way out, where `names` are those that it declares for the
scope in which it stands, and `events` what was noted meanwhile. -/
structure Restored (ws : Workspace) (events : List Event) (names : List String)
    (ws' : Workspace) : Prop extends Noted ws events ws', Fills ws events names ws' where
  /-- The scopes around the current one are those of before. -/
  enclosing : ws'.symbols.enclosing = ws.symbols.enclosing
  /-- Types stay under their numbers. -/
  types : ws'.types.Extends ws.types
  /-- Symbols stay under theirs. -/
  extends_symbols : ws'.symbols.Extends ws.symbols

lemma Restored.of_leads {names : List String} (hleads : Leads ws ws') (hgives : Gives ws names ws') :
    ∃ events, Restored ws events names ws' := by
  obtain ⟨changes, hchanges⟩ := hleads.history
  obtain ⟨events, hfills⟩ := hgives
  obtain ⟨events', hnoted⟩ := hchanges.noted
  -- both tell what the journal has more than before
  obtain rfl : events' = events :=
    List.append_cancel_left (hnoted.journal.symm.trans hfills.journal)
  exact ⟨events', { hnoted, hfills with
    enclosing := hleads.enclosing
    types := hleads.keeps.types
    extends_symbols := hleads.symbols }⟩

/-- A construct that is refused has declared a part of its names. -/
lemma form_refused {datum : Datum} (hrun : form place datum ws = .error (.error error) ws') :
    Leads ws ws' ∧ ∃ part, part <+: datum.exposed ∧ Gives ws part ws' := by
  have hrecords : Records (form place datum) ws _ _ := form_records datum
  rwa [Records, hrun] at hrecords

/-! ## Programs -/

/-- Reading the data between the ends of a text is refused, after the names were declared. -/
inductive Refused (top : Remainder) (ws : Workspace) (error : CompileError) :
    List String → Workspace → Prop
  /-- All of them were read, but the text does not end behind them. -/
  | behind {nodes : List Node} {ws' : Workspace} (hread : topForms top.items ws = .ok nodes ws')
      (hend : top.closing.kind ≠ .eof) : Refused top ws error (exposedAll top.items) ws'
  /-- The ones `before` were read, and the next one is refused on the way. -/
  | within {before after : List Datum} {item : Datum} {nodes : List Node} {part : List String}
      {mid ws' : Workspace} (hitems : top.items = before ++ item :: after)
      (hread : topForms before ws = .ok nodes mid)
      (hrefused : form .topLevel item mid = .error (.error error) ws')
      (hpart : part <+: item.exposed) : Refused top ws error (exposedAll before ++ part) ws'

/-- Where several data are refused, one of them is. -/
lemma topForms_refused (hrun : topForms items ws = .error (.error error) ws') :
    ∃ before item after nodes mid, items = before ++ item :: after ∧
      topForms before ws = .ok nodes mid ∧
      form .topLevel item mid = .error (.error error) ws' := by
  induction items generalizing ws with
  | nil => cases hrun
  | cons item rest ih =>
    simp only [topForms, bind, EStateM.bind] at hrun
    rcases hform : form .topLevel item ws with ⟨node, mid⟩ | ⟨failure, mid⟩
    · rw [hform] at hrun
      dsimp only at hrun
      rcases hrest : topForms rest mid with ⟨nodes, ws₁⟩ | ⟨failure, ws₁⟩
      · rw [hrest] at hrun
        cases hrun
      · rw [hrest] at hrun
        cases hrun
        obtain ⟨before, item', after, nodes, mid', rfl, hbefore, hitem⟩ := ih hrest
        refine ⟨item :: before, item', after, node :: nodes, mid', rfl, ?_, hitem⟩
        simp [topForms, bind, EStateM.bind, hform, hbefore, pure, EStateM.pure]
    · rw [hform] at hrun
      cases hrun
      exact ⟨[], item, rest, [], ws, rfl, rfl, hform⟩

/-- The action refuses nothing. -/
def NeverRefuses {α : Type} (act : CompileM α) : Prop :=
  ∀ ws error ws', act ws ≠ .error (.error error) ws'

namespace NeverRefuses

variable {α β : Type}

lemma bind {act : CompileM α} {next : α → CompileM β} (h : NeverRefuses act)
    (hnext : ∀ a, NeverRefuses (next a)) : NeverRefuses (act >>= next) := by
  intro ws error ws' hrun
  rcases CompileM.bind_eq_error.mp hrun with hact | ⟨a, ws₁, -, hrest⟩
  · exact h ws error ws' hact
  · exact hnext a ws₁ error ws' hrest

lemma of_ok {act : CompileM α} (h : ∀ ws, ∃ a ws', act ws = .ok a ws') : NeverRefuses act := by
  intro ws error ws' hrun
  obtain ⟨a, ws₁, hact⟩ := h ws
  cases hact.symm.trans hrun

lemma get : NeverRefuses (MonadState.get : CompileM Workspace) := of_ok fun ws => ⟨ws, ws, rfl⟩

lemma promised (x : Except Defect α) : NeverRefuses (CompileM.promised x) := by
  cases x with
  | error defect =>
    intro ws error ws' hrun
    cases hrun
  | ok a => exact of_ok fun ws => ⟨a, ws, rfl⟩

/-- What `program` does behind the end of the text. -/
lemma finish (items : List Node) : NeverRefuses (do
    let ws ← MonadState.get
    if ws.symbols.depth ≠ 1 then throw (.defect .unbalancedScopes)
    CompileM.log (.parsed items.length ws.symbols.size ws.types.size)
    return (⟨items⟩ : Program)) := by
  refine get.bind fun ws => ?_
  split
  · intro ws' error ws'' hrun
    cases hrun
  · exact of_ok fun ws' => ⟨_, _, rfl⟩

end NeverRefuses

/-- A program is refused while its constructs are read, or because it does not end behind them. -/
lemma program_refused {tokens : List Token} {top : Remainder}
    (htop : top = Remainder.ofStream (.ofTokens tokens))
    (hrun : program tokens ws = .error (.error error) ws') :
    topForms top.items ws = .error (.error error) ws' ∨
      top.closing.kind ≠ .eof ∧ ∃ nodes, topForms top.items ws = .ok nodes ws' := by
  subst htop
  unfold program at hrun
  rcases CompileM.bind_eq_error.mp hrun with htop | ⟨nodes, mid, htop, hrest⟩
  · exact Or.inl htop
  · dsimp only at hrest
    split at hrest
    · rename_i hend
      cases hrest
      exact Or.inr ⟨hend, nodes, htop⟩
    · refine absurd hrest (NeverRefuses.get.bind (fun ws => ?_) mid error ws')
      refine (NeverRefuses.promised _).bind fun loc? => ?_
      split
      · split
        · exact (NeverRefuses.of_ok fun ws => ⟨_, _, rfl⟩).bind fun _ => .finish nodes
        · exact .finish nodes
      · exact .finish nodes

/-- What was declared before a refusal. -/
lemma refused_gives {tokens : List Token} {top : Remainder}
    (htop : top = Remainder.ofStream (.ofTokens tokens))
    (hrun : program tokens ws = .error (.error error) ws') :
    Leads ws ws' ∧ ∃ names, Refused top ws error names ws' ∧ Gives ws names ws' := by
  rcases program_refused htop hrun with hitems | ⟨hend, nodes, hitems⟩
  · obtain ⟨before, item, after, nodes, mid, hsplit, hbefore, hitem⟩ := topForms_refused hitems
    obtain ⟨hleads, hgives, -⟩ := (topForms_records before).run hbefore
    obtain ⟨hleads', part, hpart, hgives'⟩ := form_refused hitem
    exact ⟨hleads.trans hleads', _, .within hsplit hbefore hitem hpart,
      hgives.trans hgives' hleads.enclosing⟩
  · obtain ⟨hleads, hgives, -⟩ := (topForms_records top.items).run hitems
    exact ⟨hleads, _, .behind hitems hend, hgives⟩

/-- From fresh tables, the global scope is as the journal tells. -/
lemma Restored.global {events : List Event} {names : List String}
    (h : Restored ws events names ws') (hfresh : ws.toTables = {}) :
    ws'.symbols.enclosing = [] ∧ (declaredAt 0 events).map Prod.fst = names.eraseDups ∧
      ∀ {name id}, ws'.symbols.resolve name = some id ↔ (name, id) ∈ declaredAt 0 events := by
  have hglobal : ws.symbols.enclosing = [] := congrArg (·.symbols.enclosing) hfresh
  have hempty : ws.symbols.scope = [] := congrArg (·.symbols.scope) hfresh
  have hnames := h.names
  have hscope := h.scope
  rw [hglobal, hempty, List.length_nil] at hnames hscope
  rw [List.append_nil] at hscope
  rw [List.map_nil, newNames_known_nil] at hnames
  refine ⟨h.enclosing.trans hglobal, hnames, ?_⟩
  intro name id
  have hnodup : (ws'.symbols.scope.map Prod.fst).Nodup := by
    rw [hscope, List.map_reverse, List.Nodup, List.pairwise_reverse, hnames]
    exact (nodup_eraseDups names).imp Ne.symm
  rw [SymbolTable.resolve_eq_lookup (h.enclosing.trans hglobal), Scoping.lookup_eq_some_iff hnodup,
    hscope, List.mem_reverse]

end Reading

open Reading Datum

/-- Reading from fresh tables ends with a program or with a refusal, never by closing the global
scope.  On either way out the global scope alone is open, and a name means what it was declared as
while no other scope was, for the first time: with a program, all names that the text declares
there are such, and with a refusal, those up to where reading stopped.

Every construct inside, wherever it stands and whatever was read before, restores the scopes in the
same way, and neither takes types or symbols away nor gives them other numbers. -/
theorem scopes_restored (tokens : List Token) {ws : Workspace} (hfresh : ws.toTables = {}) :
    (∃ ws' events names,
      ((∃ program, Reading.program tokens ws = .ok program ws' ∧
          names = exposedAll (Remainder.ofStream (.ofTokens tokens)).items) ∨
        ∃ error, Reading.program tokens ws = .error (.error error) ws' ∧
          Refused (Remainder.ofStream (.ofTokens tokens)) ws error names ws') ∧
      Restored ws events names ws' ∧ ws'.symbols.enclosing = [] ∧
      (declaredAt 0 events).map Prod.fst = names.eraseDups ∧
      ∀ {name id}, ws'.symbols.resolve name = some id ↔ (name, id) ∈ declaredAt 0 events) ∧
    ∀ place datum ws₁,
      (∀ node ws₂, form place datum ws₁ = .ok node ws₂ →
        ∃ events, Restored ws₁ events datum.exposed ws₂) ∧
      ∀ error ws₂, form place datum ws₁ = .error (.error error) ws₂ →
        ∃ events names, names <+: datum.exposed ∧ Restored ws₁ events names ws₂ := by
  refine ⟨?_, ?_⟩
  · have sound : ws.toTables.Sound := hfresh ▸ Tables.sound_initial
    have hglobal : ws.symbols.enclosing = [] := congrArg (·.symbols.enclosing) hfresh
    have hdoes := program_does tokens sound hglobal
    unfold Does at hdoes
    rcases hrun : Reading.program tokens ws with ⟨program, ws'⟩ | ⟨error | defect, ws'⟩
    · obtain ⟨hleads, hgives, -⟩ := (program_records tokens).run hrun
      obtain ⟨events, hrestored⟩ := Restored.of_leads hleads hgives
      exact ⟨ws', events, _, Or.inl ⟨program, rfl, rfl⟩, hrestored, hrestored.global hfresh⟩
    · obtain ⟨hleads, names, hrefused, hgives⟩ := refused_gives rfl hrun
      obtain ⟨events, hrestored⟩ := Restored.of_leads hleads hgives
      exact ⟨ws', events, names, Or.inr ⟨error, rfl, hrefused⟩, hrestored, hrestored.global hfresh⟩
    · rw [hrun] at hdoes
      exact hdoes.elim
  · intro place datum ws₁
    constructor
    · intro node ws₂ hrun
      obtain ⟨hleads, hgives, -⟩ := (form_records datum).run hrun
      exact Restored.of_leads hleads hgives
    · intro error ws₂ hrun
      obtain ⟨hleads, part, hpart, hgives⟩ := form_refused hrun
      obtain ⟨events, hrestored⟩ := Restored.of_leads hleads hgives
      exact ⟨events, part, hpart, hrestored⟩

/-- A text that breaks off inside of a block, in a loop, in a function.  Of the names, `x` and `f`
are left, which were declared outside of them. -/
theorem scopes_restored_refused : ∃ tokens ws ws' events names error,
    CompileM.tokenize "(let u64 x) (defun f (p: u64) void (while true ((let u64 y) (let u64"
      (.initial "refused") = .ok tokens ws ∧ ws.toTables = {} ∧
    Reading.program tokens ws = .error (.error error) ws' ∧
    Refused (Remainder.ofStream (.ofTokens tokens)) ws error names ws' ∧
    Restored ws events names ws' ∧ declaredAt 0 events = [("x", ⟨0⟩), ("f", ⟨1⟩)] ∧
    ws'.symbols.size = 4 ∧ ws'.symbols.resolve "y" = none := by
  let text := "(let u64 x) (defun f (p: u64) void (while true ((let u64 y) (let u64"
  have hruns : (match CompileM.tokenize text (.initial "refused") with
      | .ok tokens ws =>
        match Reading.program tokens ws with
        | .error (.error _) ws' =>
          declaredAt 0 ws.journal.events.toList = [] &&
            declaredAt 0 ws'.journal.events.toList = [("x", ⟨0⟩), ("f", ⟨1⟩)] &&
            ws'.symbols.size = 4 && ws'.symbols.resolve "y" = none
        | _ => false
      | _ => false) = true := by
    decide +kernel
  split at hruns
  · rename_i tokens ws htokens
    obtain ⟨body, loc, -, htables, -⟩ := tokenize_eq_ok htokens
    obtain ⟨⟨ws', events, names, hends, hrestored, -⟩, -⟩ := scopes_restored tokens htables
    rcases hends with ⟨program, hrun, -⟩ | ⟨error, hrun, hrefused⟩
    · simp [hrun] at hruns
    · simp only [hrun, Bool.and_eq_true, decide_eq_true_eq, hrestored.journal,
        declaredAt_append] at hruns
      obtain ⟨⟨⟨hbefore, hdeclared⟩, hsize⟩, hresolve⟩ := hruns
      rw [hbefore, List.nil_append] at hdeclared
      exact ⟨tokens, ws, ws', events, names, error, htokens, htables, hrun, hrefused, hrestored,
        hdeclared, hsize, hresolve⟩
  · cases hruns

end ParenC
