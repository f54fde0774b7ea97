/-
What reading leaves behind on every way out.

`Records` is a judgement on actions that also speaks of the runs that are refused.  Whatever
happens, the workspace has a history, the scopes around the current one are those of before, and
the current scope has just the names that the journal tells of: those that the text declares for
it, up to where reading stopped.  A run that succeeds has declared all of them, and establishes a
postcondition besides.

Which names the text declares can be read off the data: `Datum.exposed` collects them, and passes
over the constructs that have a scope of their own.
-/
import ParenC.Proofs.History

namespace ParenC

/-! ## Names that data declare -/

namespace Datum

open Reading

/-- The name at the given place of a list. -/
def nameAt (i : Nat) (items : List Datum) : List String :=
  match items[i]? with
  | some (.atom token) => [token.text]
  | _ => []

mutual

/-- The names that a datum declares in the scope in which it stands. -/
def exposed (datum : Datum) : List String :=
  match datum with
  | .atom _ => []
  | .list _ items _ => exposedBy items
termination_by structural datum

/-- The names that a list declares in the scope in which it stands.  A function exposes its own
name, a condition or a loop what its condition declares, and a block nothing. -/
def exposedBy (items : List Datum) : List String :=
  match items with
  | .atom head :: rest =>
    match head.kind with
    | .operator | .ident | .typeName => exposedAll rest
    | .keyword =>
      match Construct.ofKeyword? head.text with
      | some .binding => nameAt 1 rest
      | some .definition | some .external | some .function => nameAt 0 rest
      | some .conditional | some .whileLoop | some .result => exposedFirst rest
      | _ => []
    | _ => []
  | _ => []
termination_by structural items

/-- The names that the first of several data declares. -/
def exposedFirst (items : List Datum) : List String :=
  match items with
  | [] => []
  | datum :: _ => datum.exposed
termination_by structural items

/-- The names that several data declare. -/
def exposedAll (items : List Datum) : List String :=
  match items with
  | [] => []
  | datum :: rest => datum.exposed ++ exposedAll rest
termination_by structural items

end

end Datum

namespace Reading

open CompileM Workspace

variable {α β : Type} {ws ws₁ ws₂ ws' : Workspace} {names names' : List String}

/-! ## The judgement -/

/-- There is a history from one workspace to the other, after which the scopes around the current
one are the same. -/
structure Leads (ws ws' : Workspace) : Prop where
  /-- What happened. -/
  history : ∃ changes, Evolves ws changes ws'
  /-- The scopes around the current one stay. -/
  enclosing : ws'.symbols.enclosing = ws.symbols.enclosing

namespace Leads

lemma refl (ws : Workspace) : Leads ws ws := ⟨⟨[], .nil⟩, rfl⟩

lemma trans (h₁ : Leads ws ws₁) (h₂ : Leads ws₁ ws₂) : Leads ws ws₂ := by
  obtain ⟨xs, hxs⟩ := h₁.history
  obtain ⟨ys, hys⟩ := h₂.history
  exact ⟨⟨xs ++ ys, hxs.append hys⟩, h₂.enclosing.trans h₁.enclosing⟩

lemma one {change : Change} (hstep : Step ws change ws')
    (henclosing : ws'.symbols.enclosing = ws.symbols.enclosing) : Leads ws ws' :=
  ⟨⟨[change], .one hstep⟩, henclosing⟩

lemma keeps (h : Leads ws ws') : ws'.toTables.Keeps ws.toTables := by
  obtain ⟨changes, hchanges⟩ := h.history
  exact hchanges.keeps

lemma symbols (h : Leads ws ws') : ws'.symbols.Extends ws.symbols := by
  obtain ⟨changes, hchanges⟩ := h.history
  exact hchanges.symbols_extends

lemma kept (h : Leads ws ws') : ws.Kept ws' := ⟨h.keeps.types, h.symbols, h.enclosing⟩

lemma diagnostics_le (h : Leads ws ws') :
    ws.journal.diagnostics.size ≤ ws'.journal.diagnostics.size := by
  obtain ⟨changes, hchanges⟩ := h.history
  exact hchanges.diagnostics_le

end Leads

/-- The events since then tell what the current scope was given: those of the names that it did not
have. -/
structure Fills (ws : Workspace) (events : List Event) (names : List String) (ws' : Workspace) :
    Prop where
  /-- The journal goes on with the events. -/
  journal : ws'.journal.events.toList = ws.journal.events.toList ++ events
  /-- Nothing was declared in a scope around the current one. -/
  inside : ∀ declaration ∈ declarationsIn events,
    ws.symbols.enclosing.length ≤ declaration.depth
  /-- What was declared in the current scope came in front of what was there. -/
  scope : ws'.symbols.scope =
    (declaredAt ws.symbols.enclosing.length events).reverse ++ ws.symbols.scope
  /-- A name is declared once. -/
  names : (declaredAt ws.symbols.enclosing.length events).map Prod.fst =
    newNames (ws.symbols.scope.map Prod.fst) names

namespace Fills

variable {events events' : List Event}

/-- Nothing was declared. -/
lemma of_none (hscope : ws'.symbols.scope = ws.symbols.scope)
    (hjournal : ws'.journal.events.toList = ws.journal.events.toList ++ events)
    (hnone : declarationsIn events = []) : Fills ws events [] ws' where
  journal := hjournal
  inside := by simp [hnone]
  scope := by rw [declaredAt_of_none hnone, hscope, List.reverse_nil, List.nil_append]
  names := by rw [declaredAt_of_none hnone, newNames_nil, List.map_nil]

lemma of_journal (hscope : ws'.symbols.scope = ws.symbols.scope)
    (hjournal : ws'.journal = ws.journal) : Fills ws [] [] ws' :=
  of_none hscope (by rw [hjournal, List.append_nil]) rfl

lemma trans (h₁ : Fills ws events names ws₁) (h₂ : Fills ws₁ events' names' ws')
    (henclosing : ws₁.symbols.enclosing = ws.symbols.enclosing) :
    Fills ws (events ++ events') (names ++ names') ws' := by
  obtain ⟨hjournal₂, hinside₂, hscope₂, hnames₂⟩ := h₂
  rw [henclosing] at hinside₂ hscope₂ hnames₂
  refine ⟨?_, ?_, ?_, ?_⟩
  · rw [hjournal₂, h₁.journal, List.append_assoc]
  · intro declaration hdeclaration
    rw [declarationsIn_append, List.mem_append] at hdeclaration
    exact hdeclaration.elim (h₁.inside declaration) (hinside₂ declaration)
  · rw [hscope₂, h₁.scope, declaredAt_append, List.reverse_append, List.append_assoc]
  · -- what the first part declared is known to the second one
    have hknown : ∀ name, name ∈ ws₁.symbols.scope.map Prod.fst ↔
        name ∈ ws.symbols.scope.map Prod.fst ∨
          name ∈ newNames (ws.symbols.scope.map Prod.fst) names := by
      intro name
      rw [← h₁.names, h₁.scope, List.map_append, List.map_reverse, List.mem_append,
        List.mem_reverse, or_comm]
    rw [declaredAt_append, List.map_append, h₁.names, hnames₂, newNames_append hknown]

/-- A scope of its own does not show. -/
lemma of_opened {inner : Workspace} (h : Fills (opened ws) events names inner) :
    Fills ws events [] (rescoped inner ws) := by
  have hdeeper : ∀ declaration ∈ declarationsIn events,
      ws.symbols.enclosing.length < declaration.depth := h.inside
  have hnone := declaredAt_of_deeper hdeeper
  exact ⟨h.journal, fun declaration hdeclaration => Nat.le_of_lt (hdeeper _ hdeclaration),
    by simp [hnone, rescoped], by simp [hnone]⟩

end Fills

/-- The current scope was given those of the names that it did not have. -/
def Gives (ws : Workspace) (names : List String) (ws' : Workspace) : Prop :=
  ∃ events, Fills ws events names ws'

namespace Gives

lemma refl (ws : Workspace) : Gives ws [] ws := ⟨[], .of_journal rfl rfl⟩

lemma trans (h₁ : Gives ws names ws₁) (h₂ : Gives ws₁ names' ws')
    (henclosing : ws₁.symbols.enclosing = ws.symbols.enclosing) :
    Gives ws (names ++ names') ws' := by
  obtain ⟨events, hevents⟩ := h₁
  obtain ⟨events', hevents'⟩ := h₂
  exact ⟨events ++ events', hevents.trans hevents' henclosing⟩

/-- Nothing was declared. -/
lemma of_journal (hscope : ws'.symbols.scope = ws.symbols.scope)
    (hjournal : ws'.journal = ws.journal) : Gives ws [] ws' :=
  ⟨[], .of_journal hscope hjournal⟩

lemma report {loc : Location} {message : String} :
    Gives ws [] { ws with journal := ws.journal.report loc message } :=
  ⟨[.diagnosed loc message],
    .of_none rfl (by simp [Journal.report, Journal.log]) rfl⟩

lemma log {event : Event} (hevent : event.declaration? = none) :
    Gives ws [] { ws with journal := ws.journal.log event } :=
  ⟨[event], .of_none rfl (by simp [Journal.log]) (by simp [declarationsIn_singleton, hevent])⟩

/-- The scope has the name already. -/
lemma known {name : String} {id : SymbolId} (hlookup : ws.symbols.scope.lookup name = some id)
    (h : Gives ws [] ws') : Gives ws [name] ws' := by
  obtain ⟨events, hevents⟩ := h
  have hmem : name ∈ ws.symbols.scope.map Prod.fst := by
    obtain ⟨before, after, hscope, -⟩ := List.lookup_eq_some_iff.mp hlookup
    rw [hscope]
    simp
  refine ⟨events, hevents.journal, hevents.inside, hevents.scope, ?_⟩
  rw [hevents.names, newNames_nil, newNames_singleton_of_mem hmem]

/-- The scope gets a name that it did not have. -/
lemma declare {symbol : Symbol} (hnew : ws.symbols.scope.lookup symbol.name = none) :
    Gives ws [symbol.name] { ws with
      symbols := ws.symbols.add symbol
      journal := ws.journal.log (.declared symbol.kind.sort symbol.name ⟨ws.symbols.size⟩
        ws.symbols.enclosing.length) } := by
  let event := Event.declared symbol.kind.sort symbol.name ⟨ws.symbols.size⟩
    ws.symbols.enclosing.length
  have hevent : declarationsIn [event] = [⟨symbol.kind.sort, symbol.name, ⟨ws.symbols.size⟩,
    ws.symbols.enclosing.length⟩] := rfl
  have hentry : declaredAt ws.symbols.enclosing.length [event] =
      [(symbol.name, ⟨ws.symbols.size⟩)] := by
    simp [declaredAt, hevent]
  have hmem : symbol.name ∉ ws.symbols.scope.map Prod.fst := by
    intro hmem
    obtain ⟨entry, hentry, hname⟩ := List.mem_map.mp hmem
    simpa [hname] using List.lookup_eq_none_iff.mp hnew entry hentry
  refine ⟨[event], by simp [Journal.log, event], by simp [hevent], ?_, ?_⟩
  · simp [hentry, SymbolTable.add]
  · rw [hentry, newNames_singleton_of_not_mem hmem]
    rfl

end Gives

/-- On every way out but a defect, the run of the action on `ws` has a history, and the current
scope was given the first ones of `names`; if it succeeds, it was given all of them, and `post`
holds. -/
def Records (act : CompileM α) (ws : Workspace) (names : List String)
    (post : α → Workspace → Prop) : Prop :=
  match act ws with
  | .ok a ws' => Leads ws ws' ∧ Gives ws names ws' ∧ post a ws'
  | .error (.error _) ws' => Leads ws ws' ∧ ∃ front, front <+: names ∧ Gives ws front ws'
  | .error (.defect _) _ => True

namespace Records

variable {act : CompileM α} {next : α → CompileM β} {post : α → Workspace → Prop}
  {post' : β → Workspace → Prop}

lemma of_ok {a : α} (hrun : act ws = .ok a ws') (hleads : Leads ws ws')
    (hgives : Gives ws names ws') (hpost : post a ws') : Records act ws names post := by
  rw [Records, hrun]
  exact ⟨hleads, hgives, hpost⟩

lemma pure {a : α} (h : post a ws) : Records (Pure.pure a) ws [] post :=
  of_ok rfl (.refl ws) (.refl ws) h

lemma refuse {loc : Location} {refusal : Refusal} :
    Records (CompileM.refuse loc refusal) ws names post :=
  ⟨.refl ws, [], List.nil_prefix, .refl ws⟩

/-- What is known of a run that succeeded. -/
lemma run {a : α} (h : Records act ws names post) (hrun : act ws = .ok a ws') :
    Leads ws ws' ∧ Gives ws names ws' ∧ post a ws' := by
  rwa [Records, hrun] at h

/-- One action after the other. -/
lemma bind (h : Records act ws names post)
    (hnext : ∀ a ws', Leads ws ws' → post a ws' → Records (next a) ws' names' post') :
    Records (act >>= next) ws (names ++ names') post' := by
  unfold Records at h ⊢
  simp only [Bind.bind, EStateM.bind]
  rcases hact : act ws with ⟨a, ws₁⟩ | ⟨error | defect, ws₁⟩
  · rw [hact] at h
    obtain ⟨hleads, hgives, hpost⟩ := h
    have h' := hnext a ws₁ hleads hpost
    unfold Records at h'
    rcases hrun : next a ws₁ with ⟨b, ws₂⟩ | ⟨error | defect, ws₂⟩
    · rw [hrun] at h'
      obtain ⟨hleads', hgives', hpost'⟩ := h'
      simp only [hrun]
      exact ⟨hleads.trans hleads', hgives.trans hgives' hleads.enclosing, hpost'⟩
    · -- refused after the first action, which has declared its names already
      rw [hrun] at h'
      obtain ⟨hleads', front, hfront, hgives'⟩ := h'
      simp only [hrun]
      exact ⟨hleads.trans hleads', names ++ front, (List.prefix_append_right_inj names).mpr hfront,
        hgives.trans hgives' hleads.enclosing⟩
    · simp only [hrun]
  · rw [hact] at h
    obtain ⟨hleads, front, hfront, hgives⟩ := h
    exact ⟨hleads, front, hfront.trans (List.prefix_append names names'), hgives⟩
  · trivial

/-- Going on after an action that declares nothing. -/
lemma skip (h : Records act ws [] post)
    (hnext : ∀ a ws', Leads ws ws' → post a ws' → Records (next a) ws' names post') :
    Records (act >>= next) ws names post' :=
  h.bind hnext

/-- Going on to an action that declares nothing. -/
lemma last (h : Records act ws names post)
    (hnext : ∀ a ws', Leads ws ws' → post a ws' → Records (next a) ws' [] post') :
    Records (act >>= next) ws names post' := by
  have := h.bind hnext
  rwa [List.append_nil] at this

lemma imp {post' : α → Workspace → Prop} (h : Records act ws names post)
    (himp : ∀ a ws', Leads ws ws' → post a ws' → post' a ws') : Records act ws names post' := by
  unfold Records at h ⊢
  split at h
  · exact ⟨h.1, h.2.1, himp _ _ h.1 h.2.2⟩
  · exact h
  · trivial

/-- Looking at the workspace changes nothing. -/
lemma get {next : Workspace → CompileM β} (h : Records (next ws) ws names post') :
    Records (MonadState.get >>= next) ws names post' := h

lemma promised_bind {x : Except Defect α} (h : ∀ a, x = .ok a → Records (next a) ws names post') :
    Records (CompileM.promised x >>= next) ws names post' := by
  cases x with
  | error defect => trivial
  | ok a => exact h a rfl

lemma promised {x : Except Defect α} (h : ∀ a, x = .ok a → post a ws) :
    Records (CompileM.promised x) ws [] post := by
  cases x with
  | error defect => trivial
  | ok a => exact pure (h a rfl)

/-- Going on after a finding. -/
lemma report_bind {loc : Location} {message : String} {next : Unit → CompileM β}
    (h : ∀ ws' : Workspace, Leads ws ws' → ws'.toTables = ws.toTables →
      ws.journal.diagnostics.size < ws'.journal.diagnostics.size →
      Records (next ()) ws' names post') :
    Records (CompileM.report loc message >>= next) ws names post' := by
  have hreport : Records (CompileM.report loc message) ws [] fun _ ws' =>
      ws'.toTables = ws.toTables ∧
        ws.journal.diagnostics.size < ws'.journal.diagnostics.size :=
    of_ok rfl (.one .report rfl) .report ⟨rfl, by simp [Journal.report]⟩
  refine hreport.skip ?_
  rintro _ ws' hleads ⟨htables, hlt⟩
  exact h ws' hleads htables hlt

end Records

/-! ## Scopes -/

/-- The run of the action on `ws` has a history, whatever it declares. -/
def Confined (act : CompileM α) (ws : Workspace) (post : α → Workspace → Prop) : Prop :=
  ∃ names, Records act ws names post

namespace Confined

variable {act : CompileM α} {next : α → CompileM β} {post : α → Workspace → Prop}
  {post' : β → Workspace → Prop}

lemma of_records (h : Records act ws names post) : Confined act ws post := ⟨names, h⟩

/-- One action after the other.  What the second one declares may depend on the first one. -/
lemma bind (h : Confined act ws post)
    (hnext : ∀ a ws', Leads ws ws' → post a ws' → Confined (next a) ws' post') :
    Confined (act >>= next) ws post' := by
  obtain ⟨names, h⟩ := h
  have hrun := h
  unfold Records at hrun
  rcases hact : act ws with ⟨a, ws₁⟩ | ⟨failure, ws₁⟩
  · rw [hact] at hrun
    obtain ⟨names', h'⟩ := hnext a ws₁ hrun.1 hrun.2.2
    have hsame : Records act ws names fun a' ws' => a' = a ∧ ws' = ws₁ :=
      .of_ok hact hrun.1 hrun.2.1 ⟨rfl, rfl⟩
    refine ⟨names ++ names', hsame.bind ?_⟩
    rintro a' ws' - ⟨rfl, rfl⟩
    exact h'
  · refine ⟨names, ?_⟩
    unfold Records
    simp only [Bind.bind, EStateM.bind, hact]
    rw [hact] at hrun
    cases failure with
    | error error => exact hrun
    | defect defect => trivial

lemma pure {a : α} (h : post a ws) : Confined (Pure.pure a) ws post := ⟨[], .pure h⟩

lemma refuse {loc : Location} {refusal : Refusal} :
    Confined (CompileM.refuse loc refusal) ws post :=
  ⟨[], .refuse⟩

/-- What happens inside a scope of its own shows in no other one. -/
lemma withScope (h : Confined act (opened ws) post) :
    Records (Reading.withScope act) ws [] fun a ws' =>
      ∃ inner, post a inner ∧ Leads (opened ws) inner ∧ ws' = rescoped inner ws := by
  -- the history of what happens inside, between opening the scope and closing it
  have hclosed : ∀ {inner : Workspace}, Leads (opened ws) inner → Leads ws (rescoped inner ws) := by
    intro inner hleads
    obtain ⟨changes, hchanges⟩ := hleads.history
    have hleave : Step inner .leave (rescoped inner ws) :=
      .leave (SymbolTable.closeScope_eq_ok.mpr ⟨_, _, hleads.enclosing, rfl⟩)
    exact ⟨⟨.enter :: (changes ++ [.leave]), .cons .enter (hchanges.append (.one hleave))⟩, rfl⟩
  obtain ⟨names, h⟩ := h
  unfold Records at h ⊢
  rcases hact : act (opened ws) with ⟨a, inner⟩ | ⟨error | defect, inner⟩
  · rw [hact] at h
    have hrun : Reading.withScope act ws = .ok a (rescoped inner ws) := by
      simp only [opened] at hact
      simp only [Reading.withScope, hact, closeScopeAt_opened h.1.kept]
      rfl
    rw [hrun]
    obtain ⟨events, hevents⟩ := h.2.1
    exact ⟨hclosed h.1, ⟨events, .of_opened hevents⟩, inner, h.2.2, h.1, rfl⟩
  · rw [hact] at h
    have hrun : Reading.withScope act ws = .error (.error error) (rescoped inner ws) := by
      simp only [opened] at hact
      simp only [Reading.withScope, hact, closeScopeAt_opened h.1.kept]
      rfl
    rw [hrun]
    obtain ⟨hleads, front, -, events, hevents⟩ := h
    exact ⟨hclosed hleads, [], List.nil_prefix, events, .of_opened hevents⟩
  · have hrun : ∃ defect' ws', Reading.withScope act ws = .error (.defect defect') ws' := by
      simp only [opened] at hact
      simp only [Reading.withScope, hact]
      split <;> exact ⟨_, _, rfl⟩
    obtain ⟨defect', ws', hrun⟩ := hrun
    rw [hrun]
    trivial

end Confined

/-! ## Tokens -/

lemma expectAtom_records {kind : TokenKind} {datum : Datum} :
    Records (expectAtom kind datum) ws [] fun token ws' => ws' = ws ∧ datum = .atom token := by
  cases datum with
  | atom token =>
    simp only [expectAtom]
    split
    · exact .pure ⟨rfl, rfl⟩
    · exact .refuse
  | list opening items closing => exact .refuse

lemma expectAtom_then_records {kind : TokenKind} {datum : Datum} {next : Token → CompileM α}
    {post : α → Workspace → Prop}
    (h : ∀ token, datum = .atom token → Records (next token) ws names post) :
    Records (expectAtom kind datum >>= next) ws names post := by
  refine expectAtom_records.skip ?_
  rintro token ws' - ⟨rfl, hdatum⟩
  exact h token hdatum

lemma expectEnd_then_records {rest : List Datum} {closing : Token} {next : CompileM α}
    {post : α → Workspace → Prop} (h : Records next ws names post) :
    Records (do expectEnd rest closing; next) ws names post := by
  have hend : Records (expectEnd rest closing) ws [] fun _ ws' => ws' = ws := by
    cases rest with
    | nil =>
      simp only [expectEnd]
      split
      · exact .pure rfl
      · exact .refuse
    | cons datum rest => exact .refuse
  refine hend.skip ?_
  rintro _ ws' - rfl
  exact h

/-! ## Types -/

/-- Adding a type. -/
lemma registerType_records {add : TypeTable → Except Defect (TypeId × TypeTable)}
    (hadd : ∀ {id types}, add ws.types = .ok (id, types) →
      ∃ info, (id, types) = ws.types.register info) :
    Records (registerType add) ws [] fun id ws' =>
      ws'.symbols = ws.symbols ∧ add ws.types = .ok (id, ws'.types) := by
  refine .get (.promised_bind ?_)
  rintro ⟨id, types⟩ hrun
  obtain ⟨info, hregister⟩ := hadd hrun
  cases hregister
  exact .of_ok rfl (.one .register rfl) (.of_journal rfl rfl) ⟨rfl, hrun⟩

lemma registerStruct_eq_register {table table' : TypeTable} {fields : List (String × TypeId)}
    {id : TypeId} (h : table.registerStruct fields = .ok (id, table')) :
    ∃ info, (id, table') = table.register info := by
  obtain ⟨layout, -, hadded⟩ := TypeTable.registerStruct_eq_ok.mp h
  exact ⟨_, hadded⟩

lemma registerDefinition_eq_register {table table' : TypeTable} {name : String}
    {target id : TypeId} (h : table.registerDefinition name target = .ok (id, table')) :
    ∃ info, (id, table') = table.register info := by
  obtain ⟨info, -, hadded⟩ := TypeTable.registerDefinition_eq_ok.mp h
  exact ⟨_, hadded⟩

lemma symbolAt_records {id : SymbolId} : Records (symbolAt id) ws [] fun symbol ws' =>
    ws' = ws ∧ ws.symbols.entries[id.index]? = some symbol :=
  .get (.promised fun _ hget => ⟨rfl, SymbolTable.get_eq_ok_iff.mp hget⟩)

lemma builtinType_records {token : Token} :
    Records (builtinType token) ws [] fun _ ws' => ws' = ws := by
  unfold builtinType
  split
  · exact .pure rfl
  · exact .refuse

lemma namedType_records {token : Token} :
    Records (namedType token) ws [] fun _ ws' => ws'.symbols = ws.symbols := by
  refine .get (.promised_bind fun id? _ => ?_)
  cases id? with
  | none =>
    refine .report_bind ?_
    rintro ws' - htables -
    exact .pure (congrArg Tables.symbols htables)
  | some id =>
    refine symbolAt_records.skip ?_
    rintro symbol ws' - ⟨rfl, -⟩
    exact .promised fun type _ => rfl

lemma atomType_records {token : Token} :
    Records (atomType token) ws [] fun _ ws' => ws'.symbols = ws.symbols := by
  unfold atomType
  split
  · refine builtinType_records.imp ?_
    rintro _ ws' - rfl
    rfl
  · exact namedType_records
  · exact .refuse

mutual

/-- Reading a type leaves the symbols alone. -/
theorem typeExpr_records {ws : Workspace} (datum : Datum) :
    Records (typeExpr datum) ws [] fun _ ws' => ws'.symbols = ws.symbols := by
  match datum with
  | .atom token => exact atomType_records
  | .list opening [] closing => exact .refuse
  | .list opening (.list .. :: rest) closing => exact .refuse
  | .list opening (.atom head :: rest) closing =>
    unfold typeExpr
    dsimp only
    split
    · refine .skip (bindings_records true [] rest closing) ?_
      rintro fields ws₁ - hsymbols
      refine (registerType_records registerStruct_eq_register).imp ?_
      rintro id ws₂ - ⟨hsymbols', -⟩
      exact hsymbols'.trans hsymbols
    · exact .refuse

/-- So does reading names with their types. -/
theorem bindings_records {ws : Workspace} (distinct : Bool) (before : List (Token × TypeId))
    (items : List Datum) (closing : Token) :
    Records (bindings distinct before items closing) ws [] fun _ ws' =>
      ws'.symbols = ws.symbols := by
  match items with
  | [] =>
    unfold bindings
    split
    · exact .pure rfl
    · exact .refuse
  | [nameDatum] =>
    unfold bindings
    exact expectAtom_then_records fun name _ => .refuse
  | [nameDatum, colonDatum] =>
    unfold bindings
    exact expectAtom_then_records fun name _ => expectAtom_then_records fun colon _ => .refuse
  | nameDatum :: colonDatum :: typeDatum :: rest =>
    unfold bindings
    refine expectAtom_then_records fun name _ => expectAtom_then_records fun colon _ => ?_
    refine .skip (typeExpr_records typeDatum) ?_
    rintro type ws₁ - hsymbols
    split
    · -- a field that is there twice is a finding, which changes no symbol
      refine .report_bind ?_
      rintro ws₂ - htables -
      refine (bindings_records distinct before rest closing).imp ?_
      rintro bound ws₃ - hsymbols'
      exact hsymbols'.trans ((congrArg Tables.symbols htables).trans hsymbols)
    · refine (bindings_records distinct ((name, type) :: before) rest closing).imp ?_
      rintro bound ws₂ - hsymbols'
      exact hsymbols'.trans hsymbols

end

lemma params_records {datum : Datum} :
    Records (params datum) ws [] fun _ ws' => ws'.symbols = ws.symbols := by
  cases datum with
  | atom token => exact .refuse
  | list opening items closing => exact bindings_records false [] items closing

/-! ## Declarations -/

/-- What a declaration leaves behind: a finding, or one more symbol. -/
inductive Enters (ws : Workspace) (symbol : Symbol) : Option SymbolId → Workspace → Prop
  /-- The scope has the name already. -/
  | refused {ws' : Workspace} (htables : ws'.toTables = ws.toTables)
      (hlt : ws.journal.diagnostics.size < ws'.journal.diagnostics.size) :
      Enters ws symbol none ws'
  /-- The name is new. -/
  | added {ws' : Workspace} (hsymbols : ws'.symbols = ws.symbols.add symbol) :
      Enters ws symbol (some ⟨ws.symbols.size⟩) ws'

lemma Declares.records {act : CompileM (Option SymbolId)} {name : Token} {symbol : Symbol}
    (h : Declares act ws name symbol) (hsymbol : symbol.Declarable ws.types) :
    Records act ws [name.text] (Enters ws symbol) := by
  cases hlookup : ws.symbols.scope.lookup name.text with
  | some id =>
    exact .of_ok (h.refused hlookup) (.one .report rfl) (.known hlookup .report)
      (.refused rfl (by simp [Journal.report]))
  | none =>
    have hnew : ws.symbols.scope.lookup symbol.name = none := h.name_eq ▸ hlookup
    have hstep := Step.declare hnew hsymbol
    have hgives := Gives.declare hnew
    rw [h.name_eq] at hstep hgives
    exact .of_ok (h.added hlookup) (.one hstep rfl) hgives (.added rfl)

lemma declareVariable_records (place : Place) (name : Token) (type : TypeId) :
    Records (declareVariable place name type) ws [name.text]
      (Enters ws (variableSymbol place name.text type)) :=
  (declareVariable_declares place name type).records (by simp [Symbol.Declarable, variableSymbol])

lemma declareDefinition_records (name : Token) {type target : TypeId} {info : TypeInfo}
    (hget : ws.types.entries[type.index]? = some info)
    (hshape : info.shape = .definition name.text target) :
    Records (declareDefinition name type) ws [name.text]
      (Enters ws (definitionSymbol name.text type)) :=
  (declareDefinition_declares name type).records ⟨type, info, target, rfl, hget, hshape⟩

lemma declareFunction_records (name : Token) :
    Records (declare name .function) ws [name.text]
      (Enters ws (.placeholder name.text .function)) :=
  (declareFunction_declares name).records rfl

/-- Recording the signature of a function of which only the name was known. -/
lemma setSignature_records {id? : Option SymbolId} {name : Token}
    {params : List (Token × TypeId)} {result : TypeId} {prototyped external : Bool}
    (hid : ∀ id ∈ id?, ws.symbols.entries[id.index]? = some (.placeholder name.text .function))
    (hexternal : prototyped = false → external = true) :
    Records (setSignature id? name params result prototyped external) ws [] fun _ ws' =>
      ws'.symbols = id?.elim ws.symbols fun id =>
        ws.symbols.replace id (functionSymbol name.text params result prototyped external) := by
  cases id? with
  | none => exact .pure rfl
  | some id =>
    let new := functionSymbol name.text params result prototyped external
    have hset : ws.symbols.set id new = .ok (ws.symbols.replace id new) :=
      SymbolTable.set_eq (hid id rfl) rfl
    have hrun : setSignature (some id) name params result prototyped external ws =
        .ok () { ws with symbols := ws.symbols.replace id new } :=
      CompileM.bind_eq_ok.mpr ⟨ws, ws, rfl,
        CompileM.bind_eq_ok.mpr ⟨_, ws, CompileM.promised_eq_ok.mpr ⟨hset, rfl⟩, rfl⟩⟩
    have hsigned : new.Signed := ⟨by simp [new, functionSymbol], _, _, _, rfl, hexternal⟩
    exact .of_ok hrun (.one (.sign (hid id rfl) hsigned) rfl) (.of_journal rfl rfl) rfl

end Reading

end ParenC
