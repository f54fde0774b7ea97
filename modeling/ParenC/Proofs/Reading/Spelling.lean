/-
What was read can be written down again.

`Spells` relates the workspaces before and after some tokens were read to what was made of them:
if nothing was found wrong, writing it down gives the tokens back, and going through what is
written with a table of scopes leads from the scopes of before to those of after.  What is written
may be looked up in any tables that come later, because reading changes no symbol whose type is
known.

The relation is closed under reading on, under parentheses and under scopes.  Here it is shown
for the actions that reading is made of, up to types and declarations.
-/
import ParenC.Proofs.Reading.Acceptance
import ParenC.Proofs.Scoping

namespace ParenC

open Mark

/-! ## Later tables -/

/-- Later tables: types stay, symbols keep their names, and a symbol whose type is known stays as
it is. -/
structure Tables.Keeps (later earlier : Tables) : Prop where
  /-- Types stay. -/
  types : later.types.Extends earlier.types
  /-- Symbols stay. -/
  symbols : ∀ ⦃i : Nat⦄ ⦃old : Symbol⦄, earlier.symbols.entries[i]? = some old →
    ∃ new, later.symbols.entries[i]? = some new ∧ new.name = old.name ∧
      (old.type? ≠ none → new = old)

/-- Tables in which names stand for what they say: a name means a symbol of that name, and a name
for a type is that of a definition. -/
structure Tables.Labelled (tables : Tables) : Prop where
  /-- A name means a symbol of that name. -/
  names : ∀ scope ∈ tables.symbols.scopes, ∀ pair ∈ scope, ∃ symbol,
    tables.symbols.entries[pair.2.index]? = some symbol ∧ symbol.name = pair.1
  /-- A name for a type is that of a definition. -/
  definitions : ∀ {i : Nat} {symbol : Symbol}, tables.symbols.entries[i]? = some symbol →
    symbol.kind = .type → ∃ type info target, symbol.type? = some type ∧
      tables.types.entries[type.index]? = some info ∧ info.shape = .definition symbol.name target

namespace Tables.Keeps

variable {a b c : Tables}

lemma refl (a : Tables) : a.Keeps a := ⟨.refl _, fun _ old h => ⟨old, h, rfl, fun _ => rfl⟩⟩

lemma trans (h₁ : c.Keeps b) (h₂ : b.Keeps a) : c.Keeps a := by
  refine ⟨h₁.types.trans h₂.types, ?_⟩
  intro i old hold
  obtain ⟨mid, hmid, hname, hsame⟩ := h₂.symbols hold
  obtain ⟨new, hnew, hname', hsame'⟩ := h₁.symbols hmid
  refine ⟨new, hnew, hname'.trans hname, fun htyped => ?_⟩
  obtain rfl := hsame htyped
  exact hsame' htyped

/-- Types came up, and nothing else. -/
lemma of_types (htypes : b.types.Extends a.types) (hsymbols : b.symbols = a.symbols) : b.Keeps a :=
  ⟨htypes, fun _ old h => ⟨old, hsymbols ▸ h, rfl, fun _ => rfl⟩⟩

lemma nameOf_eq (h : b.Keeps a) {id : SymbolId} {symbol : Symbol}
    (hget : a.symbols.entries[id.index]? = some symbol) : b.symbols.nameOf id = symbol.name := by
  obtain ⟨new, hnew, hname, -⟩ := h.symbols hget
  rw [SymbolTable.nameOf, hnew]
  exact hname

/-- A symbol whose type is known. -/
lemma entry (h : b.Keeps a) {id : SymbolId} {symbol : Symbol}
    (hget : a.symbols.entries[id.index]? = some symbol) (htyped : symbol.type? ≠ none) :
    b.symbols.entries[id.index]? = some symbol := by
  obtain ⟨new, hnew, -, hsame⟩ := h.symbols hget
  rw [hnew, hsame htyped]

end Tables.Keeps

lemma SymbolTable.typeOf_eq {symbols : SymbolTable} {id : SymbolId} {symbol : Symbol} {type : TypeId}
    (hget : symbols.entries[id.index]? = some symbol) (htype : symbol.type? = some type) :
    symbols.typeOf id = type := by
  rw [typeOf, hget, Option.bind_some, htype, Option.getD_some]

/-- A name that is found belongs to the symbol that it means. -/
lemma Tables.Labelled.resolve {tables : Tables} (h : tables.Labelled) {name : String}
    {id : SymbolId} (hresolve : tables.symbols.resolve name = some id) : ∃ symbol,
      tables.symbols.entries[id.index]? = some symbol ∧ symbol.name = name := by
  obtain ⟨scope, hscope, hlookup⟩ := List.exists_of_findSome?_eq_some hresolve
  obtain ⟨front, back, hsplit, -⟩ := List.lookup_eq_some_iff.mp hlookup
  exact h.names scope hscope (name, id) (by simp [hsplit])

lemma Tables.labelled_initial : ({} : Tables).Labelled where
  names := by simp [SymbolTable.initial, SymbolTable.scopes]
  definitions := by simp [SymbolTable.initial]

/-! ## The tokens of data -/

/-- Parentheses around tokens. -/
def framed (faces : List Face) : List Face := (.lparen, "(") :: (faces ++ [(.rparen, ")")])

namespace Datum

/-- The tokens of a datum, without their places. -/
def faces (datum : Datum) : List Face := datum.tokens.map Token.face

/-- The tokens of data, without their places. -/
def facesAll (data : List Datum) : List Face := (tokensAll data).map Token.face

@[simp] lemma faces_atom (token : Token) : (atom token).faces = [token.face] := rfl

@[simp] lemma facesAll_nil : facesAll [] = [] := rfl

@[simp] lemma facesAll_cons (datum : Datum) (rest : List Datum) :
    facesAll (datum :: rest) = datum.faces ++ facesAll rest := by
  simp [facesAll, faces]

lemma facesAll_append (data others : List Datum) :
    facesAll (data ++ others) = facesAll data ++ facesAll others := by
  simp [facesAll, tokensAll_append]

/-- A list that is closed. -/
lemma Proper.faces_list {opening closing : Token} {items : List Datum}
    (h : (Datum.list opening items closing).Proper) (hclosing : closing.kind = .rparen) :
    (Datum.list opening items closing).faces = framed (facesAll items) := by
  cases h with
  | list isOpening lexical closed inner =>
    rw [Token.Lexical, isOpening] at lexical
    rw [Token.Lexical, hclosing] at closed
    rw [faces, tokens_list _ hclosing]
    simp [framed, facesAll, Token.face, isOpening, hclosing,
      show opening.text = "(" from lexical, show closing.text = ")" from closed]

end Datum

/-! ## Runs -/

/-- What was read was accepted. -/
lemma Accepts.of_run {α : Type} {act : CompileM α} {ws ws' : Workspace} {a : α} {p : Prop}
    (h : Accepts act ws p) (hrun : act ws = .ok a ws') : p := by
  refine h.mp fun error ws₁ herror => ?_
  rw [hrun] at herror
  cases herror

namespace Does

variable {α : Type} {act : CompileM α} {ws : Workspace} {post post' : α → Workspace → Prop}

/-- What a run of the action shows. -/
lemma with_run (h : Does act ws post) :
    Does act ws fun a ws' => post a ws' ∧ act ws = .ok a ws' := by
  unfold Does at h ⊢
  rcases hact : act ws with ⟨a, ws'⟩ | ⟨error | defect, ws'⟩
  · rw [hact] at h
    exact ⟨h.1, h.2, rfl⟩
  · rw [hact] at h
    exact h
  · rw [hact] at h
    exact h

/-- What a run keeps. -/
lemma with_grows (h : Does act ws post) :
    Does act ws fun a ws' => post a ws' ∧ ws.Grows ws' :=
  h.imp fun _ _ hgrows hpost => ⟨hpost, hgrows⟩

/-- What is known of an action in two ways. -/
lemma and (h : Does act ws post) (h' : Does act ws post') :
    Does act ws fun a ws' => post a ws' ∧ post' a ws' :=
  h.with_run.imp fun _ _ _ hpost => ⟨hpost.1, (h'.run hpost.2).2⟩

/-- What an accepted run shows. -/
lemma with_accepts {p : Prop} (h : Does act ws post) (haccepts : Accepts act ws p) :
    Does act ws fun a ws' => post a ws' ∧ p :=
  h.with_run.imp fun _ _ _ hpost => ⟨hpost.1, haccepts.of_run hpost.2⟩

end Does

namespace Reading

open CompileM Workspace

variable {place : Place} {ws ws₁ ws₂ ws' : Workspace} {xs ys : List Face}
  {ms ns : Tables → List Mark}

/-! ## The relation -/

/-- The scopes that are open. -/
def scoping (ws : Workspace) : Scoping := ⟨ws.symbols.size, ws.symbols.scope, ws.symbols.enclosing⟩

/-- The tables come later. -/
structure After (tables : Tables) (ws : Workspace) : Prop where
  /-- The types are in order. -/
  sound : tables.types.Sound
  /-- Nothing is lost. -/
  keeps : tables.Keeps ws.toTables

lemma After.before {tables : Tables} (h : After tables ws') (hkeeps : ws'.toTables.Keeps ws.toTables) :
    After tables ws :=
  ⟨h.sound, h.keeps.trans hkeeps⟩

/-- What was read from the tokens is written as `marks`. -/
structure Writes (ws : Workspace) (faces : List Face) (marks : Tables → List Mark)
    (ws' : Workspace) : Prop where
  /-- Nothing is lost in the tables. -/
  keeps : ws'.toTables.Keeps ws.toTables
  /-- Names stand for what they say. -/
  labelled : ws'.toTables.Labelled
  /-- The marks have the tokens. -/
  faces_eq : ∀ {tables}, After tables ws' → Mark.faces (marks tables) = faces
  /-- The marks do to the scopes what reading does. -/
  walk : ∀ {tables}, After tables ws' →
    Scoping.Walk tables (scoping ws) (marks tables) (scoping ws')

/-- The same, as long as nothing is found wrong. -/
def Spells (ws : Workspace) (faces : List Face) (marks : Tables → List Mark) (ws' : Workspace) :
    Prop :=
  ws'.Quiet → ws.toTables.Labelled → Writes ws faces marks ws'

namespace Spells

/-- Where something was found wrong, nothing is promised. -/
lemma loud (h : ¬ ws'.Quiet) : Spells ws xs ms ws' := fun hquiet => absurd hquiet h

/-- Nothing is read. -/
lemma nil (htables : ws'.toTables = ws.toTables) : Spells ws [] (fun _ => []) ws' := by
  intro _ hlabelled
  refine ⟨htables ▸ .refl _, htables ▸ hlabelled, fun _ => rfl, fun _ => ?_⟩
  have hscoping : scoping ws' = scoping ws := by
    simp only [scoping, congrArg Tables.symbols htables]
  rw [hscoping]
  exact .nil

/-- A token that means nothing by itself. -/
lemma word (kind : TokenKind) (text : String) :
    Spells ws [(kind, text)] (fun _ => [.word kind text]) ws :=
  fun _ hlabelled => ⟨.refl _, hlabelled, fun _ => rfl, fun _ => .cons .word .nil⟩

/-- Reading on. -/
lemma append (h₁ : Spells ws xs ms ws₁) (h₂ : Spells ws₁ ys ns ws₂) (hgrows : ws₁.Grows ws₂) :
    Spells ws (xs ++ ys) (fun tables => ms tables ++ ns tables) ws₂ := by
  intro hquiet hlabelled
  have w₁ := h₁ (hgrows.quiet hquiet) hlabelled
  have w₂ := h₂ hquiet w₁.labelled
  refine ⟨w₂.keeps.trans w₁.keeps, w₂.labelled, ?_, ?_⟩
  · intro tables hafter
    rw [faces_append, w₁.faces_eq (hafter.before w₂.keeps), w₂.faces_eq hafter]
  · intro tables hafter
    exact (w₁.walk (hafter.before w₂.keeps)).append (w₂.walk hafter)

/-- A token in front. -/
lemma cons (kind : TokenKind) (text : String) (h : Spells ws xs ms ws') (hgrows : ws.Grows ws') :
    Spells ws ((kind, text) :: xs) (fun tables => .word kind text :: ms tables) ws' :=
  (word kind text).append h hgrows

/-- A token behind. -/
lemma concat (h : Spells ws xs ms ws') (kind : TokenKind) (text : String) :
    Spells ws (xs ++ [(kind, text)]) (fun tables => ms tables ++ [.word kind text]) ws' :=
  h.append (word kind text) (.refl ws')

/-- The same, written differently. -/
lemma congr (h : Spells ws xs ms ws')
    (hmarks : ws'.Quiet → ws.toTables.Labelled → ∀ tables, After tables ws' →
      ns tables = ms tables) : Spells ws xs ns ws' := by
  intro hquiet hlabelled
  obtain ⟨keeps, labelled, faces_eq, walk⟩ := h hquiet hlabelled
  refine ⟨keeps, labelled, ?_, ?_⟩
  · intro tables hafter
    rw [hmarks hquiet hlabelled tables hafter, faces_eq hafter]
  · intro tables hafter
    rw [hmarks hquiet hlabelled tables hafter]
    exact walk hafter

end Spells

/-- Parentheses around what was read. -/
lemma Spells.bracket (h : Spells ws xs ms ws') (hgrows : ws.Grows ws') :
    Spells ws (framed xs) (fun tables => Mark.bracket (ms tables)) ws' :=
  (h.concat .rparen ")").cons .lparen "(" hgrows

/-- A scope around what was read. -/
lemma Spells.region (h : Spells (opened ws) xs ms ws') (hkept : (opened ws).Kept ws') :
    Spells ws xs (fun tables => Mark.region (ms tables)) (rescoped ws' ws) := by
  intro hquiet hlabelled
  have hopened : (opened ws).toTables.Labelled := by
    refine ⟨?_, hlabelled.definitions⟩
    intro scope hscope
    rcases List.mem_cons.mp hscope with rfl | hscope
    · simp [opened, SymbolTable.openScope]
    · exact hlabelled.names scope hscope
  obtain ⟨keeps, labelled, faces_eq, walk⟩ := h hquiet hopened
  have hkeeps : (rescoped ws' ws).toTables.Keeps ws.toTables := ⟨keeps.types, keeps.symbols⟩
  have hafter : ∀ {tables}, After tables (rescoped ws' ws) → After tables ws' :=
    fun h => ⟨h.sound, h.keeps.types, h.keeps.symbols⟩
  refine ⟨hkeeps, ⟨?_, labelled.definitions⟩, ?_, ?_⟩
  · intro scope hscope pair hpair
    obtain ⟨old, hold, hname⟩ := hlabelled.names scope hscope pair hpair
    obtain ⟨new, hnew, hname', -⟩ := keeps.symbols hold
    exact ⟨new, hnew, hname'.trans hname⟩
  · intro tables htables
    simp [Mark.region, faces_eq (hafter htables)]
  · intro tables htables
    -- inside, the scopes of before are those around
    have henclosing : ws'.symbols.enclosing = (scoping ws).scopes := hkept.enclosing
    have hinner : scoping ws' = ⟨(scoping (rescoped ws' ws)).count, ws'.symbols.scope,
        (scoping (rescoped ws' ws)).scopes⟩ := by
      simp only [scoping, henclosing]
      rfl
    have hwalk := walk (hafter htables)
    rw [hinner] at hwalk
    exact .cons .enter (hwalk.append (.cons .leave .nil))

lemma expectAtom_token {kind : TokenKind} {datum : Datum} :
    Does (expectAtom kind datum) ws fun token ws' =>
      ws' = ws ∧ datum = .atom token ∧ token.kind = kind := by
  cases datum with
  | atom token =>
    unfold expectAtom
    dsimp only
    split
    · exact .pure ⟨rfl, rfl, ‹_›⟩
    · exact .refuse
  | list opening items closing => exact .refuse

lemma expectEnd_end {rest : List Datum} {closing : Token} :
    Does (expectEnd rest closing) ws fun _ ws' => ws' = ws ∧ rest = [] := by
  refine (expectEnd_does.with_accepts expectEnd_accepts).imp ?_
  rintro _ ws' - ⟨rfl, hrest, -⟩
  exact ⟨rfl, hrest⟩

/-- A finding is the end of what is promised. -/
lemma complain_spells {α : Type} {loc : Location} {complaint : Complaint} {a : α}
    {ms : α → Tables → List Mark} : Does (do
      complain loc complaint
      return a) ws₁ fun a ws' => Spells ws xs (ms a) ws' := by
  refine .report_bind ?_
  rintro ws' - - hloud
  exact .pure (.loud hloud)

/-! ## Types -/

lemma registerType_eq_ok {add : TypeTable → Except Defect (TypeId × TypeTable)} {id : TypeId}
    (h : registerType add ws = .ok id ws') :
    ∃ types, add ws.types = .ok (id, types) ∧ ws' = { ws with types } := by
  obtain ⟨_, _, hget, h⟩ := bind_eq_ok.mp h
  cases hget
  obtain ⟨⟨id', types⟩, ws₁, hpromised, h⟩ := bind_eq_ok.mp h
  obtain ⟨hadd, rfl⟩ := promised_eq_ok.mp hpromised
  cases h
  exact ⟨types, hadd, rfl⟩

/-- Types came up, and nothing is written. -/
lemma Spells.types (hgrows : ws.Grows ws') (hsymbols : ws'.symbols = ws.symbols) :
    Spells ws [] (fun _ => []) ws' := by
  intro _ hlabelled
  have hscoping : scoping ws' = scoping ws := by simp only [scoping, hsymbols]
  refine ⟨.of_types hgrows.types hsymbols, ⟨?_, ?_⟩, fun _ => rfl, fun _ => hscoping ▸ .nil⟩
  · rw [hsymbols]
    exact hlabelled.names
  · rw [hsymbols]
    intro i symbol hget hkind
    obtain ⟨type, info, target, htype, hinfo, hshape⟩ := hlabelled.definitions hget hkind
    exact ⟨type, info, target, htype, hgrows.types hinfo, hshape⟩

lemma builtinType_spells {token : Token} (hkind : token.kind = .typeName) :
    Does (builtinType token) ws fun id ws' =>
      Spells ws [token.face] (fun tables => tables.types.marks id) ws' := by
  unfold builtinType
  split
  · rename_i which hwhich
    have hname : which.name = token.text := by simpa using List.find?_some hwhich
    rw [Token.face_eq hkind]
    refine .pure ((Spells.word .typeName token.text).congr ?_)
    intro _ _ tables hafter
    rw [TypeTable.marks_builtin hafter.sound, hname]
  · exact .refuse

/-- A name for a type, mentioned. -/
lemma spells_type {name : String} {id : SymbolId} {symbol : Symbol} {type : TypeId}
    (hresolve : ws.symbols.resolve name = some id)
    (hsymbol : ws.symbols.entries[id.index]? = some symbol) (hkind : symbol.kind = .type)
    (htype : symbol.type? = some type) :
    Spells ws [(.ident, name)] (fun tables => tables.types.marks type) ws := by
  intro _ hlabelled
  obtain ⟨symbol', hsymbol', hname⟩ := hlabelled.resolve hresolve
  rw [hsymbol] at hsymbol'
  cases hsymbol'
  obtain ⟨type', info, target, htype', hinfo, hshape⟩ := hlabelled.definitions hsymbol hkind
  rw [htype] at htype'
  cases htype'
  have hmarks : ∀ {tables}, After tables ws →
      tables.types.marks type = [.mention name (.type type)] := by
    intro tables hafter
    rw [TypeTable.marks_definition (hafter.keeps.types hinfo) hshape, hname]
  refine ⟨.refl _, hlabelled, ?_, ?_⟩
  · intro tables hafter
    rw [hmarks hafter]
    rfl
  · intro tables hafter
    rw [hmarks hafter]
    have hkept := hafter.keeps.entry hsymbol (by simp [htype])
    exact .cons (.mention hresolve ⟨symbol, hkept, hkind, htype⟩) .nil

lemma namedType_spells {token : Token} (hkind : token.kind = .ident) (sound : ws.toTables.Sound) :
    Does (namedType token) ws fun id ws' =>
      Spells ws [token.face] (fun tables => tables.types.marks id) ws' := by
  rw [Token.face_eq hkind]
  refine .get ?_
  rcases sound.resolveType token.text with
    hnone | ⟨id, symbol, type, hsome, hresolve, hsymbol, hsymbolKind, htype, -⟩
  · exact .promised_bind hnone complain_spells
  · refine .promised_bind hsome (.bind (symbolAt_does hsymbol) ?_)
    rintro _ ws' - ⟨rfl, rfl⟩
    exact .promised (Symbol.type_eq_ok_iff.mpr htype)
      (spells_type hresolve hsymbol hsymbolKind htype)

lemma atomType_spells {token : Token} (sound : ws.toTables.Sound) :
    Does (atomType token) ws fun id ws' =>
      Spells ws [token.face] (fun tables => tables.types.marks id) ws' := by
  unfold atomType
  split
  · exact builtinType_spells ‹_›
  · exact namedType_spells ‹_› sound
  · exact .refuse

/-- Names with their types, as they are written. -/
def written (bound : List (Token × TypeId)) : List (String × TypeId) :=
  bound.map fun (name, type) => (name.text, type)

mutual

/-- A type is written as it was read. -/
theorem typeExpr_spells {ws : Workspace} (datum : Datum) (h : datum.Proper)
    (sound : ws.toTables.Sound) : Does (typeExpr datum) ws fun id ws' =>
      Spells ws datum.faces (fun tables => tables.types.marks id) ws' := by
  match datum, h with
  | .atom token, _ => exact atomType_spells sound
  | .list opening [] closing, _ => exact .refuse
  | .list opening (.list .. :: rest) closing, _ => exact .refuse
  | .list opening (.atom head :: rest) closing, h =>
    have hrest := proper_rest h.inner
    unfold typeExpr
    dsimp only
    split
    · rename_i hstruct
      have hbindings := (bindings_does true [] rest closing sound (by simp)).and
        (bindings_spells true [] rest closing hrest sound (by simp))
      refine .bind (hbindings.with_accepts
        (bindings_accepts true [] rest closing hrest sound (by simp))) ?_
      rintro fields ws₁ hgrows₁ ⟨⟨⟨hfields, -⟩, new, hnew, hspells⟩, -, hclosing⟩
      have hhas : ∀ field ∈ written fields, ws₁.types.Has field.2 := by
        intro field hfield
        obtain ⟨pair, hpair, rfl⟩ := List.mem_map.mp hfield
        exact hfields pair hpair
      refine ((registerType_does (fun hsound => TypeTable.registerStruct_ok hsound hhas)
        (hgrows₁.sound sound)).with_run).imp ?_
      rintro id ws₂ hgrows₂ ⟨⟨-, hsymbols, -⟩, hrun⟩
      obtain ⟨types, hadd, hws₂⟩ := registerType_eq_ok hrun
      obtain ⟨info, placed, hinfo, hshape, hplaced⟩ := TypeTable.registerStruct_entry hadd
      have hentry : ws₂.types.entries[id.index]? = some info := by rw [hws₂]; exact hinfo
      have hhead : head.face = (.keyword, "struct") := by
        obtain ⟨hkind, htext⟩ := Token.is_iff.mp hstruct
        rw [Token.face_eq hkind, htext]
      have hgrows := hgrows₁.trans hgrows₂
      have hall := ((hspells.append (.types hgrows₂ hsymbols) hgrows₂).cons .keyword "struct"
        hgrows).bracket hgrows
      rw [List.append_nil] at hall
      rw [h.faces_list hclosing, Datum.facesAll_cons, Datum.faces_atom, hhead,
        List.singleton_append]
      refine hall.congr fun hquiet _ tables hafter => ?_
      -- only a finding makes a field be left out
      have hsame : fields = new := hnew (hgrows₂.quiet hquiet)
      rw [TypeTable.marks_struct hafter.sound (hafter.keeps.types hentry) hshape, hplaced,
        List.append_nil, ← hsame]
      rfl
    · exact .refuse

/-- Names with their types are written as they were read. -/
theorem bindings_spells {ws : Workspace} (distinct : Bool) (before : List (Token × TypeId))
    (items : List Datum) (closing : Token) (h : ∀ datum ∈ items, datum.Proper)
    (sound : ws.toTables.Sound) (hbefore : ∀ pair ∈ before, ws.types.Has pair.2) :
    Does (bindings distinct before items closing) ws fun bound ws' =>
      ∃ new, (ws'.Quiet → bound = before.reverse ++ new) ∧ Spells ws (Datum.facesAll items)
        (fun tables => Mark.bindings tables.types.marks (written new)) ws' := by
  match items with
  | [] =>
    unfold bindings
    split
    · exact .pure ⟨[], fun _ => by simp, .nil rfl⟩
    · exact .refuse
  | [nameDatum] =>
    unfold bindings
    exact expectAtom_then fun name => .refuse
  | [nameDatum, colonDatum] =>
    unfold bindings
    exact expectAtom_then fun name => expectAtom_then fun colon => .refuse
  | nameDatum :: colonDatum :: typeDatum :: rest =>
    have hrest := proper_rest (proper_rest (proper_rest h))
    unfold bindings
    refine .bind expectAtom_token ?_
    rintro name ws' - ⟨rfl, rfl, hname⟩
    refine .bind expectAtom_token ?_
    rintro colon ws' - ⟨rfl, rfl, hcolon⟩
    -- a colon is written in one way only
    have hcolonFace : colon.face = (.colon, ":") := by
      have hlexical := (h (.atom colon) (by simp)).lexical
      rw [Token.Lexical, hcolon] at hlexical
      rw [Token.face_eq hcolon, show colon.text = ":" from hlexical]
    refine .bind ((typeExpr_does typeDatum sound).and
      (typeExpr_spells typeDatum (h typeDatum (by simp)) sound)) ?_
    rintro type ws₁ hgrows₁ ⟨⟨htype, -⟩, hspells₁⟩
    have hold : ∀ pair ∈ before, ws₁.types.Has pair.2 :=
      fun pair hpair => hgrows₁.types.has (hbefore pair hpair)
    split
    · -- a field that is there twice is a finding
      refine .report_bind ?_
      rintro ws₂ hgrows₂ - hloud
      refine (bindings_does distinct before rest closing (hgrows₂.sound (hgrows₁.sound sound))
        fun pair hpair => hgrows₂.types.has (hold pair hpair)).imp ?_
      rintro bound ws₃ hgrows₃ -
      have hloud₃ : ¬ ws₃.Quiet := fun hquiet => hloud (hgrows₃.quiet hquiet)
      exact ⟨[], fun hquiet => absurd hquiet hloud₃, .loud hloud₃⟩
    · refine (bindings_spells distinct ((name, type) :: before) rest closing hrest
        (hgrows₁.sound sound) (by simpa using ⟨htype, fun a b => hold (a, b)⟩)).imp ?_
      rintro bound ws₂ hgrows₂ ⟨new, hnew, hspells₂⟩
      refine ⟨(name, type) :: new, fun hquiet => by simp [hnew hquiet], ?_⟩
      have hgrows := hgrows₁.trans hgrows₂
      have hall := ((hspells₁.append hspells₂ hgrows₂).cons .colon ":" hgrows).cons .ident name.text
        hgrows
      rw [Datum.facesAll_cons, Datum.facesAll_cons, Datum.facesAll_cons, Datum.faces_atom,
        Datum.faces_atom, Token.face_eq hname, hcolonFace]
      exact hall

end

/-- The parameters of a function are written as they were read. -/
lemma params_spells {datum : Datum} (h : datum.Proper) (sound : ws.toTables.Sound) :
    Does (params datum) ws fun bound ws' => Spells ws datum.faces
      (fun tables => Mark.bracket (Mark.bindings tables.types.marks (written bound))) ws' := by
  cases datum with
  | atom token => exact .refuse
  | list opening items closing =>
    refine ((bindings_spells false [] items closing h.inner sound (by simp)).with_accepts
      (bindings_accepts false [] items closing h.inner sound (by simp))).imp ?_
    rintro bound ws' hgrows ⟨⟨new, hnew, hspells⟩, -, hclosing⟩
    rw [h.faces_list hclosing]
    refine (hspells.bracket hgrows).congr fun hquiet _ tables _ => ?_
    rw [hnew hquiet]
    rfl

/-! ## Declarations -/

/-- What a declaration without findings leaves behind. -/
lemma Declared.spells {symbol : Symbol} {id? : Option SymbolId} (h : Declared ws symbol id? ws')
    (hquiet : ws'.Quiet) (hdefinition : symbol.kind = .type → ∃ type info target,
      symbol.type? = some type ∧ ws.types.entries[type.index]? = some info ∧
        info.shape = .definition symbol.name target) :
    ∃ id, id? = some id ∧ ws'.symbols.entries[id.index]? = some symbol ∧
      Spells ws [] (fun _ => [.declare symbol.name id]) ws' := by
  cases h with
  | refused hloud htables => exact absurd hquiet hloud
  | added hquiet' htypes hsymbols hnew =>
    have hentry : ws'.symbols.entries[ws.symbols.size]? = some symbol := by
      rw [hsymbols]
      exact SymbolTable.add_getElem?_size _ _
    have hold : ∀ {i : Nat} {old : Symbol}, ws.symbols.entries[i]? = some old →
        ws'.symbols.entries[i]? = some old := by
      intro i old hget
      rw [hsymbols, SymbolTable.add_getElem?,
        if_neg (by have := SymbolTable.lt_size_of_getElem? hget; omega)]
      exact hget
    refine ⟨⟨ws.symbols.size⟩, rfl, hentry, fun _ hlabelled => ⟨?_, ⟨?_, ?_⟩, fun _ => rfl, ?_⟩⟩
    · -- the entries of before stay what they are
      refine ⟨htypes ▸ .refl _, ?_⟩
      intro i old hget
      exact ⟨old, hold hget, rfl, fun _ => rfl⟩
    · -- the new name is that of the new symbol
      intro scope hscope pair hpair
      rw [hsymbols] at hscope
      simp only [SymbolTable.scopes, SymbolTable.add, List.mem_cons] at hscope
      rcases hscope with rfl | hscope
      · rcases List.mem_cons.mp hpair with rfl | hpair
        · exact ⟨symbol, hentry, rfl⟩
        · obtain ⟨old, hget, hname⟩ := hlabelled.names _ (by simp [SymbolTable.scopes]) pair hpair
          exact ⟨old, hold hget, hname⟩
      · obtain ⟨old, hget, hname⟩ :=
          hlabelled.names scope (by simp [SymbolTable.scopes, hscope]) pair hpair
        exact ⟨old, hold hget, hname⟩
    · intro i symbol' hget hkind
      rw [hsymbols] at hget
      rw [htypes]
      rcases SymbolTable.add_getElem?_cases hget with ⟨-, rfl⟩ | ⟨-, hget⟩
      · exact hdefinition hkind
      · exact hlabelled.definitions hget hkind
    · intro tables _
      -- in terms of the scopes, declaring is the one step of the mark
      have hscoping : scoping ws' = ⟨(scoping ws).count + 1,
          (symbol.name, ⟨(scoping ws).count⟩) :: (scoping ws).scope, (scoping ws).enclosing⟩ := by
        simp only [scoping, hsymbols, SymbolTable.add_size]
        rfl
      rw [hscoping]
      exact .cons (.declare hnew) .nil

end Reading

end ParenC
