/-
How a text is laid out does not matter.

Two texts with the same tokens, whatever stands between these, are one text with numbers for places,
moved in two ways: once to where the tokens stand in the first text and once to where they stand in
the second.  Compiling moves with both maps, so that it makes the same assembly or fails in the same
way.  It also moves with a map that keeps the numbers of tokens and nothing else, so that a place in
a finding is the number of a token.
-/
import ParenC.Proofs.Compilation
import ParenC.Proofs.Marks
import ParenC.Proofs.Relocation.Lowering
import ParenC.Proofs.Relocation.Reading

namespace ParenC

open CompileM

/-! ## Failures that differ in places -/

/-- The findings differ in nothing but their places, which are related. -/
structure Diagnostic.Corresponds (related : Location → Location → Prop)
    (first second : Diagnostic) : Prop where
  /-- The files are the same. -/
  file : first.file = second.file
  /-- So are the messages. -/
  message : first.message = second.message
  /-- The places are related. -/
  location : related first.location second.location

/-- The failures are of the same kind, and their findings differ in nothing but places. -/
inductive CompileError.Corresponds (related : Location → Location → Prop) :
    CompileError → CompileError → Prop
  | fatal {file : String} {loc loc' : Location} {message : String}
      {earlier earlier' : List Diagnostic} (location : related loc loc')
      (diagnostics : List.Forall₂ (Diagnostic.Corresponds related) earlier earlier') :
      Corresponds related (.fatal file loc message earlier) (.fatal file loc' message earlier')
  | notImplemented {file : String} {loc loc' : Location} {feature : String}
      {earlier earlier' : List Diagnostic} (location : related loc loc')
      (diagnostics : List.Forall₂ (Diagnostic.Corresponds related) earlier earlier') :
      Corresponds related (.notImplemented file loc feature earlier)
        (.notImplemented file loc' feature earlier')
  | halted {phase : Phase} {diagnostics diagnostics' : List Diagnostic}
      (findings : List.Forall₂ (Diagnostic.Corresponds related) diagnostics diagnostics') :
      Corresponds related (.halted phase diagnostics) (.halted phase diagnostics')

namespace CompileError

variable {related : Location → Location → Prop} {g g' : Location → Location}

/-- The places in a failure. -/
def locations : CompileError → List Location
  | fatal _ loc _ earlier | notImplemented _ loc _ earlier => loc :: earlier.map Diagnostic.location
  | halted _ diagnostics => diagnostics.map Diagnostic.location

lemma locations_relocate (error : CompileError) :
    (error.relocate g).locations = error.locations.map g := by
  cases error <;> simp [relocate, locations, Diagnostic.relocate]

/-- A map that keeps a failure keeps the places in it. -/
lemma eq_of_mem_locations {error : CompileError} (h : error.relocate g = error) :
    ∀ loc ∈ error.locations, g loc = loc := by
  have hmap : error.locations.map g = error.locations.map id := by
    rw [← locations_relocate, h, List.map_id]
  exact List.map_inj_left.mp hmap

/-- Two ways to move a failure. -/
lemma relocate_corresponds {error : CompileError}
    (h : ∀ loc ∈ error.locations, related (g loc) (g' loc)) :
    Corresponds related (error.relocate g) (error.relocate g') := by
  have hdiagnostics : ∀ diagnostics : List Diagnostic,
      (∀ loc ∈ diagnostics.map Diagnostic.location, related (g loc) (g' loc)) →
      List.Forall₂ (Diagnostic.Corresponds related) (diagnostics.map (Diagnostic.relocate g))
        (diagnostics.map (Diagnostic.relocate g')) := by
    intro diagnostics hrelated
    rw [List.forall₂_map_left_iff, List.forall₂_map_right_iff, List.forall₂_same]
    intro diagnostic hmem
    exact ⟨rfl, rfl, hrelated _ (List.mem_map_of_mem hmem)⟩
  cases error with
  | fatal file loc message earlier =>
    exact .fatal (h loc (by simp [locations])) (hdiagnostics earlier fun loc hloc =>
      h loc (by simp [locations, hloc]))
  | notImplemented file loc feature earlier =>
    exact .notImplemented (h loc (by simp [locations])) (hdiagnostics earlier fun loc hloc =>
      h loc (by simp [locations, hloc]))
  | halted phase diagnostics => exact .halted (hdiagnostics diagnostics h)

end CompileError

/-! ## Compiling tokens -/

/-- Compile a text that was cut into tokens. -/
def compileTokens (tokens : List Token) : CompileM Assembly := do
  log (.tokenized (← get).journal.file tokens.length)
  let program ← Reading.program tokens
  endPhase .parsing
  Typing.check program
  endPhase .typeChecking
  Lowering.generate program

lemma compile_eq (source : String) : compile source = tokenize source >>= compileTokens := by
  simp only [compile, analyze, bind_assoc, pure_bind]
  rfl

/-- A text that is cut into tokens is compiled as these are. -/
lemma compile_of_tokenize {file source : String} {tokens : List Token} {ws : Workspace}
    (h : tokenize source (.initial file) = .ok tokens ws) :
    compile source (.initial file) = compileTokens tokens ws := by
  rw [compile_eq]
  simp only [bind, EStateM.bind, h]

/-- Compiling the tokens of a text that is laid out differently. -/
theorem compileTokens_moves {g : Location → Location} {body : List Token}
    (h : ∀ token ∈ body, token.Lexical ∧ token.kind ≠ .eof) (loc : Location) :
    Moves g id (compileTokens (body ++ [Token.eof loc]))
      (compileTokens (body.map (Token.relocate g) ++ [Token.eof (g loc)])) := by
  simp only [compileTokens, List.length_append, List.length_map]
  refine .get fun ws => .bind .log fun _ => .bind (Reading.program_moves h loc) fun program => ?_
  refine .bind .endPhase fun _ => .bind (Typing.check_moves program) fun _ => ?_
  exact .bind .endPhase fun _ => Lowering.generate_moves program

/-- The workspace after a text was cut into the tokens before its end marker. -/
def Workspace.tokenized (file : String) (body : List Token) : Workspace :=
  { journal := ({ file } : Journal).logAll (body.map .token) }

lemma Workspace.tokenized_relocate (g : Location → Location) (file : String) (body : List Token) :
    (tokenized file body).relocate g = tokenized file (body.map (Token.relocate g)) := by
  simp [tokenized, relocate, Journal.relocate, Journal.logAll, Event.relocate, Function.comp_def]

/-- Cutting a text into tokens tells of each of them. -/
lemma tokenized_of_tokenize {file source : String} {tokens : List Token} {ws : Workspace}
    (h : tokenize source (.initial file) = .ok tokens ws) : ∃ body loc,
      tokens = body ++ [Token.eof loc] ∧ ws = .tokenized file body ∧
      ∀ token ∈ body, token.Lexical ∧ token.kind ≠ .eof := by
  obtain ⟨body, loc, rfl, -, -, hlexical⟩ := tokenize_eq_ok h
  refine ⟨body, loc, rfl, ?_, hlexical⟩
  unfold tokenize at h
  obtain ⟨_, ws₁, hlog, h⟩ := bind_eq_ok.mp h
  cases hlog
  cases hending : (Scan.run source).ending with
  | unknown loc' =>
    rw [hending] at h
    cases h
  | finished loc' =>
    rw [hending] at h
    obtain ⟨htokens, rfl⟩ := pure_eq_ok.mp h
    rw [(List.append_inj' htokens rfl).1]
    rfl

/-! ## Numbers for places -/

/-- The tokens with their numbers for places. -/
def numbered (body : List Token) : List Token :=
  body.mapIdx fun i token => { token with location := ⟨i, 0⟩ }

/-- The place of the token with the number. -/
def placeIn (tokens : List Token) (number : Location) : Location :=
  (tokens[number.line]?).elim number Token.location

/-- The numbers below `count` stay, and no other place does. -/
def within (count : Nat) (number : Location) : Location :=
  if number.line < count then number else ⟨number.line + 1, 0⟩

lemma within_eq_iff {count : Nat} {number : Location} :
    within count number = number ↔ number.line < count := by
  unfold within
  split
  · simp [*]
  · rename_i hlarge
    refine iff_of_false ?_ hlarge
    intro heq
    have := congrArg Location.line heq
    simp at this

lemma numbered_getElem? (body : List Token) (i : Nat) :
    (numbered body)[i]? = (body[i]?).map fun token => { token with location := ⟨i, 0⟩ } :=
  List.getElem?_mapIdx

/-- Numbers do not depend on places. -/
lemma numbered_congr {body body' : List Token} (h : body.map Token.face = body'.map Token.face) :
    numbered body = numbered body' := by
  refine List.ext_getElem? fun i => ?_
  have hface := congrArg (·[i]?) h
  simp only [List.getElem?_map] at hface
  rw [numbered_getElem?, numbered_getElem?]
  cases hfirst : body[i]? with
  | none => simp_all
  | some token =>
    cases hsecond : body'[i]? with
    | none => simp [hfirst, hsecond] at hface
    | some token' =>
      simp only [hfirst, hsecond, Option.map_some, Token.face, Option.some.injEq,
        Prod.mk.injEq] at hface
      simp [hface.1, hface.2]

/-- Tokens stand where their numbers say. -/
lemma numbered_placeIn (body rest : List Token) :
    (numbered body).map (Token.relocate (placeIn (body ++ rest))) = body := by
  refine List.ext_getElem? fun i => ?_
  rw [List.getElem?_map, numbered_getElem?]
  cases htoken : body[i]? with
  | none => rfl
  | some token =>
    have hplace : (body ++ rest)[i]? = some token := by
      rw [List.getElem?_append_left (List.getElem?_eq_some_iff.mp htoken).1, htoken]
    simp [Token.relocate, placeIn, hplace]

lemma numbered_within {body : List Token} {count : Nat} (h : body.length ≤ count) :
    (numbered body).map (Token.relocate (within count)) = numbered body := by
  refine List.ext_getElem? fun i => ?_
  rw [List.getElem?_map, numbered_getElem?]
  cases htoken : body[i]? with
  | none => rfl
  | some token =>
    have hlt : i < body.length := (List.getElem?_eq_some_iff.mp htoken).1
    simp [Token.relocate, within, Nat.lt_of_lt_of_le hlt h]

lemma numbered_lexical {body : List Token}
    (h : ∀ token ∈ body, token.Lexical ∧ token.kind ≠ .eof) :
    ∀ token ∈ numbered body, token.Lexical ∧ token.kind ≠ .eof := by
  intro token htoken
  obtain ⟨i, hi, rfl⟩ := List.mem_mapIdx.mp htoken
  exact h body[i] (List.getElem_mem hi)

/-- Compiling a text that was cut into tokens, with numbers for places. -/
def compileNumbered (file : String) (body : List Token) :
    EStateM.Result Failure Workspace Assembly :=
  compileTokens (numbered body ++ [Token.eof ⟨body.length, 0⟩]) (.tokenized file (numbered body))

/-- A text is compiled as its numbered tokens are, with places for numbers. -/
lemma compile_moved {file source : String} {tokens : List Token} {ws : Workspace}
    (h : tokenize source (.initial file) = .ok tokens ws) : ∃ body loc,
      tokens = body ++ [Token.eof loc] ∧ (∀ token ∈ body, token.Lexical ∧ token.kind ≠ .eof) ∧
      Moved (placeIn tokens) id (compileNumbered file body) (compile source (.initial file)) := by
  obtain ⟨body, loc, rfl, rfl, hlexical⟩ := tokenized_of_tokenize h
  refine ⟨body, loc, rfl, hlexical, ?_⟩
  have hmoves := compileTokens_moves (g := placeIn (body ++ [Token.eof loc]))
    (numbered_lexical hlexical) ⟨body.length, 0⟩ (.tokenized file (numbered body))
  have heof : placeIn (body ++ [Token.eof loc]) ⟨body.length, 0⟩ = loc := by
    simp [placeIn, Token.eof]
  rw [compile_of_tokenize h]
  rwa [Workspace.tokenized_relocate, numbered_placeIn, heof] at hmoves

/-- Where something is said about numbered tokens, it is said of the number of a token. -/
lemma line_lt_of_compileNumbered {file : String} {body : List Token}
    (hlexical : ∀ token ∈ body, token.Lexical ∧ token.kind ≠ .eof) {error : CompileError}
    {ws : Workspace} (h : compileNumbered file body = .error (.error error) ws) :
    ∀ loc ∈ error.locations, loc.line < body.length + 1 := by
  have hmoves := compileTokens_moves (g := within (body.length + 1)) (numbered_lexical hlexical)
    ⟨body.length, 0⟩ (.tokenized file (numbered body))
  have heof : within (body.length + 1) ⟨body.length, 0⟩ = ⟨body.length, 0⟩ := by
    simp [within]
  rw [Workspace.tokenized_relocate, numbered_within (Nat.le_succ _), heof] at hmoves
  -- the run on numbers is moved to itself
  change Moved _ id (compileNumbered file body) (compileNumbered file body) at hmoves
  rw [h] at hmoves
  have hfixed : error.relocate (within (body.length + 1)) = error := by
    have hsame := hmoves.eq_error
    simp only [EStateM.Result.error.injEq, Failure.error.injEq] at hsame
    exact hsame.1.symm
  intro loc hloc
  exact within_eq_iff.mp (CompileError.eq_of_mem_locations hfixed loc hloc)

/-! ## Texts with the same tokens -/

/-- The places are those of tokens with the same number. -/
def SameToken (tokens tokens' : List Token) (loc loc' : Location) : Prop :=
  ∃ (i : Nat) (token token' : Token), tokens[i]? = some token ∧ tokens'[i]? = some token' ∧
    loc = token.location ∧ loc' = token'.location

lemma sameToken_placeIn {tokens tokens' : List Token} {number : Location}
    (h : number.line < tokens.length) (h' : number.line < tokens'.length) :
    SameToken tokens tokens' (placeIn tokens number) (placeIn tokens' number) := by
  refine ⟨number.line, tokens[number.line], tokens'[number.line], ?_, ?_, ?_, ?_⟩
  · exact List.getElem?_eq_getElem h
  · exact List.getElem?_eq_getElem h'
  · simp [placeIn, List.getElem?_eq_getElem h]
  · simp [placeIn, List.getElem?_eq_getElem h']

/-- Two texts whose tokens agree in kind and text give the same assembly, or they fail in the same
way: with the same kind of failure and the same messages, each at the place of the same token. -/
theorem assemble_of_faces {file source source' : String} {tokens tokens' : List Token}
    {ws ws' : Workspace} (h : tokenize source (.initial file) = .ok tokens ws)
    (h' : tokenize source' (.initial file) = .ok tokens' ws')
    (hfaces : tokens.map Token.face = tokens'.map Token.face) :
    (∃ text, assemble file source = .ok text ∧ assemble file source' = .ok text) ∨
    ∃ error error', assemble file source = .error (.error error) ∧
      assemble file source' = .error (.error error') ∧
      error.Corresponds (SameToken tokens tokens') error' := by
  obtain ⟨body, loc, htokens, hlexical, hmoved⟩ := compile_moved h
  obtain ⟨body', loc', htokens', -, hmoved'⟩ := compile_moved h'
  have hlength : tokens.length = tokens'.length := by
    simpa using congrArg List.length hfaces
  have hbody : body.map Token.face = body'.map Token.face := by
    rw [htokens, htokens', List.map_append, List.map_append] at hfaces
    exact (List.append_inj' hfaces rfl).1
  -- numbered tokens are the same for both texts
  have hsame : compileNumbered file body' = compileNumbered file body := by
    have hcount := congrArg List.length hbody
    simp only [List.length_map] at hcount
    rw [compileNumbered, compileNumbered, numbered_congr hbody, hcount]
  rw [hsame] at hmoved'
  simp only [assemble, EStateM.run]
  rcases hrun : compileNumbered file body with ⟨assembly, ws₁⟩ | ⟨error | defect, ws₁⟩
  · rw [hrun] at hmoved hmoved'
    rw [hmoved.eq_ok, hmoved'.eq_ok]
    exact Or.inl ⟨assembly.text, rfl, rfl⟩
  · -- the message stands at the number of a token, and thus at the same token in both texts
    have hlines := line_lt_of_compileNumbered hlexical hrun
    rw [hrun] at hmoved hmoved'
    rw [hmoved.eq_error, hmoved'.eq_error]
    refine Or.inr ⟨_, _, rfl, rfl, CompileError.relocate_corresponds fun number hnumber => ?_⟩
    have hlt : number.line < tokens.length := by
      have := hlines number hnumber
      rw [htokens, List.length_append]
      simpa using this
    exact sameToken_placeIn hlt (hlength ▸ hlt)
  · -- a broken promise would be one for the first text as well
    rw [hrun] at hmoved
    obtain ⟨d, ws₂, hdefect⟩ := hmoved.exists_defect
    have hsafe := compile_safe file source
    rw [Lowering.Safe, hdefect] at hsafe
    exact hsafe.elim

/-- Whether two texts are cut into tokens that agree in kind and text. -/
def sameFaces (file source source' : String) : Bool :=
  match tokenize source (.initial file), tokenize source' (.initial file) with
  | .ok tokens _, .ok tokens' _ => tokens.map Token.face = tokens'.map Token.face
  | _, _ => false

lemma tokenize_of_sameFaces {file source source' : String}
    (h : sameFaces file source source' = true) : ∃ tokens tokens' ws ws',
      tokenize source (.initial file) = .ok tokens ws ∧
      tokenize source' (.initial file) = .ok tokens' ws' ∧
      tokens.map Token.face = tokens'.map Token.face := by
  unfold sameFaces at h
  split at h
  · rename_i tokens ws tokens' ws' htokens htokens'
    exact ⟨tokens, tokens', ws, ws', htokens, htokens', of_decide_eq_true h⟩
  · cases h

/-- A text that breaks off after two findings, on one line and on several lines with comments. -/
theorem assemble_of_faces_comments : ∃ tokens tokens' ws ws' error error',
    tokenize "(let s64 x)(let u64 x)(:= x(+ 1 y))(let" (.initial "comments") = .ok tokens ws ∧
    tokenize "(let s64 x) ; a number\n(let u64 x)\n\t(:= x\n  (+ 1 y)) ; \n (let ; end"
      (.initial "comments") = .ok tokens' ws' ∧
    tokens.map Token.face = tokens'.map Token.face ∧
    assemble "comments" "(let s64 x)(let u64 x)(:= x(+ 1 y))(let" = .error (.error error) ∧
    assemble "comments" "(let s64 x) ; a number\n(let u64 x)\n\t(:= x\n  (+ 1 y)) ; \n (let ; end" =
      .error (.error error') ∧
    error.Corresponds (SameToken tokens tokens') error' := by
  have hsame : sameFaces "comments" "(let s64 x)(let u64 x)(:= x(+ 1 y))(let"
      "(let s64 x) ; a number\n(let u64 x)\n\t(:= x\n  (+ 1 y)) ; \n (let ; end" = true := by
    decide +kernel
  have hfails : (assemble "comments" "(let s64 x)(let u64 x)(:= x(+ 1 y))(let").isOk = false := by
    decide +kernel
  obtain ⟨tokens, tokens', ws, ws', h, h', hfaces⟩ := tokenize_of_sameFaces hsame
  rcases assemble_of_faces h h' hfaces with ⟨text, htext, -⟩ | ⟨error, error', herror⟩
  · rw [htext] at hfails
    cases hfails
  · exact ⟨tokens, tokens', ws, ws', error, error', h, h', hfaces, herror⟩

end ParenC
