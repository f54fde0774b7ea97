/-
How things are called does not matter.

The names that a text chooses for variables, parameters, struct fields and types are compared with
each other, and shown in messages.  So if every name is replaced, different names by different
ones, the text compiles to the same assembly, or it fails in the same way at the same places.  The
names of functions are different: they are the labels that others link against, and they are kept.

Replacing names by others is done in the tokens of a text.  What the new names are is of no account,
not even whether a text could have them.
-/
import Mathlib.Logic.Equiv.Fintype
import ParenC.Proofs.Relocation
import ParenC.Proofs.Renaming.Lowering
import ParenC.Proofs.Renaming.Reading

namespace ParenC

open CompileM SymbolTable

variable {f : String → String}

/-! ## Compiling tokens -/

/-- Read and check a text that was cut into tokens. -/
def analyzeTokens (tokens : List Token) : CompileM Program := do
  log (.tokenized (← get).journal.file tokens.length)
  let program ← Reading.program tokens
  endPhase .parsing
  Typing.check program
  endPhase .typeChecking
  return program

lemma analyze_eq (source : String) : analyze source = tokenize source >>= analyzeTokens := rfl

lemma compileTokens_eq (tokens : List Token) :
    compileTokens tokens = analyzeTokens tokens >>= Lowering.generate := by
  simp only [compileTokens, analyzeTokens, bind_assoc, pure_bind]

/-- What a compilation leaves: the assembly text, or why there is none. -/
def textOf : EStateM.Result Failure Workspace Assembly → Except Failure String
  | .ok assembly _ => .ok assembly.text
  | .error failure _ => .error failure

/-- The assembly text for a text that was cut into tokens; messages show the given file name. -/
def assembleTokens (file : String) (tokens : List Token) : Except Failure String :=
  textOf (compileTokens tokens (.tokenized file (tokens.takeWhile (·.kind != .eof))))

lemma assemble_eq_textOf (file source : String) :
    assemble file source = textOf (compile source (.initial file)) := by
  rw [assemble, EStateM.run]
  cases compile source (.initial file) <;> rfl

/-- A text is compiled as its tokens are. -/
lemma assemble_eq_assembleTokens {file source : String} {tokens : List Token} {ws : Workspace}
    (h : tokenize source (.initial file) = .ok tokens ws) :
    assemble file source = assembleTokens file tokens := by
  rw [assemble_eq_textOf, compile_of_tokenize h]
  obtain ⟨body, loc, rfl, rfl, hlexical⟩ := tokenized_of_tokenize h
  rw [assembleTokens, takeWhile_body fun token htoken => (hlexical token htoken).2]

/-- Reading and checking a text with other names. -/
lemma analyzeTokens_renames (hf : Function.Injective f) {body : List Token}
    (hbody : ∀ token ∈ body, token.kind ≠ .eof) (loc : Location)
    (hnames : ∀ name ∈ functionNames body, f name = name) {ws ws' : Workspace}
    (halike : ws.Alike f (KeepsFunctions f) ws') (sound : ws.toTables.Sound) :
    Renamed f (KeepsFunctions f) id (analyzeTokens (body ++ [Token.eof loc]) ws)
      (analyzeTokens (body.map (Token.rename f) ++ [Token.eof loc]) ws') := by
  refine .get (.bind (Renames.log.run halike) ?_)
  intro _ ws₁ ws₁' hrun halike₁
  cases hrun
  refine (Reading.program_renames hf hbody loc hnames halike₁ sound).bind ?_
  intro program ws₂ ws₂' _ halike₂
  refine Renames.run (.bind .endPhase fun _ => ?_) halike₂
  exact .bind (Typing.check_renames program) fun _ => .bind .endPhase fun _ => .pure

/-- A map that tells some names apart agrees on them with one that tells all names apart. -/
lemma exists_injective {names : List String} (h : Set.InjOn f {name | name ∈ names}) :
    ∃ g : String → String, Function.Injective g ∧ ∀ name ∈ names, g name = f name := by
  obtain ⟨g, hg⟩ := Equiv.Perm.exists_extending_pair
    (fun name : {name // name ∈ names} => name.1) (fun name => f name.1)
    Subtype.val_injective fun x y hxy => Subtype.ext (h x.2 y.2 hxy)
  exact ⟨g, g.injective, fun name hname => hg ⟨name, hname⟩⟩

/-! ## Texts with other names -/

/-- Two compilations make the same assembly, or both fail, with the same kind of failure and with as
many findings at the same places. -/
inductive SameOutcome : Except Failure String → Except Failure String → Prop
  | text {text : String} : SameOutcome (.ok text) (.ok text)
  | error {error error' : CompileError} (h : error'.mute = error.mute) :
      SameOutcome (.error (.error error)) (.error (.error error'))

/-- A program that was read and checked from tokens. -/
lemma analyzed_of_tokens {file source : String} {tokens : List Token} {ws ws₁ : Workspace}
    {program : Program} (h : tokenize source (.initial file) = .ok tokens ws)
    (hrun : analyzeTokens tokens ws = .ok program ws₁) : program.Analyzed ws₁.toTables := by
  have hanalyze : analyze source (.initial file) = .ok program ws₁ := by
    rw [analyze_eq]
    simp only [bind, EStateM.bind, h, hrun]
  exact ((analyze_does file source).run hanalyze).2

/-- A workspace without types and symbols has no names. -/
lemma Workspace.tokenized_alike (file : String) (body : List Token) :
    (tokenized file body).Alike f (KeepsFunctions f)
      (tokenized file (body.map (Token.rename f))) where
  tables := congrArg₂ Tables.mk TypeTable.rename_initial.symm SymbolTable.rename_initial.symm
  symbols := .initial
  file := rfl
  findings := rfl

/-- Compiling a text with other names. -/
lemma compileTokens_renames (hf : Function.Injective f) {file source : String} {body : List Token}
    {loc : Location} (h : tokenize source (.initial file) =
      .ok (body ++ [Token.eof loc]) (.tokenized file body))
    (hbody : ∀ token ∈ body, token.kind ≠ .eof)
    (hnames : ∀ name ∈ functionNames body, f name = name) :
    Renamed f (fun _ => True) id
      (compileTokens (body ++ [Token.eof loc]) (.tokenized file body))
      (compileTokens (body.map (Token.rename f) ++ [Token.eof loc])
        (.tokenized file (body.map (Token.rename f)))) := by
  rw [compileTokens_eq, compileTokens_eq]
  refine (analyzeTokens_renames hf hbody loc hnames (Workspace.tokenized_alike file body)
    Tables.sound_initial).bind_imp (fun _ _ => trivial) ?_
  intro program ws₁ ws₁' hrun halike
  -- the calls in a program that was read are calls of functions
  have hanalyzed := analyzed_of_tokens h hrun
  have hgenerate := Lowering.generate_renames (f := f) program
    fun item hitem => (hanalyzed.checked item hitem).valid
  exact (hgenerate.run (halike.imp halike.symbols.keepsNamesOf)).imp fun _ _ => trivial

/-- What comes of two compilations, when none of them breaks a promise. -/
lemma Renamed.sameOutcome {kept : SymbolTable → Prop}
    {outcome outcome' : EStateM.Result Failure Workspace Assembly}
    (h : Renamed f kept id outcome outcome') (hsafe : ∀ d ws, outcome ≠ .error (.defect d) ws) :
    SameOutcome (textOf outcome) (textOf outcome') := by
  cases h with
  | ok h => exact .text
  | error he h => exact .error he
  | defect => exact absurd rfl (hsafe _ _)

/-- A text whose names are replaced, different ones by different ones, compiles to the same
assembly, or fails in the same way at the same places, if the functions in it keep their names. -/
theorem assemble_rename {file source : String} {tokens : List Token} {ws : Workspace}
    {f : String → String} (h : tokenize source (.initial file) = .ok tokens ws)
    (hdifferent : Set.InjOn f {name | name ∈ identifiers tokens})
    (hfunctions : ∀ name ∈ functionNames tokens, f name = name) :
    assemble file source = assembleTokens file tokens ∧
      SameOutcome (assembleTokens file tokens)
        (assembleTokens file (tokens.map (Token.rename f))) := by
  refine ⟨assemble_eq_assembleTokens h, ?_⟩
  -- a map that tells all names apart does the same to the text
  obtain ⟨g, hg, hagrees⟩ := exists_injective hdifferent
  have hkept : ∀ name ∈ functionNames tokens, g name = name := by
    intro name hname
    rw [hagrees name (functionNames_subset tokens hname), hfunctions name hname]
  have hsafe : ∀ d ws', compileTokens tokens ws ≠ .error (.defect d) ws' := by
    intro d ws' hdefect
    have hsafe := compile_safe file source
    rw [Lowering.Safe, compile_of_tokenize h, hdefect] at hsafe
    exact hsafe
  rw [← rename_congr hagrees]
  obtain ⟨body, loc, rfl, rfl, hlexical⟩ := tokenized_of_tokenize h
  have hbody : ∀ token ∈ body, token.kind ≠ .eof := fun token htoken => (hlexical token htoken).2
  have hrenamed : ∀ token ∈ body.map (Token.rename g), token.kind ≠ .eof := by
    intro token htoken
    obtain ⟨original, horiginal, rfl⟩ := List.mem_map.mp htoken
    exact hbody original horiginal
  have hrun := compileTokens_renames hg h hbody fun name hname =>
    hkept name (functionNames_subset_append body [Token.eof loc] hname)
  have heof : (Token.eof loc).rename g = Token.eof loc := Token.rename_of_ne (by simp [Token.eof])
  rw [List.map_append, List.map_singleton, heof, assembleTokens, assembleTokens,
    takeWhile_body hbody, takeWhile_body hrenamed]
  exact hrun.sameOutcome hsafe

/-- Replace the names in a table, and keep all others. -/
def replacing (table : List (String × String)) (name : String) : String :=
  (table.lookup name).getD name

/-- Whether a text is cut into tokens, and a map keeps the names in it apart and those of its
functions as they are. -/
def canRename (file source : String) (f : String → String) : Bool :=
  match tokenize source (.initial file) with
  | .ok tokens _ =>
    (identifiers tokens).all (fun a => (identifiers tokens).all fun b => f a != f b || a == b) &&
      (functionNames tokens).all fun name => f name == name
  | .error .. => false

lemma tokenize_of_canRename {file source : String} {f : String → String}
    (h : canRename file source f = true) : ∃ tokens ws,
      tokenize source (.initial file) = .ok tokens ws ∧
      Set.InjOn f {name | name ∈ identifiers tokens} ∧
      ∀ name ∈ functionNames tokens, f name = name := by
  unfold canRename at h
  split at h
  · rename_i tokens ws htokens
    simp only [Bool.and_eq_true, List.all_eq_true, Bool.or_eq_true, bne_iff_ne, beq_iff_eq] at h
    refine ⟨tokens, ws, htokens, fun a ha b hb hab => ?_, h.2⟩
    exact (h.1 a ha b hb).resolve_left fun hne => hne hab
  · cases h

/-- A text with names for a type, its fields, a parameter, variables and functions. -/
def namedText : String :=
  "(typedef pair (struct a : s64 b : u64))(exfun print (n : s64) void)" ++
    "(defun twice (n : s64) s64 (let s64 m)(:= m (+ n n))(return m))" ++
    "(let s64 x)(:= x (twice 2))(print x)"

/-- Exchange a parameter with a variable and one field with the other, call the variable of the top
level `main`, and call the type as that variable was called. -/
def exchange : String → String :=
  replacing [("n", "m"), ("m", "n"), ("a", "b"), ("b", "a"), ("x", "main"), ("pair", "x")]

/-- A text that compiles, and compiles to the same assembly with its names exchanged. -/
theorem assemble_rename_exchange : (assemble "names" namedText).isOk = true ∧ ∃ tokens ws,
    tokenize namedText (.initial "names") = .ok tokens ws ∧
    Set.InjOn exchange {name | name ∈ identifiers tokens} ∧
    (∀ name ∈ functionNames tokens, exchange name = name) ∧
    assemble "names" namedText = assembleTokens "names" tokens ∧
    SameOutcome (assembleTokens "names" tokens)
      (assembleTokens "names" (tokens.map (Token.rename exchange))) := by
  have hcan : canRename "names" namedText exchange = true := by decide +kernel
  obtain ⟨tokens, ws, h, hdifferent, hfunctions⟩ := tokenize_of_canRename hcan
  refine ⟨by decide +kernel, tokens, ws, h, hdifferent, hfunctions, ?_⟩
  exact assemble_rename h hdifferent hfunctions

end ParenC
