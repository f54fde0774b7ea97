/-
Names are resolved by lexical scoping.

Reading looks names up in a table of open scopes, which it changes as it goes through the text.
What comes out is what the text alone says: every name means the declaration in the innermost
region around it that has one before that point.  Besides, variables and the ends of functions
know the function around them.
-/
import ParenC.Proofs.Reading.Writing

namespace ParenC

/-! ## Functions around a construct -/

/-- The construct stands somewhere in the program, and `owner` is the function around it, none at
the top level. -/
inductive Program.Holds (program : Program) : Option SymbolId → Node → Prop
  | top {node : Node} (h : node ∈ program.items) : Holds program none node
  | inside {owner : Option SymbolId} {node part : Node} (h : Holds program owner node)
      (hpart : part ∈ node.parts) : Holds program (node.frame owner) part

/-- A variable that is declared or mentioned is one of the function `owner`, and so is the end of a
function. -/
def Node.BelongsTo (symbols : SymbolTable) (owner : Option SymbolId) : Node → Prop
  | varDecl _ symbol? | varRef _ symbol? => ∃ id, symbol? = some id ∧ symbols.HasVariable owner id
  | returnVoid _ function | returnValue _ _ function => owner = some function
  | _ => True

namespace Program.Holds

open Node Reading

variable {program : Program} {owner : Option SymbolId} {node : Node} {ws ws' : Workspace}

lemma mem_checkOrderAll (h : program.Holds owner node) : node ∈ checkOrderAll program.items := by
  induction h with
  | top h => exact Node.mem_checkOrderAll.mpr ⟨_, h, self_mem_checkOrder _⟩
  | inside h hpart ih =>
    refine checkOrderAll_trans ih (mem_checkOrder.mpr (Or.inr ?_))
    exact Node.mem_checkOrderAll.mpr ⟨_, hpart, self_mem_checkOrder _⟩

lemma fits (h : program.Holds owner node) (hclean : Clean .topLevel ws program.items ws') :
    node.Fits ws'.symbols owner := by
  induction h with
  | top h => exact hclean.fits _ h
  | inside h hpart ih => exact ih.parts _ hpart

/-- What a construct declares are variables of the function around it. -/
lemma declared (h : program.Holds owner node) (hclean : Clean .topLevel ws program.items ws') :
    node.declared ⊆ ws'.symbols.locals owner := by
  induction h with
  | top h =>
    have howner : (none : Option SymbolId) = Place.topLevel.owner? := rfl
    rw [hclean.locals none (by simp), if_pos howner]
    exact fun id hid => List.mem_append_right _ (declared_subset_declaredAll h hid)
  | @inside owner node part h hpart ih =>
    cases hfunction : node.isFunction with
    | false =>
      have hframe : node.frame owner = owner := by
        cases node with
        | functionDef => simp [isFunction] at hfunction
        | _ => rfl
      rw [hframe]
      exact fun id hid => ih (declared_subset hpart hfunction hid)
    | true =>
      -- a function has its own variables
      cases node with
      | functionDef loc symbol? params body =>
        obtain ⟨f, rfl⟩ := Option.ne_none_iff_exists'.mp (h.fits hclean).named
        obtain ⟨-, -, hlocals⟩ := hclean.frames h.mem_checkOrderAll
        rw [show (functionDef loc (some f) params body).frame owner = some f from rfl, hlocals]
        exact fun id hid => List.mem_append_right _ (declared_subset_declaredAll hpart hid)
      | _ => simp [isFunction] at hfunction

lemma belongsTo (h : program.Holds owner node) (hclean : Clean .topLevel ws program.items ws') :
    node.BelongsTo ws'.symbols owner := by
  have hnamed := (h.fits hclean).named
  cases node with
  | varRef loc symbol? => exact hnamed
  | varDecl loc symbol? =>
    obtain ⟨id, rfl⟩ := Option.ne_none_iff_exists'.mp hnamed
    refine ⟨id, rfl, SymbolTable.mem_locals.mp (h.declared hclean ?_)⟩
    simp [Node.declared]
  | returnVoid loc function => exact hnamed
  | returnValue loc value function => exact hnamed
  | _ => trivial

end Program.Holds

/-! ## Names -/

/-- Names in a program that was read without findings are resolved by lexical scoping, and
variables belong to the function around them.  The marks in which this is said have the tokens of
the text. -/
theorem lexicallyScoped_of_readQuietly {file source : String} {tokens : List Token}
    {program : Program} {ws : Workspace} (h : ReadQuietly file source tokens program ws) :
    Mark.faces (program.marks ws.toTables) = textFaces tokens ∧
    LexicallyScoped ws.toTables (program.marks ws.toTables) ∧
    ∀ {owner node}, program.Holds owner node → node.BelongsTo ws.symbols owner := by
  obtain ⟨ws₀, hinitial, hgrows, hread, hwrites⟩ := h.writes
  have hquiet : ws.Quiet := by
    obtain ⟨-, -, -, hquiet⟩ := h
    exact hquiet
  have hglobal : ws.symbols.enclosing = [] :=
    hgrows.enclosing.trans (congrArg (·.symbols.enclosing) hinitial)
  have hstart : Reading.scoping ws₀ = .initial := by
    simp only [Reading.scoping, congrArg Tables.symbols hinitial]
    rfl
  have hwalk := hwrites.walk h.after
  rw [hstart] at hwalk
  refine ⟨hwrites.faces_eq h.after, hwalk.lexicallyScoped hglobal rfl, ?_⟩
  intro owner node hholds
  exact hholds.belongsTo (hread.clean hquiet)

/-- A program in which one name means a type, a function and variables of several regions. -/
theorem lexicallyScoped_of_readQuietly_shadowing : ∃ tokens program ws,
    ReadQuietly "shadowing" ("(typedef x u64) (let x y) " ++
      "(defun g (x: x y: x) u64 (if (== x y) (let bool x) (:= x (== y (g y y)))) (return x)) " ++
      "(while (== y 1u) (exfun x) (x y) (for (let s64 x) (== x 1) (:= x 2)))")
      tokens program ws ∧
    Mark.faces (program.marks ws.toTables) = textFaces tokens ∧
    LexicallyScoped ws.toTables (program.marks ws.toTables) ∧
    ∀ {owner node}, program.Holds owner node → node.BelongsTo ws.symbols owner := by
  have hverdict : verdict "shadowing" ("(typedef x u64) (let x y) " ++
      "(defun g (x: x y: x) u64 (if (== x y) (let bool x) (:= x (== y (g y y)))) (return x)) " ++
      "(while (== y 1u) (exfun x) (x y) (for (let s64 x) (== x 1) (:= x 2)))") = some true := by
    decide +kernel
  obtain ⟨tokens, program, ws, h⟩ := ReadQuietly.of_verdict hverdict
  exact ⟨tokens, program, ws, h, lexicallyScoped_of_readQuietly h⟩

end ParenC
