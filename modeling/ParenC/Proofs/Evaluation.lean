/-
What expressions mean.

Every value is a word of 64 bits, and zero is the only word that is false.  A variable of type
`bool` holds the low byte of what is stored in it.  Operands are evaluated before the operator is
applied, the right one first, and arguments from left to right.  Evaluation changes variables,
makes calls, and stops at a division that has no result.
-/
import ParenC.Proofs.Machine
import ParenC.Tree

namespace ParenC

/-! ## Operators -/

/-- Quotient and remainder, if there are any: nothing is divided by zero, and the least signed
number is not divided by minus one. -/
def Word.divMod (unsigned : Bool) (a b : Word) : Option (Word × Word) :=
  if b = 0 then none
  else if unsigned then some (a / b, a % b)
  else if a = BitVec.intMin 64 ∧ b = -1 then none
  else some (a.sdiv b, a.srem b)

/-- The result of an operator, if there is one. -/
def ArithOp.apply (unsigned : Bool) (a b : Word) : ArithOp → Option Word
  | add => some (a + b)
  | sub => some (a - b)
  | mul => some (a * b)
  | div => (Word.divMod unsigned a b).map Prod.fst
  | mod => (Word.divMod unsigned a b).map Prod.snd

/-- Whether a comparison holds. -/
def CompareOp.holds (unsigned : Bool) (a b : Word) : CompareOp → Bool
  | eq => a == b
  | ne => a != b
  | lt => if unsigned then a.ult b else a.slt b
  | le => if unsigned then a.ule b else a.sle b
  | gt => if unsigned then b.ult a else b.slt a
  | ge => if unsigned then b.ule a else b.sle a

/-- The word that stands for a truth value. -/
def Word.ofBool (b : Bool) : Word := if b then 1 else 0

/-- The word that stands for a literal. -/
def IntegerValue.bits : IntegerValue → Word
  | signed v => BitVec.ofInt 64 v
  | unsigned v => BitVec.ofNat 64 v

/-- The word with all but its low byte cleared. -/
def Word.lowByte (word : Word) : Word := word.low.setWidth 64

/-! ## Evaluation -/

/-- The variables of a function while it runs, and the calls so far. -/
structure Store where
  /-- What each variable holds. -/
  locals : SymbolId → Word
  /-- The calls so far. -/
  calls : List Call

/-- Change a variable. -/
def Store.set (s : Store) (id : SymbolId) (word : Word) : Store :=
  { s with locals := fun other => if other = id then word else s.locals other }

/-- Add a call. -/
def Store.called (s : Store) (name : String) (args : List Word) : Store :=
  { s with calls := s.calls ++ [⟨name, args⟩] }

/-- Compute something while variables change and calls are made. -/
abbrev Evaluating := StateT Store (Except Trap)

namespace Node

/-- Whether the type of a node is a builtin type under whatever name. -/
def isOf (tables : Tables) (which : Builtin) (node : Node) : Bool :=
  match node.deepType tables with
  | .ok root => root = which.id
  | .error _ => false

/-- Store a word in the variable that a node stands for. -/
def assign (tables : Tables) (target : Node) (word : Word) : Evaluating Unit :=
  match target.symbol? with
  | some id => modify (·.set id (if target.isOf tables .bool then word.lowByte else word))
  | none => throw .stuck

/-- Make a call; call number `n` has the result `results n`. -/
def ask (tables : Tables) (results : Nat → Word) (callee : SymbolId) (args : List Word) :
    Evaluating Word := do
  match tables.symbols.get callee with
  | .ok symbol =>
    let number := (← get).calls.length
    modify (·.called symbol.name args)
    return results number
  | .error _ => throw .stuck

mutual

/-- The value of an expression. -/
def evaluate (tables : Tables) (results : Nat → Word) (node : Node) : Evaluating Word :=
  match node with
  | integer _ v => return v.bits
  | boolean _ b => return .ofBool b
  | varRef _ (some id) | varDecl _ (some id) => return (← get).locals id
  | binary _ .assign lhs rhs => do
    let word ← rhs.evaluate tables results
    lhs.assign tables word
    return word
  | binary _ (.arith op) lhs rhs => do
    let b ← rhs.evaluate tables results
    let a ← lhs.evaluate tables results
    match op.apply (lhs.isOf tables .u64) a b with
    | some word => return word
    | none => throw (.fault (← get).calls)
  | binary _ (.compare op) lhs rhs => do
    let b ← rhs.evaluate tables results
    let a ← lhs.evaluate tables results
    return .ofBool (op.holds (lhs.isOf tables .u64) a b)
  | call _ (some callee) args => do
    let words ← evaluateAll tables results args
    let word ← ask tables results callee words
    return if node.isOf tables .bool then word.lowByte else word
  | cast _ _ operand => do
    let word ← operand.evaluate tables results
    return if node.isOf tables .bool && !operand.isOf tables .bool then .ofBool (word != 0)
      else word
  | _ => throw .stuck
termination_by structural node

/-- The values of arguments. -/
def evaluateAll (tables : Tables) (results : Nat → Word) (args : List Node) :
    Evaluating (List Word) :=
  match args with
  | [] => return []
  | arg :: rest => do
    let word ← arg.evaluate tables results
    return word :: (← evaluateAll tables results rest)
termination_by structural args

end

end Node

end ParenC
