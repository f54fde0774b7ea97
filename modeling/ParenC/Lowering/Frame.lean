/-
The frames of functions.

A frame holds the parameters of a function and every variable declared in its body, one below
the other, in the order of their declarations.

The bytes of a frame are counted in words of 64 bits, which start again from zero.  A program whose
variables take more than that gets a frame in which they overlap; a build that checks its sums
stops there instead.
-/
import ParenC.Lowering.Basic

namespace ParenC

namespace Node

mutual

/-- The variables that a node declares for the function around it, in the order of the text. -/
def declared (node : Node) : List SymbolId :=
  match node with
  | varDecl _ symbol? => symbol?.toList
  | binary _ _ lhs rhs => lhs.declared ++ rhs.declared
  | block _ body => declaredAll body
  | call _ _ args => declaredAll args
  | ifThen _ cond body => cond.declared ++ declaredAll body
  | ifElse _ cond thenBody elseBody =>
    cond.declared ++ declaredAll thenBody ++ declaredAll elseBody
  | whileLoop _ cond body => cond.declared ++ declaredAll body
  | forLoop _ init cond step body =>
    init.declared ++ cond.declared ++ step.declared ++ declaredAll body
  | cast _ _ operand => operand.declared
  | returnValue _ value _ => value.declared
  | _ => []
termination_by structural node

/-- The variables that several nodes declare. -/
def declaredAll (nodes : List Node) : List SymbolId :=
  match nodes with
  | [] => []
  | node :: rest => node.declared ++ declaredAll rest
termination_by structural nodes

end

end Node

namespace Lowering

/-- Give a variable its place below the `used` bytes of the frame, and say how many bytes are
used then. -/
def place (used : Nat) (id : SymbolId) : CompileM Nat := do
  let ws ← get
  let type ← CompileM.promised (do (← ws.symbols.get id).type)
  let used := (used + (← CompileM.promised (ws.types.get type)).size) % wordCount
  let symbols ← CompileM.promised (ws.symbols.modify id (·.place used))
  set { ws with symbols }
  return used

/-- Give several variables their places. -/
def placeAll (used : Nat) : List SymbolId → CompileM Nat
  | [] => return used
  | id :: rest => do placeAll (← place used id) rest

/-- The alignment of the stack. -/
def stackAlign : Nat := 16

/-- The size of a frame in which `used` bytes are used. -/
def frameSize (used : Nat) : Nat := roundUp used stackAlign % wordCount

end Lowering

end ParenC
