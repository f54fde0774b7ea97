/-
Laying out automata.

A pattern is run as an automaton.  To know how large the automaton is, it is laid out without being
built: states are counted, and so is the further room of those states that have several ways out.
Parts are laid out one after the other, and each one says whether its last state is a fork, because
a fork needs room for every state that it is linked to.  Laying out ends as soon as the automaton
is too large.
-/

namespace ParenC.Pattern

/-- The room that an automaton takes. -/
structure Room where
  /-- The number of states. -/
  states : Nat := 0
  /-- The number of bytes beside the states themselves. -/
  further : Nat := 0

namespace Room

/-- The size of a state. -/
def stateBytes : Nat := 32

/-- The size of a way out of a state that reads bytes. -/
def edgeBytes : Nat := 8

/-- The size of a way out of a fork. -/
def linkBytes : Nat := 4

/-- The size of the largest automaton that is accepted. -/
def maxBytes : Nat := 10485760

/-- The size of the automaton. -/
def bytes (room : Room) : Nat := stateBytes * room.states + room.further

/-- The room of two automata. -/
def add (left right : Room) : Room :=
  ⟨left.states + right.states, left.further + right.further⟩

end Room

/-- A step that lays out a part of an automaton.  It fails if the automaton becomes too large. -/
abbrev Layout := StateT Room Option

namespace Layout

/-- Take room.  The result is the number of states before. -/
def take (room : Room) : Layout Nat := fun before =>
  let after := before.add room
  if Room.maxBytes < after.bytes then none else some (before.states, after)

/-- Add a state that has only one way out. -/
def state : Layout Nat := take ⟨1, 0⟩

/-- Add a state with several ways out that read bytes. -/
def choice (edges : Nat) : Layout Nat := take ⟨1, Room.edgeBytes * edges⟩

/-- Link a state to another one.  Only forks need room for this. -/
def link (isFork : Bool) : Layout Unit := do
  if isFork then let _ ← take ⟨0, Room.linkBytes⟩

/-- Lay out the given number of copies one after the other, behind something that ends in a fork
or not. -/
def copiesBehind (once : Layout Bool) (isFork : Bool) : Nat → Layout Bool
  | 0 => return isFork
  | count + 1 => do
    let next ← once
    link isFork
    copiesBehind once next count

/-- Lay out the given number of copies one after the other. -/
def copies (once : Layout Bool) : Nat → Layout Bool
  | 0 => do let _ ← state; return false
  | count + 1 => do copiesBehind once (← once) count

/-- Lay out copies that may be left out from some point on. -/
def optionalCopies (once : Layout Bool) (isFork : Bool) : Nat → Layout Bool
  | 0 => return isFork
  | count + 1 => do
    let _ ← state
    let next ← once
    link isFork
    link true
    link true
    optionalCopies once next count

/-- Lay out at least the given number of copies.  `hasLength` says whether a copy always reads
something. -/
def unbounded (once : Layout Bool) (hasLength : Bool) : Nat → Layout Bool
  | 0 => do
    if hasLength then
      let _ ← state
      let isFork ← once
      link true
      link isFork
      return true
    else
      let isFork ← once
      let _ ← state
      link isFork
      link true
      let _ ← state
      let _ ← state
      link true
      link true
      link true
      return false
  | 1 => do
    let isFork ← once
    let _ ← state
    link isFork
    link true
    return true
  | count + 2 => do
    let before ← copies once (count + 1)
    let last ← once
    let _ ← state
    link before
    link last
    link true
    return true

/-- Lay out repetitions. -/
def repetition (once : Layout Bool) (hasLength : Bool) (least : Nat) (most? : Option Nat) :
    Layout Bool := do
  match most? with
  | none => unbounded once hasLength least
  | some most =>
    if least = most then copies once least
    else if least = 0 && most = 1 then
      let _ ← state
      let isFork ← once
      let _ ← state
      link true
      link true
      link isFork
      return false
    else
      let before ← copies once least
      let _ ← state
      link (← optionalCopies once before (most - least))
      return false

/-- Lay out one part behind another one. -/
def chain (first second : Layout Bool) : Layout Bool := do
  let isFork ← first
  let last ← second
  link isFork
  return last

/-- Lay out branches: a fork that leads to them stands behind the first two. -/
def alternatives : List (Layout Bool) → Layout Bool
  | [] => do let _ ← state; return false
  | [only] => only
  | first :: second :: rest => do
    let firstForks ← first
    let secondForks ← second
    let _ ← state
    let _ ← state
    link true
    link firstForks
    link true
    link secondForks
    for branch in rest do
      let isFork ← branch
      link true
      link isFork
    return false

end Layout

/-- What was laid out lately, to be used again.  Each thing has a slot that depends on what it
is, and a thing is forgotten when another one comes into its slot. -/
structure Recent where
  /-- The number of slots. -/
  slots : Nat
  /-- The slots that are in use, each with a thing and the state where it was laid out; only the
  first entry for a slot counts. -/
  entries : List (Nat × List Nat × Nat) := []

namespace Recent

/-- The slot of a thing that is given by numbers. -/
def slot (recent : Recent) (thing : List Nat) : Nat :=
  let hash := thing.foldl (fun (hash : UInt64) number =>
    (hash ^^^ number.toUInt64) * 1099511628211) 14695981039346656037
  hash.toNat % recent.slots

/-- The state where a thing was laid out. -/
def find? (recent : Recent) (thing : List Nat) : Option Nat :=
  match recent.entries.lookup (recent.slot thing) with
  | some (held, state) => if held = thing then some state else none
  | none => none

/-- Keep a thing. -/
def put (recent : Recent) (thing : List Nat) (state : Nat) : Recent :=
  { recent with entries := (recent.slot thing, thing, state) :: recent.entries }

/-- The state where a thing is laid out, which takes the given room if it is not there yet. -/
def place (recent : Recent) (thing : List Nat) (room : Room) : Layout (Nat × Recent) := do
  match recent.find? thing with
  | some state => return (state, recent)
  | none =>
    let state ← Layout.take room
    return (state, recent.put thing state)

end Recent

end ParenC.Pattern
