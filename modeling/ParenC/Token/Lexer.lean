/-
Cutting a source text into tokens.

At each character that no earlier token covers, `Piece.ofText` looks at the text that follows
and says what stands there: a gap (line break, blank or comment), a lexeme with its length, or
nothing that the language knows.  `Scan.run` walks the text once; after a piece of `n`
characters it passes over the `n - 1` that remain of it, so that the walk is a plain recursion
on the text.

Every lexeme is written in single-byte characters, and other characters are accepted inside
comments only.  So the length of a lexeme in characters is its width in bytes.  A comment does
not move the column: what follows it is either a line break, which starts a new line, or the
end of the text, which is reported where the comment starts.
-/
import ParenC.Token

namespace ParenC

/-- The words that no program may use as a name and that are not types. -/
def keywords : List String :=
  ["let", "defun", "exfun", "return", "if", "else", "while", "for", "typedef", "true", "false",
    "struct"]

/-- The names of the builtin types. -/
def typeNames : List String := ["void", "s64", "u64", "bool"]

/-- The operators; of two that start alike the longer one comes first. -/
def operators : List String := [":=", "==", "!=", "<=", ">=", "<", ">", "+", "-", "*", "/", "%"]

/-- A character that a word can start with. -/
def isWordStart (c : Char) : Bool := c.isAlpha || c == '_'

/-- A character that a word can go on with. -/
def isWordChar (c : Char) : Bool := c.isAlphanum || c == '_'

/-- The kind of a word: a keyword, a type name or else an identifier. -/
def wordKind (word : String) : TokenKind :=
  if keywords.contains word then .keyword
  else if typeNames.contains word then .typeName
  else .ident

/-- The number of digits at the front of a text that belong to one literal: a leading zero
stands alone. -/
def digitCount : List Char → Nat
  | '0' :: _ => 1
  | cs => (cs.takeWhile Char.isDigit).length

/-- The length of a literal without sign at the front of a text: digits and perhaps the mark
`u` of an unsigned value. -/
def magnitudeLength (cs : List Char) : Nat :=
  match cs.drop (digitCount cs) with
  | 'u' :: _ => digitCount cs + 1
  | _ => digitCount cs

/-- The length of the integer literal at the front of a text.  A minus sign belongs to the
literal if a digit other than zero follows it. -/
def integerLength? : List Char → Option Nat
  | [] => none
  | '-' :: d :: cs =>
    if d.isDigit && d != '0' then some (1 + magnitudeLength (d :: cs)) else none
  | d :: cs => if d.isDigit then some (magnitudeLength (d :: cs)) else none

/-- The length of the operator at the front of a text. -/
def operatorLength? (cs : List Char) : Option Nat :=
  (operators.find? fun op => op.toList.isPrefixOf cs).map String.length

/-- The kind of a token that a single character makes. -/
def punctuation? : Char → Option TokenKind
  | '(' => some .lparen
  | ')' => some .rparen
  | ':' => some .colon
  | _ => none

/-- What stands at the front of a text. -/
inductive Piece
  /-- A line break. -/
  | newline
  /-- A space, a tabulator or a carriage return. -/
  | blank
  /-- A comment of `length` characters, the line break after it not included. -/
  | comment (length : Nat)
  /-- A lexeme of `length` characters. -/
  | lexeme (kind : TokenKind) (length : Nat)
  /-- Nothing that the language knows. -/
  | unknown
deriving DecidableEq

/-- What stands at the front of the text `c :: cs`. -/
def Piece.ofText (c : Char) (cs : List Char) : Piece :=
  if c == '\n' then .newline
  else if c == ' ' || c == '\t' || c == '\r' then .blank
  else if c == ';' then .comment (1 + (cs.takeWhile (· != '\n')).length)
  else match integerLength? (c :: cs) with
    | some n => .lexeme .integer n
    | none => match operatorLength? (c :: cs) with
      | some n => .lexeme .operator n
      | none => match punctuation? c with
        | some kind => .lexeme kind 1
        | none =>
          if isWordStart c then
            let word := c :: cs.takeWhile isWordChar
            .lexeme (wordKind (String.ofList word)) word.length
          else .unknown

/-- How the walk over a text ended. -/
inductive Ending
  /-- The whole text was cut; the location is that of its end. -/
  | finished (loc : Location)
  /-- No piece starts with the character at the location. -/
  | unknown (loc : Location)
deriving DecidableEq

/-- The tokens of a text up to the place where the walk ended. -/
structure Scan where
  /-- The lexemes met, in order; the end of the text is not among them. -/
  tokens : List Token
  /-- How the walk ended. -/
  ending : Ending
deriving DecidableEq

namespace Scan

/-- Put a token in front. -/
def cons (token : Token) (scan : Scan) : Scan := { scan with tokens := token :: scan.tokens }

/-- Walk over a text.  `covered` counts the characters at its front that belong to the piece
before it, and `loc` is the location of the first character after them. -/
def walk : (covered : Nat) → (loc : Location) → List Char → Scan
  | _, loc, [] => ⟨[], .finished loc⟩
  | n + 1, loc, _ :: cs => walk n loc cs
  | 0, loc, c :: cs =>
    match Piece.ofText c cs with
    | .newline => walk 0 loc.nextLine cs
    | .blank => walk 0 (loc.right 1) cs
    | .comment n => walk (n - 1) loc cs
    | .lexeme kind n =>
      (walk (n - 1) (loc.right n) cs).cons ⟨kind, loc, String.ofList ((c :: cs).take n)⟩
    | .unknown => ⟨[], .unknown loc⟩

/-- Cut a whole text. -/
def run (source : String) : Scan := walk 0 .start source.toList

end Scan

end ParenC
