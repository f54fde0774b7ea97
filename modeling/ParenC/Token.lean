/-
Tokens, the units of a source text.

A token has a kind, the text it was cut from and the place where that text starts.  The kind
alone decides how a token is used; the text tells keywords, names, operators and literals of
one kind apart.
-/
import ParenC.Location

namespace ParenC

/-- What a token is for. -/
inductive TokenKind
  /-- An opening parenthesis. -/
  | lparen
  /-- A closing parenthesis. -/
  | rparen
  /-- The colon between a name and its type. -/
  | colon
  /-- A reserved word that selects a construct, or a boolean literal. -/
  | keyword
  /-- The name of a builtin type. -/
  | typeName
  /-- A binary operator, assignment included. -/
  | operator
  /-- An integer literal. -/
  | integer
  /-- A name chosen by the program. -/
  | ident
  /-- The end of the text. -/
  | eof
deriving DecidableEq

namespace TokenKind

/-- Every kind, in the order of declaration. -/
def all : List TokenKind :=
  [lparen, rparen, colon, keyword, typeName, operator, integer, ident, eof]

/-- How a message speaks of a token of this kind. -/
def describe : TokenKind → String
  | lparen => "'('"
  | rparen => "')'"
  | colon => "':'"
  | keyword => "keyword"
  | typeName => "type"
  | operator => "binary operator"
  | integer => "integer literal"
  | ident => "identifier"
  | eof => "EOF"

/-- The name of the kind in the log. -/
def name : TokenKind → String
  | lparen => "LParen"
  | rparen => "RParen"
  | colon => "Colon"
  | keyword => "Keyword"
  | typeName => "Type"
  | operator => "Operator"
  | integer => "Integer"
  | ident => "Ident"
  | eof => "Eof"

/-- Whether the text of such a token says more than its kind. -/
def hasText : TokenKind → Bool
  | lparen | rparen | colon | eof => false
  | keyword | typeName | operator | integer | ident => true

end TokenKind

/-- A unit of the source text. -/
structure Token where
  /-- What the token is for. -/
  kind : TokenKind
  /-- Where its first character stands. -/
  location : Location
  /-- The characters it was cut from; empty at the end of the text. -/
  text : String
deriving DecidableEq

namespace Token

/-- The end of a text, at `loc`. -/
def eof (loc : Location) : Token := ⟨.eof, loc, ""⟩

/-- Whether the token has this kind and this text. -/
def is (token : Token) (kind : TokenKind) (text : String) : Bool :=
  token.kind == kind && token.text == text

/-- How a message speaks of the token: its kind, and its text where the kind leaves it open. -/
def describe (token : Token) : String :=
  if token.kind.hasText then token.kind.describe ++ " '" ++ token.text ++ "'"
  else token.kind.describe

end Token

end ParenC
