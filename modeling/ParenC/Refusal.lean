/-
Why reading stops.

A refusal ends the reading of a program at once.  It depends on the tokens alone, never on what
the names among them mean.
-/
import ParenC.Literal
import ParenC.Token

namespace ParenC

/-- Why a text is not a program. -/
inductive Refusal
  /-- No lexeme starts with the character. -/
  | unknownText
  /-- A token of one kind had to stand where another token stands. -/
  | expected (kind : TokenKind) (got : Token)
  /-- No construct allows the token where it stands. -/
  | unexpected (got : Token)
  /-- A literal has no value. -/
  | literal (fault : LiteralFault)
deriving DecidableEq

/-- The text that reports the refusal. -/
def Refusal.message : Refusal → String
  | unknownText => "unknown syntax"
  | expected kind got => "expected " ++ kind.describe ++ ", got " ++ got.describe
  | unexpected got => "unexpected " ++ got.describe
  | literal fault => fault.message

end ParenC
