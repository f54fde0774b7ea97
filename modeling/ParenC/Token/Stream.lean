/-
A cursor over tokens.

A stream always has a next token.  Its last token marks the end of the text, and a stream that
stands at an end marker stays there, so that reading on never fails for lack of tokens.
-/
import ParenC.Refusal

namespace ParenC

/-- The tokens from the cursor on. -/
structure TokenStream where
  /-- The token at the cursor. -/
  next : Token
  /-- The tokens after it. -/
  later : List Token
deriving DecidableEq

namespace TokenStream

/-- A stream over the given tokens.  When the last of them is no end marker, one is added at
the location of that token. -/
def ofTokens (tokens : List Token) : TokenStream :=
  match tokens with
  | [] => ⟨Token.eof .nowhere, []⟩
  | first :: rest =>
    let last := rest.getLastD first
    ⟨first, if last.kind = .eof then rest else rest ++ [Token.eof last.location]⟩

/-- All tokens from the cursor on. -/
def toList (stream : TokenStream) : List Token := stream.next :: stream.later

/-- The token `n` places after the cursor, or the last one where there are not so many. -/
def peek (stream : TokenStream) : Nat → Token
  | 0 => stream.next
  | n + 1 => stream.later[n]?.getD (stream.later.getLastD stream.next)

/-- Move past the token at the cursor.  An end marker is never passed. -/
def advance (stream : TokenStream) : TokenStream :=
  if stream.next.kind = .eof then stream
  else match stream.later with
    | [] => stream
    | token :: rest => ⟨token, rest⟩

/-- Whether the cursor stands at an end marker. -/
def isEof (stream : TokenStream) : Bool := stream.next.kind == .eof

/-- Move past the token at the cursor if it is of the given kind. -/
def expect (stream : TokenStream) (kind : TokenKind) : Except Refusal (Token × TokenStream) :=
  if stream.next.kind = kind then .ok (stream.next, stream.advance)
  else .error (.expected kind stream.next)

end TokenStream

end ParenC
