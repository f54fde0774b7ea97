/-
Nested lists of tokens.

Before a program is understood its parentheses are matched: a text becomes a sequence of data,
each a single token or a list of data between parentheses.  The matching loses nothing.  A list
that the text never closes is closed by the end marker, and a closing parenthesis that no list
is open for ends the sequence; both remain visible, and the reader of the data decides what to
say about them.
-/
import ParenC.Token.Stream

namespace ParenC

/-- A token, or a list of data. -/
inductive Datum
  /-- A token other than a parenthesis. -/
  | atom (token : Token)
  /-- The data between an opening parenthesis and the token that closes it: the matching
  parenthesis, or the end marker if there is none. -/
  | list (opening : Token) (items : List Datum) (closing : Token)

/-- The first token of a datum. -/
def Datum.first : Datum → Token
  | atom token => token
  | list opening _ _ => opening

/-- The token of a datum that is a single token. -/
def Datum.atom? : Datum → Option Token
  | atom token => some token
  | list .. => none

/-- What follows a point of a text inside one pair of parentheses: data, and then the token that
ends the list around them. -/
structure Remainder where
  /-- The data that follow. -/
  items : List Datum
  /-- The token after them: a closing parenthesis or the end marker. -/
  closing : Token

/-- Everything that follows a point of a text: the rest of the list around the point, after its
closing parenthesis the rest of the list around that, and so on outwards. -/
structure Nesting where
  /-- The rest of the innermost list. -/
  inner : Remainder
  /-- What follows the closing parentheses, from the inside outwards. -/
  outer : List Remainder

namespace Nesting

/-- Put a datum in front. -/
def cons (datum : Datum) (nesting : Nesting) : Nesting :=
  { nesting with inner := { nesting.inner with items := datum :: nesting.inner.items } }

/-- Put a closing parenthesis in front. -/
def close (closing : Token) (nesting : Nesting) : Nesting :=
  ⟨⟨[], closing⟩, nesting.inner :: nesting.outer⟩

/-- Put an opening parenthesis in front: the innermost remainder becomes a list, which is the
first datum of the remainder around it. -/
def enter (opening : Token) (nesting : Nesting) : Nesting :=
  let datum := Datum.list opening nesting.inner.items nesting.inner.closing
  match nesting.outer with
  | [] => ⟨⟨[datum], nesting.inner.closing⟩, []⟩
  | remainder :: rest => (⟨remainder, rest⟩ : Nesting).cons datum

/-- Match the parentheses of `tokens`, after which the text ends at `eof`. -/
def ofTokens (eof : Token) : List Token → Nesting
  | [] => ⟨⟨[], eof⟩, []⟩
  | token :: rest =>
    let nesting := ofTokens eof rest
    match token.kind with
    | .lparen => nesting.enter token
    | .rparen => nesting.close token
    | _ => nesting.cons (.atom token)

end Nesting

/-- The tokens of a stream before its first end marker. -/
def TokenStream.body (stream : TokenStream) : List Token :=
  stream.toList.takeWhile (·.kind != .eof)

/-- The first end marker of a stream. -/
def TokenStream.eof (stream : TokenStream) : Token :=
  (stream.toList.find? (·.kind == .eof)).getD (Token.eof .nowhere)

/-- The top level of a text: its data up to the end or up to a stray closing parenthesis. -/
def Remainder.ofStream (stream : TokenStream) : Remainder :=
  (Nesting.ofTokens stream.eof stream.body).inner

end ParenC
