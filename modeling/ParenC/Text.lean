/-
Cutting texts.

A text is cut into the pieces between separators, freed from the blanks around it, and cut into
lines.  Nothing here depends on what the texts are about.
-/

namespace ParenC.Text

/-- Whether a character is white space: the controls that move the place of writing, and the
spaces and separators. -/
def isBlank (c : Char) : Bool :=
  ('\t' ≤ c && c ≤ '\r') || c == ' ' || c == '\u0085' || c == '\u00a0' || c == '\u1680' ||
    ('\u2000' ≤ c && c ≤ '\u200a') || c == '\u2028' || c == '\u2029' || c == '\u202f' ||
    c == '\u205f' || c == '\u3000'

/-- The pieces of a text between separators; there is one more of them than separators. -/
def pieces (separator : Char) : List Char → List (List Char)
  | [] => [[]]
  | c :: cs =>
    match pieces separator cs with
    | [] => [[c]]
    | piece :: rest => if c = separator then [] :: piece :: rest else (c :: piece) :: rest

/-- A text without the blanks around it. -/
def trim (text : List Char) : List Char :=
  ((text.dropWhile isBlank).reverse.dropWhile isBlank).reverse

/-- A line without the carriage return before its end. -/
def withoutReturn (line : List Char) : List Char :=
  if line.getLast? = some '\r' then line.dropLast else line

/-- The first line of a text, without its end. -/
def firstLine (text : String) : String :=
  match pieces '\n' text.toList with
  | line :: _ :: _ => String.ofList (withoutReturn line)
  | _ => text

/-- The text with every line after the first moved in by four spaces. -/
def hanging (text : String) : String :=
  String.intercalate "\n    " ((pieces '\n' text.toList).map String.ofList)

end ParenC.Text
