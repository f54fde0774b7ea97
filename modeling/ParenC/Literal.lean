/-
Integer literals.

A literal is signed, or unsigned when its text ends in `u`, and fits into 64 bits either way.
Digits are read from left to right and the first obstacle is the one reported; at one place a
character that is no digit comes before a value that has grown too large.
-/

namespace ParenC

/-- The value of an integer literal, together with its signedness. -/
inductive IntegerValue
  /-- A value of type `s64`. -/
  | signed (value : Int)
  /-- A value of type `u64`. -/
  | unsigned (value : Nat)
deriving DecidableEq

/-- Why a text is not the text of an integer. -/
inductive DigitFault
  /-- There are no characters. -/
  | empty
  /-- A character is not a digit, or a sign stands alone. -/
  | invalidDigit
  /-- The value is above the range. -/
  | tooLarge
  /-- The value is below the range. -/
  | tooSmall
deriving DecidableEq

/-- The text that reports the fault. -/
def DigitFault.message : DigitFault → String
  | empty => "cannot parse integer from empty string"
  | invalidDigit => "invalid digit found in string"
  | tooLarge => "number too large to fit in target type"
  | tooSmall => "number too small to fit in target type"

/-- The number of values of 64 bits: two to the power of 64. -/
def wordCount : Nat := 0x10000000000000000

/-- The number of values of 64 bits that are negative: two to the power of 63. -/
def signCount : Nat := 0x8000000000000000

/-- The value of a digit. -/
def digitValue (c : Char) : Nat := c.toNat - '0'.toNat

/-- Read digits after those that make `acc`.  The value must not exceed `limit`, or else
`excess` is the fault. -/
def readDigits (limit : Nat) (excess : DigitFault) :
    (acc : Nat) → List Char → Except DigitFault Nat
  | acc, [] => .ok acc
  | acc, c :: cs =>
    if !c.isDigit then .error .invalidDigit
    else
      let value := 10 * acc + digitValue c
      if limit < value then .error excess else readDigits limit excess value cs

/-- Read a number of at most `limit` that may have a plus sign in front. -/
def readNatural (limit : Nat) : List Char → Except DigitFault Nat
  | [] => .error .empty
  | '+' :: c :: cs => readDigits limit .tooLarge 0 (c :: cs)
  | cs => readDigits limit .tooLarge 0 cs

/-- Read a number from `-signCount` to `signCount - 1` that may have a sign in front. -/
def readSigned : List Char → Except DigitFault Int
  | '-' :: c :: cs => (readDigits signCount .tooSmall 0 (c :: cs)).map fun n => -(n : Int)
  | cs => (readNatural (signCount - 1) cs).map Int.ofNat

/-- Why the text of a literal has no value. -/
inductive LiteralFault
  /-- A minus sign stands before an unsigned literal. -/
  | negativeUnsigned (text : String)
  /-- The text does not denote an integer of the range. -/
  | invalid (text : String) (fault : DigitFault)
deriving DecidableEq

/-- The text that reports the fault. -/
def LiteralFault.message : LiteralFault → String
  | negativeUnsigned text => "unsigned literal '" ++ text ++ "' is negative"
  | invalid text fault => "invalid integer literal '" ++ text ++ "': " ++ fault.message

/-- The value of the literal with the given text. -/
def IntegerValue.ofText (text : String) : Except LiteralFault IntegerValue :=
  let cs := text.toList
  if cs.getLast? = some 'u' then
    let digits := cs.dropLast
    if digits.head? = some '-' then .error (.negativeUnsigned text)
    else match readNatural (wordCount - 1) digits with
      | .ok n => .ok (.unsigned n)
      | .error fault => .error (.invalid text fault)
  else match readSigned cs with
    | .ok v => .ok (.signed v)
    | .error fault => .error (.invalid text fault)

end ParenC
