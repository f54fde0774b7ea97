/-
The texts of integer literals.

A `Numeral` is the text of a literal taken apart: a sign, digits without needless zeros and the
mark of an unsigned value.  Such a text has a value just if it is in range, and printing the value
gives the text back.
-/
import Mathlib.Data.List.Basic
import Mathlib.Tactic.IntervalCases
import ParenC.Literal

namespace ParenC

/-- The number that digits make after those that make `acc`. -/
def decimal (acc : Nat) (digits : List Char) : Nat :=
  digits.foldl (fun n c => 10 * n + digitValue c) acc

/-- The text of a literal, taken apart. -/
structure Numeral where
  /-- Whether there is a minus sign. -/
  negative : Bool
  /-- The digits. -/
  digits : List Char
  /-- Whether the text is marked as that of an unsigned value. -/
  unsigned : Bool
  /-- There are digits. -/
  nonempty : digits ≠ []
  /-- All of them are digits. -/
  isDigit : ∀ c ∈ digits, c.isDigit = true
  /-- A leading zero stands alone, and has no sign. -/
  leading : digits.head? = some '0' → digits = ['0'] ∧ negative = false

namespace Numeral

/-- The characters of the text. -/
def chars (n : Numeral) : List Char :=
  (if n.negative then ['-'] else []) ++ n.digits ++ if n.unsigned then ['u'] else []

/-- The text. -/
def text (n : Numeral) : String := String.ofList n.chars

/-- The number that the digits make. -/
def magnitude (n : Numeral) : Nat := decimal 0 n.digits

/-- The number with its sign. -/
def number (n : Numeral) : Int := if n.negative then -(n.magnitude : Int) else n.magnitude

/-- An unsigned literal has no sign and fits into 64 bits; a signed one fits into 64 bits, one of
which is for the sign. -/
def InRange (n : Numeral) : Prop :=
  if n.unsigned then n.negative = false ∧ n.magnitude ≤ 2 ^ 64 - 1
  else -2 ^ 63 ≤ n.number ∧ n.number ≤ 2 ^ 63 - 1

/-- The value of the literal. -/
def value (n : Numeral) : IntegerValue :=
  if n.unsigned then .unsigned n.magnitude else .signed n.number

end Numeral

/-! ## Reading digits -/

lemma le_decimal (acc : Nat) (digits : List Char) : acc ≤ decimal acc digits := by
  induction digits generalizing acc with
  | nil => exact Nat.le_refl acc
  | cons c cs ih =>
    have := ih (10 * acc + digitValue c)
    simp only [decimal, List.foldl_cons] at this ⊢
    omega

/-- Digits have the number that they make as their value, unless it is too large. -/
lemma readDigits_eq {limit : Nat} {excess : DigitFault} {digits : List Char}
    (hdigits : ∀ c ∈ digits, c.isDigit = true) {acc : Nat} (hacc : acc ≤ limit) :
    readDigits limit excess acc digits =
      if decimal acc digits ≤ limit then .ok (decimal acc digits) else .error excess := by
  induction digits generalizing acc with
  | nil => simp [readDigits, decimal, hacc]
  | cons c cs ih =>
    have hc : c.isDigit = true := hdigits c (by simp)
    have hle := le_decimal (10 * acc + digitValue c) cs
    have hdecimal : decimal acc (c :: cs) = decimal (10 * acc + digitValue c) cs := rfl
    simp only [readDigits, hc, Bool.not_true, Bool.false_eq_true, if_false]
    by_cases hlarge : limit < 10 * acc + digitValue c
    · rw [if_pos hlarge, if_neg]
      omega
    · rw [if_neg hlarge, ih (fun d hd => hdigits d (by simp [hd])) (by omega), hdecimal]

/-- A number without a sign. -/
lemma readNatural_eq {limit : Nat} {digits : List Char} (hnonempty : digits ≠ [])
    (hdigits : ∀ c ∈ digits, c.isDigit = true) :
    readNatural limit digits =
      if decimal 0 digits ≤ limit then .ok (decimal 0 digits) else .error .tooLarge := by
  have hread : readNatural limit digits = readDigits limit .tooLarge 0 digits := by
    unfold readNatural
    split
    · exact absurd rfl hnonempty
    · exact absurd (hdigits '+' (by simp)) (by decide)
    · rfl
  rw [hread, readDigits_eq hdigits (Nat.zero_le _)]

lemma readSigned_eq {digits : List Char} (hnonempty : digits ≠ [])
    (hdigits : ∀ c ∈ digits, c.isDigit = true) :
    readSigned digits =
      if decimal 0 digits ≤ signCount - 1 then .ok (decimal 0 digits : Int)
      else .error .tooLarge := by
  have hread : readSigned digits = (readNatural (signCount - 1) digits).map Int.ofNat := by
    unfold readSigned
    split
    · exact absurd (hdigits '-' (by simp)) (by decide)
    · rfl
  rw [hread, readNatural_eq hnonempty hdigits]
  split <;> rfl

lemma readSigned_negative {digits : List Char} (hnonempty : digits ≠ [])
    (hdigits : ∀ c ∈ digits, c.isDigit = true) :
    readSigned ('-' :: digits) =
      if decimal 0 digits ≤ signCount then .ok (-(decimal 0 digits : Int))
      else .error .tooSmall := by
  obtain ⟨c, cs, rfl⟩ := List.exists_cons_of_ne_nil hnonempty
  simp only [readSigned]
  rw [readDigits_eq hdigits (Nat.zero_le _)]
  split <;> rfl

namespace Numeral

variable {n : Numeral}

/-- An unsigned literal is told by its last character. -/
lemma getLast?_chars (n : Numeral) : n.chars.getLast? = some 'u' ↔ n.unsigned = true := by
  unfold chars
  cases hunsigned : n.unsigned with
  | true => simp
  | false =>
    have hlast : ((if n.negative then ['-'] else []) ++ n.digits).getLast? =
        some (n.digits.getLast n.nonempty) := by
      rw [List.getLast?_append_of_ne_nil _ n.nonempty, List.getLast?_eq_some_getLast n.nonempty]
    have hdigit := n.isDigit _ (List.getLast_mem n.nonempty)
    simp only [Bool.false_eq_true, if_false, List.append_nil, iff_false, hlast, Option.some.injEq]
    intro heq
    rw [heq] at hdigit
    exact absurd hdigit (by decide)

lemma dropLast_chars (h : n.unsigned = true) :
    n.chars.dropLast = (if n.negative then ['-'] else []) ++ n.digits := by
  simp [chars, h]

lemma head?_digits_ne (n : Numeral) : n.digits.head? ≠ some '-' := by
  intro hhead
  have := n.isDigit '-' (List.mem_of_mem_head? hhead)
  exact absurd this (by decide)

/-- The text of a numeral has a value just if the numeral is in range. -/
theorem ofText_eq_ok {v : IntegerValue} :
    IntegerValue.ofText n.text = .ok v ↔ n.InRange ∧ v = n.value := by
  have hlist : n.text.toList = n.chars := String.toList_ofList
  have hword : wordCount = 2 ^ 64 := rfl
  have hsign : signCount = 2 ^ 63 := rfl
  unfold IntegerValue.ofText
  simp only [hlist]
  by_cases hunsigned : n.unsigned = true
  · rw [if_pos (n.getLast?_chars.mpr hunsigned), dropLast_chars hunsigned]
    simp only [InRange, value, hunsigned, if_true]
    by_cases hnegative : n.negative = true
    · simp [hnegative]
    · simp only [hnegative, Bool.false_eq_true, if_false, List.nil_append, n.head?_digits_ne,
        readNatural_eq n.nonempty n.isDigit, true_and, magnitude, ← hword]
      by_cases hlarge : decimal 0 n.digits ≤ wordCount - 1
      · simp [hlarge, eq_comm]
      · simp [hlarge]
  · rw [if_neg (mt n.getLast?_chars.mp hunsigned)]
    have hchars : n.chars = (if n.negative then ['-'] else []) ++ n.digits := by
      simp [chars, hunsigned]
    simp only [InRange, value, hunsigned, Bool.false_eq_true, if_false, hchars, number]
    -- both signs leave the same two cases: the digits fit or they do not
    by_cases hnegative : n.negative = true
    · simp only [hnegative, if_true, List.singleton_append,
        readSigned_negative n.nonempty n.isDigit, magnitude]
      by_cases hlarge : decimal 0 n.digits ≤ signCount
      · have hrange : -2 ^ 63 ≤ -(decimal 0 n.digits : Int) ∧
            -(decimal 0 n.digits : Int) ≤ 2 ^ 63 - 1 := by omega
        simp only [if_pos hlarge, hrange, and_self, true_and, Except.ok.injEq, eq_comm]
      · have hrange : ¬ -2 ^ 63 ≤ -(decimal 0 n.digits : Int) := by omega
        simp only [if_neg hlarge, hrange, reduceCtorEq, false_and]
    · simp only [hnegative, Bool.false_eq_true, if_false, List.nil_append,
        readSigned_eq n.nonempty n.isDigit, magnitude]
      by_cases hlarge : decimal 0 n.digits ≤ signCount - 1
      · have hrange : -2 ^ 63 ≤ (decimal 0 n.digits : Int) ∧
            (decimal 0 n.digits : Int) ≤ 2 ^ 63 - 1 := by omega
        simp only [if_pos hlarge, hrange, and_self, true_and, Except.ok.injEq, eq_comm]
      · have hrange : ¬ (decimal 0 n.digits : Int) ≤ 2 ^ 63 - 1 := by omega
        simp only [if_neg hlarge, hrange, reduceCtorEq, and_false, false_and]

end Numeral

/-! ## Printing -/

/-- The text of a literal with the given value: a decimal number, marked if it is unsigned. -/
def IntegerValue.text : IntegerValue → String
  | signed value => toString value
  | unsigned value => toString value ++ "u"

lemma digitValue_lt {c : Char} (h : c.isDigit = true) : digitValue c < 10 := by
  simp only [Char.isDigit, Bool.and_eq_true, decide_eq_true_eq, ge_iff_le, UInt32.le_iff_toNat_le]
    at h
  have hzero : '0'.toNat = 48 := rfl
  have hval : c.toNat = c.val.toNat := rfl
  have hlow : '0'.val.toNat = 48 := rfl
  have hhigh : '9'.val.toNat = 57 := rfl
  unfold digitValue
  omega

/-- A digit is told by its value. -/
lemma digitChar_digitValue {c : Char} (h : c.isDigit = true) : Nat.digitChar (digitValue c) = c := by
  have hvalue := digitValue_lt h
  have hzero : '0'.toNat = 48 := rfl
  have hcode : c.toNat = 48 + digitValue c := by
    simp only [Char.isDigit, Bool.and_eq_true, decide_eq_true_eq, ge_iff_le,
      UInt32.le_iff_toNat_le] at h
    have hval : c.toNat = c.val.toNat := rfl
    have hlow : '0'.val.toNat = 48 := rfl
    unfold digitValue
    omega
  rw [← Char.ofNat_toNat c, hcode]
  generalize digitValue c = d at hvalue
  interval_cases d <;> rfl

/-- Printing a number gives its digits back, after those that make the number in front. -/
lemma toDigits_decimal {digits : List Char} (hdigits : ∀ c ∈ digits, c.isDigit = true) {acc : Nat}
    (hacc : 0 < acc) : Nat.toDigits 10 (decimal acc digits) = Nat.toDigits 10 acc ++ digits := by
  induction digits generalizing acc with
  | nil => simp [decimal]
  | cons c cs ih =>
    have hc := hdigits c (by simp)
    have hpos : 0 < 10 * acc + digitValue c := by omega
    calc Nat.toDigits 10 (decimal acc (c :: cs))
        = Nat.toDigits 10 (10 * acc + digitValue c) ++ cs :=
          ih (fun d hd => hdigits d (by simp [hd])) hpos
      _ = Nat.toDigits 10 acc ++ Nat.toDigits 10 (digitValue c) ++ cs := by
          rw [Nat.toDigits_append_toDigits (by decide) hacc (digitValue_lt hc)]
      _ = Nat.toDigits 10 acc ++ c :: cs := by
          rw [Nat.toDigits_of_lt_base (digitValue_lt hc), digitChar_digitValue hc]
          simp

namespace Numeral

variable {n : Numeral}

/-- The first digit counts, unless the number is zero. -/
lemma first_digit (n : Numeral) : (n.digits = ['0'] ∧ n.negative = false) ∨
    ∃ c cs, n.digits = c :: cs ∧ 0 < digitValue c := by
  obtain ⟨c, cs, hdigits⟩ := List.exists_cons_of_ne_nil n.nonempty
  by_cases hzero : c = '0'
  · refine Or.inl (n.leading ?_)
    rw [hdigits, hzero]
    rfl
  · refine Or.inr ⟨c, cs, hdigits, Nat.pos_of_ne_zero ?_⟩
    intro hvalue
    have hchar := digitChar_digitValue (n.isDigit c (by simp [hdigits]))
    rw [hvalue] at hchar
    exact hzero hchar.symm

lemma toDigits_magnitude (n : Numeral) : Nat.toDigits 10 n.magnitude = n.digits := by
  unfold magnitude
  rcases n.first_digit with ⟨hzero, -⟩ | ⟨c, cs, hdigits, hpos⟩
  · rw [hzero]
    decide
  · have hall := n.isDigit
    rw [hdigits] at hall ⊢
    have hc := hall c (by simp)
    calc Nat.toDigits 10 (decimal 0 (c :: cs))
        = Nat.toDigits 10 (decimal (digitValue c) cs) := by simp [decimal]
      _ = Nat.toDigits 10 (digitValue c) ++ cs :=
          toDigits_decimal (fun d hd => hall d (by simp [hd])) hpos
      _ = c :: cs := by
          rw [Nat.toDigits_of_lt_base (digitValue_lt hc), digitChar_digitValue hc]
          rfl

lemma toString_magnitude (n : Numeral) : toString n.magnitude = String.ofList n.digits := by
  rw [← toDigits_magnitude]
  exact Nat.repr_eq_ofList_toDigits

lemma magnitude_pos (h : n.negative = true) : 0 < n.magnitude := by
  rcases n.first_digit with ⟨-, hpositive⟩ | ⟨c, cs, hdigits, hpos⟩
  · rw [h] at hpositive
    cases hpositive
  · have hle := le_decimal (digitValue c) cs
    have heq : n.magnitude = decimal (digitValue c) cs := by simp [magnitude, hdigits, decimal]
    omega

/-- Printing the value of a literal gives its text back. -/
theorem text_value (h : n.InRange) : n.value.text = n.text := by
  have hmagnitude := n.toString_magnitude
  unfold value text chars
  by_cases hunsigned : n.unsigned = true
  · simp only [InRange, hunsigned, if_true] at h
    simp only [hunsigned, h.1, if_true, IntegerValue.text, hmagnitude]
    simp
  · simp only [hunsigned, Bool.false_eq_true, if_false, IntegerValue.text, number]
    by_cases hnegative : n.negative = true
    · obtain ⟨k, hk⟩ := Nat.exists_eq_add_one_of_ne_zero (magnitude_pos hnegative).ne'
      have hint : -((k + 1 : Nat) : Int) = Int.negSucc k := rfl
      have hrepr : toString (Int.negSucc k) = "-" ++ toString (k + 1) := rfl
      simp only [hnegative, if_true, hk, hint, hrepr]
      rw [← hk, hmagnitude]
      simp
    · have hrepr : toString (n.magnitude : Int) = toString n.magnitude := rfl
      simp only [hnegative, Bool.false_eq_true, if_false, hrepr, hmagnitude]
      simp

end Numeral

end ParenC
