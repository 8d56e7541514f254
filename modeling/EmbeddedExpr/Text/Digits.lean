/-
  EmbeddedExpr.Text.Digits
  ────────────────────────
  **NUMBERS IN DIGITS.**

  Reading and writing natural numbers in decimal and hexadecimal digits, and the decimal digits
  of all scripts.
-/
namespace EmbeddedExpr.Text

/-- Digits with zeros in front, at least `width` of them. -/
def padZeros (width : Nat) (digits : List Char) : List Char :=
  List.replicate (width - digits.length) '0' ++ digits

/-- A number in hexadecimal digits, at least `width` of them. -/
def hexDigits (width n : Nat) : List Char := padZeros width (Nat.toDigits 16 n)

/-- A number in decimal digits, at least `width` of them. -/
def decimalDigits (width n : Nat) : List Char := padZeros width (Nat.toDigits 10 n)

/-- The value of a digit in bases up to sixteen. -/
def digitValue? (c : Char) : Option Nat :=
  if '0' ≤ c && c ≤ '9' then some (c.toNat - '0'.toNat)
  else if 'a' ≤ c && c ≤ 'f' then some (c.toNat - 'a'.toNat + 10)
  else if 'A' ≤ c && c ≤ 'F' then some (c.toNat - 'A'.toNat + 10)
  else none

/-- One more digit of a number in the given base. -/
def addDigit (base : Nat) (total : Option Nat) (c : Char) : Option Nat :=
  match total, digitValue? c with
  | some n, some digit => if digit < base then some (n * base + digit) else none
  | _, _ => none

/-- The number that digits spell; zero when there are none. -/
def number? (base : Nat) (digits : List Char) : Option Nat :=
  digits.foldl (addDigit base) (some 0)

/-- The number that decimal digits spell. -/
def decimal (digits : List Char) : Nat := (number? 10 digits).getD 0

/-- The most decimal digits of a whole number that is read or written. -/
def mostDecimalDigits : Nat := 4300

/-- The code points of the decimal zeros of all scripts (Unicode 14).  The other nine digits
follow each of them. -/
def decimalZeros : List Nat := [
    0x30, 0x660, 0x6F0, 0x7C0, 0x966, 0x9E6, 0xA66, 0xAE6, 0xB66, 0xBE6, 0xC66, 0xCE6, 0xD66,
    0xDE6, 0xE50, 0xED0, 0xF20, 0x1040, 0x1090, 0x17E0, 0x1810, 0x1946, 0x19D0, 0x1A80, 0x1A90,
    0x1B50, 0x1BB0, 0x1C40, 0x1C50, 0xA620, 0xA8D0, 0xA900, 0xA9D0, 0xA9F0, 0xAA50, 0xABF0,
    0xFF10, 0x104A0, 0x10D30, 0x11066, 0x110F0, 0x11136, 0x111D0, 0x112F0, 0x11450, 0x114D0,
    0x11650, 0x116C0, 0x11730, 0x118E0, 0x11950, 0x11C50, 0x11D50, 0x11DA0, 0x16A60, 0x16AC0,
    0x16B50, 0x1D7CE, 0x1D7D8, 0x1D7E2, 0x1D7EC, 0x1D7F6, 0x1E140, 0x1E2F0, 0x1E950, 0x1FBF0]

/-- The value of a decimal digit of any script. -/
def decimalValue? (c : Char) : Option Nat :=
  (decimalZeros.find? fun first => first ≤ c.toNat && c.toNat < first + 10).map (c.toNat - ·)

/-- A decimal digit of any script. -/
def isDecimalDigit (c : Char) : Bool := (decimalValue? c).isSome

/-- The text with the decimal digits of all scripts written in the usual ones. -/
def usualDigits (s : List Char) : List Char :=
  s.map fun c => ((decimalValue? c).map Nat.digitChar).getD c

end EmbeddedExpr.Text
