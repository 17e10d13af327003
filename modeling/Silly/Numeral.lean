import Silly.Integer

/-!
# Numerals

An integer literal is a decimal numeral: digits, with a minus sign before them or without. It may
have any number of digits and of leading zeros, so its value is read as an unbounded integer
first, and only the value, never the length, decides whether it fits in 64 bits.
-/

namespace Silly.Numeral

/-- The value of one digit. -/
def digitValue (c : Char) : Nat := c.toNat - '0'.toNat

/-- The number that a row of digits writes. -/
def magnitude (digits : List Char) : Nat := digits.foldl (fun n c => 10 * n + digitValue c) 0

/-- **The integer that a numeral writes.** -/
def value : List Char → Int
  | '-' :: digits => -(magnitude digits : Int)
  | digits => magnitude digits

/-- The integer that a numeral writes, if it fits in 64 bits. -/
def read? (text : String) : Option Int64 := Integer.exactly? (value text.toList)

example : read? "-007" = some (-7) := by decide
example : read? "-9223372036854775808" = some Int64.minValue := by decide
example : read? "9223372036854775808" = none := by decide

end Silly.Numeral
