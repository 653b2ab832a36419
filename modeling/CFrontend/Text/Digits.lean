/-!
Digits of radices up to sixteen and the numbers that they denote.
-/
namespace CFrontend

/-- The value of a digit of a radix up to sixteen. -/
def digitValue? (c : Char) : Option Nat :=
  if '0' ≤ c && c ≤ '9' then some (c.toNat - '0'.toNat)
  else if 'a' ≤ c && c ≤ 'f' then some (c.toNat - 'a'.toNat + 10)
  else if 'A' ≤ c && c ≤ 'F' then some (c.toNat - 'A'.toNat + 10)
  else none

/-- Whether a character is a digit of a radix. -/
def isDigitBelow (radix : Nat) (c : Char) : Bool := (digitValue? c).any (· < radix)

/-- Whether a character is a decimal digit. -/
def isDecimalDigit (c : Char) : Bool := '0' ≤ c && c ≤ '9'

/-- The number that digits denote. -/
def digitsValue (radix : Nat) (digits : List Char) : Nat :=
  digits.foldl (fun value c => value * radix + (digitValue? c).getD 0) 0

end CFrontend
