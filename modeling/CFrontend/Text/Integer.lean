import CFrontend.Text.Digits

/-!
Integers of 64 bits with a sign and a radix mark. An underscore may stand between digits, and
between a radix mark and a digit.
-/
namespace CFrontend.Text

/-- Why a text is no integer. -/
inductive IntegerFault where
  | malformed
  | outOfRange
deriving DecidableEq, Repr

def IntegerFault.message : IntegerFault → String
  | .malformed => "invalid syntax"
  | .outOfRange => "value out of range"

/-- The radix of an integer without its sign, and its digits. A leading zero marks octal. -/
def radixOf : List Char → Nat × List Char
  | '0' :: mark :: c :: rest =>
    if mark = 'b' || mark = 'B' then (2,c :: rest)
    else if mark = 'o' || mark = 'O' then (8,c :: rest)
    else if mark = 'x' || mark = 'X' then (16,c :: rest)
    else (8,mark :: c :: rest)
  | '0' :: rest => (8,rest)
  | text => (10,text)

/-- Adds digits to a value, passing over underscores, up to the first fault. -/
def accumulate (radix : Nat) (value : Nat) : List Char → Except IntegerFault Nat
  | [] => .ok value
  | c :: rest =>
    if c = '_' then accumulate radix value rest
    else if isDigitBelow radix c then
      let value := digitsValue radix [c] + value * radix
      if Nat.pow 2 64 ≤ value then .error .outOfRange else accumulate radix value rest
    else .error .malformed

/-- Whether every underscore stands after a digit and before another; `afterDigit` tells whether
    the character before was a digit. -/
def underscoresFit (afterDigit : Bool) : List Char → Bool
  | [] => true
  | '_' :: c :: rest => afterDigit && c ≠ '_' && underscoresFit true (c :: rest)
  | ['_'] => false
  | _ :: rest => underscoresFit true rest

/-- The sign of an integer and the text after it. -/
def signOf : List Char → Bool × List Char
  | '-' :: rest => (true,rest)
  | '+' :: rest => (false,rest)
  | text => (false,text)

/-- Reads an integer of 64 bits without a sign. -/
def readMagnitude (text : List Char) : Except IntegerFault Nat :=
  let (radix,digits) := radixOf text
  if text.isEmpty then .error .malformed
  else match accumulate radix 0 digits with
    | .error fault => .error fault
    | .ok value =>
      let marked := digits.length < text.length
      if underscoresFit marked digits then .ok value else .error .malformed

/-- Reads an integer of 64 bits. -/
def readInteger (text : List Char) : Except IntegerFault Int :=
  let (negative,magnitude) := signOf text
  match readMagnitude magnitude with
  | .error fault => .error fault
  | .ok value =>
    if negative then if Nat.pow 2 63 < value then .error .outOfRange else .ok (-value)
    else if Nat.pow 2 63 ≤ value then .error .outOfRange else .ok value

end CFrontend.Text
