import CFrontend.Binary64.Rounding
import CFrontend.Text.Digits

/-!
Written decimals with an optional fraction and an optional exponent.
-/
namespace CFrontend

/-- The parts of a written decimal. -/
structure DecimalText where
  whole : List Char
  /-- The digits after the period, if there is one. -/
  fraction : Option (List Char) := none
  /-- The sign and the digits of the exponent, if there is one. -/
  exponent : Option (List Char × List Char) := none
deriving DecidableEq, Repr

namespace DecimalText

/-- The number that exponent digits denote; once it has five digits the rest is left out. -/
def exponentValue (digits : List Char) : Nat :=
  let append (value : Nat) (c : Char) : Nat := value * 10 + (digitValue? c).getD 0
  digits.foldl (fun value c => if value < 10000 then append value c else value) 0

/-- The decimal as it was written, the exponent mark in lower case. -/
def chars (decimal : DecimalText) : List Char :=
  decimal.whole ++ (decimal.fraction.map ('.' :: ·)).getD [] ++
    (decimal.exponent.map fun (sign,digits) => 'e' :: (sign ++ digits)).getD []

/-- The value, or nothing when it is too large. -/
def value? (decimal : DecimalText) : Option Binary64 :=
  let fraction := decimal.fraction.getD []
  let exponent : Int := match decimal.exponent with
    | some (['-'],digits) => -exponentValue digits
    | some (_,digits) => exponentValue digits
    | none => 0
  Binary64.ofDecimal? (digitsValue 10 (decimal.whole ++ fraction)) (exponent - fraction.length)

/-- Whether there is an exponent mark without digits after it. -/
def isBroken (decimal : DecimalText) : Bool := decimal.exponent.any (·.2.isEmpty)

/-- A sign, or nothing, and the digits after it. -/
def signedDigits (text : List Char) : List Char × List Char :=
  let sign := match text with
    | '+' :: _ => ['+']
    | '-' :: _ => ['-']
    | _ => []
  (sign,(text.drop sign.length).takeWhile isDecimalDigit)

/-- Reads the fraction and the exponent after the whole part. -/
def goingOn (whole rest : List Char) : DecimalText :=
  let fraction := match rest with
    | '.' :: tail => some (tail.takeWhile isDecimalDigit)
    | _ => none
  let exponent := match rest.drop ((fraction.map (·.length + 1)).getD 0) with
    | 'e' :: tail | 'E' :: tail => some (signedDigits tail)
    | _ => none
  ⟨whole,fraction,exponent⟩

/-- The decimal that a text starts with. -/
def leading (text : List Char) : DecimalText :=
  let whole := text.takeWhile isDecimalDigit
  goingOn whole (text.drop whole.length)

end DecimalText

end CFrontend
