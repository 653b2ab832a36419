import CFrontend.Binary64.DecimalText
import CFrontend.Settings.Value

/-!
Numbers as files of settings write them.
-/
namespace CFrontend.Settings

/-- The floating number that makes up a text. -/
def float? (text : List Char) : Option Binary64 :=
  let (negative,magnitude) := Text.signOf text
  let decimal := DecimalText.leading magnitude
  let noDigits := decimal.whole.isEmpty && (decimal.fraction.getD []).isEmpty
  if noDigits || decimal.isBroken || decimal.chars.length ≠ magnitude.length then none
  else decimal.value?.map fun value => if negative then value.negate else value

/-- The integer that makes up a text, with a sign or without one. -/
def integer? (text : List Char) : Option Int :=
  match Text.readInteger text, Text.readMagnitude text with
  | .ok n, _ => some n
  | .error _, .ok n => some n
  | .error _, .error _ => none

/-- An infinite number. -/
def infinite (negative : Bool) : Value :=
  .float (if negative then Binary64.infinity.negate else Binary64.infinity)

end CFrontend.Settings
