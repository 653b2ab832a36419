import CFrontend.Settings.Number
import CFrontend.Settings.Toml.Fault

/-!
Underscores separate digits. Decimal numbers have no leading zeros, and a floating number has digits
on both sides of its point.
-/
namespace CFrontend.Settings.Toml

/-! ## Underscores -/

/-- An integer without its underscores; `afterDigit` tells whether a digit came since the last
    one. -/
def removeUnderscores (afterDigit : Bool) : List Char → Except TomlValueFault (List Char)
  | [] => .ok []
  | c :: rest =>
    if c = '_' then
      if afterDigit then removeUnderscores false rest else .error .bareUnderscore
    else (removeUnderscores true rest).map (c :: ·)

/-- Refuses underscores at the ends. -/
def checkEnds (text : List Char) : Except TomlValueFault Unit :=
  if text.head? = some '_' then .error .startsWithUnderscore
  else if text.getLast? = some '_' then .error .endsWithUnderscore
  else .ok ()

/-- An integer, with its sign, without underscores. -/
def bareInteger (text : List Char) : Except TomlValueFault (List Char) := do
  let sign := (text.take 1).filter fun c => c = '+' || c = '-'
  let digits := text.drop sign.length
  checkEnds digits
  return sign ++ (← removeUnderscores true digits)

/-- A floating number without underscores; `afterDigit` tells whether a digit came since the last
    underscore or sign, and `before` is the character before. -/
def removeFloatUnderscores (afterDigit : Bool) (before : Char) :
    List Char → Except TomlValueFault (List Char)
  | [] => .ok []
  | c :: rest =>
    let next := rest.head?
    let keep (afterDigit : Bool) : Except TomlValueFault (List Char) :=
      (removeFloatUnderscores afterDigit c rest).map (c :: ·)
    if c = '_' then
      if !afterDigit then .error .bareUnderscore
      else if next = some 'e' || next = some 'E' then .error .underscoreBeforeExponent
      else removeFloatUnderscores false c rest
    else if c = '+' || c = '-' then keep false
    else if c = 'e' || c = 'E' then
      if next = some '_' then .error .underscoreAfterExponent else keep afterDigit
    else if c = '.' then
      if next = some '_' then .error .underscoreAfterPoint
      else if before = '_' then .error .underscoreBeforePoint
      else keep afterDigit
    else keep true

/-- A floating number without underscores. -/
def bareFloat (text : List Char) : Except TomlValueFault (List Char) := do
  checkEnds text
  if text.contains '_' then removeFloatUnderscores false ' ' text else return text

/-! ## Integers -/

/-- A number of a radix with an optional sign, of 64 bits. -/
def readRadix (radix : Nat) (text : List Char) : Except Text.IntegerFault Int :=
  let (negative,digits) := Text.signOf text
  if digits.isEmpty then .error .malformed
  else if digits.contains '_' then .error .malformed
  else match Text.accumulate radix 0 digits with
    | .error fault => .error fault
    | .ok value =>
      if negative then if Nat.pow 2 63 < value then .error .outOfRange else .ok (-value)
      else if Nat.pow 2 63 ≤ value then .error .outOfRange else .ok value

/-- A number of a radix, whose digits have a name. -/
def integerIn (radix : Nat) (word : String) (text : List Char) : Except TomlValueFault Int :=
  match readRadix radix text with
  | .ok n => .ok n
  | .error fault => .error (.notInteger word (String.ofList text) fault)

/-- A decimal integer. -/
def decimalInteger (text : List Char) : Except TomlValueFault Int := do
  let bare ← bareInteger text
  match (Text.signOf bare).2 with
  | '0' :: _ :: _ => throw .leadingZero
  | _ => integerIn 10 "decimal" bare

/-- An integer. -/
def integer (text : List Char) : Except TomlValueFault Int :=
  match text with
  | '0' :: 'x' :: c :: rest => do integerIn 16 "hexadecimal" (← bareInteger (c :: rest))
  | '0' :: 'o' :: c :: rest => do integerIn 8 "octal" (← bareInteger (c :: rest))
  | '0' :: 'b' :: c :: rest => do integerIn 2 "binary" (← bareInteger (c :: rest))
  | text => decimalInteger text

/-! ## Floating numbers -/

/-- Checks the points of a floating number; `before` is the character before. -/
def checkPoints (seen : Bool) (before : Char) : List Char → Except TomlValueFault Unit
  | [] => .ok ()
  | c :: rest =>
    if c ≠ '.' then checkPoints seen c rest
    else if seen then .error .secondPoint
    else if !isDecimalDigit before then .error .noDigitBeforePoint
    else if !rest.head?.any isDecimalDigit then .error .noDigitAfterPoint
    else checkPoints true c rest

/-- Whether a text is a decimal that is too large. -/
def isTooLarge (text : List Char) : Bool :=
  let magnitude := (Text.signOf text).2
  let decimal := DecimalText.leading magnitude
  !decimal.whole.isEmpty && !decimal.isBroken && decimal.chars.length = magnitude.length

/-- The value of a floating number that is written without underscores. -/
def floatValue (text : List Char) : Except TomlValueFault Binary64 :=
  let (negative,magnitude) := Text.signOf text
  if magnitude = "inf".toList then
    .ok (if negative then Binary64.infinity.negate else Binary64.infinity)
  else if magnitude = "nan".toList then .ok Binary64.nan
  else match float? text with
    | some x => .ok x
    | none =>
      .error (.notFloat (String.ofList text) (if isTooLarge text then .outOfRange else .malformed))

/-- A floating number. -/
def float (text : List Char) : Except TomlValueFault Binary64 := do
  let bare ← bareFloat text
  if bare.head? = some '.' then throw .startsWithPoint
  if bare.getLast? = some '.' then throw .endsWithPoint
  checkPoints false ' ' bare
  match (Text.signOf bare).2 with
  | '0' :: c :: _ => if isDecimalDigit c then throw .leadingFloatZero else floatValue bare
  | _ => floatValue bare

end CFrontend.Settings.Toml
