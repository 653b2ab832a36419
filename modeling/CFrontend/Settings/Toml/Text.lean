import CFrontend.Settings.Toml.Fault
import CFrontend.Text.Digits

/-!
Texts in single quotes stand for themselves, and texts in double quotes have escapes. Between three
quotes a text may have line breaks; one right after the opening quotes does not count.
-/
namespace CFrontend.Settings.Toml

/-- Whether a control character stands where only the tab may. -/
def isForbidden (c : Char) : Bool := (c.toNat < 0x20 && c ≠ '\t') || c.toNat = 0x7f

/-- Whether a character breaks lines. -/
def isBreak (c : Char) : Bool := c = '\n' || c = '\r'

/-! ## Escapes -/

/-- The character of a short escape. -/
def shortEscape? : Char → Option Char
  | 'b' => some '\x08'
  | 't' => some '\t'
  | 'n' => some '\n'
  | 'f' => some '\x0c'
  | 'r' => some '\r'
  | 'e' => some '\x1b'
  | '"' => some '"'
  | '\\' => some '\\'
  | _ => none

/-- The number of hexadecimal digits of a character escape. -/
def escapeWidth? : Char → Option Nat
  | 'u' => some 4
  | 'U' => some 8
  | _ => none

/-- The character that some hexadecimal digits denote. -/
def escapedChar (width : Nat) (text : List Char) : Except TomlFault Char :=
  let digits := text.take width
  if (Text.encode text).length < width then .error (.shortEscape width (Text.encode text).length)
  else if !digits.all (isDigitBelow 16) then .error .badEscapeDigit
  else match Text.scalar? (digitsValue 16 digits) with
    | some c => .ok c
    | none => .error .badEscapeCode

/-- The length of the blanks and line breaks at the start of a text. -/
def gapLength (text : List Char) : Nat :=
  (text.takeWhile fun c => c = ' ' || c = '\t' || isBreak c).length

/-- The text that a written one stands for. With `long`, a backslash at the end of a line leaves out
    the blanks and line breaks after it. -/
def decode (long : Bool) : (fuel : Nat) → List Char → Except TomlFault (List Char)
  | 0, _ | _, [] => .ok []
  | fuel + 1, '\\' :: mark :: rest =>
    if long && (isBreak mark || mark = ' ' || mark = '\t') then
      decode long fuel (rest.drop (gapLength rest))
    else match shortEscape? mark, escapeWidth? mark with
      | some c, _ => (decode long fuel rest).map (c :: ·)
      | none, some width => do
        let c ← escapedChar width rest
        return c :: (← decode long fuel (rest.drop width))
      | none, none => .error (.badEscape (Text.firstByte [mark]))
  | fuel + 1, c :: rest => (decode long fuel rest).map (c :: ·)

/-! ## Quotes -/

/-- The number of characters up to the closing double quote. -/
def basicLength : List Char → Except TomlFault Nat
  | [] => .error .unclosedBasic
  | '"' :: _ => .ok 0
  | ['\\'] => .error .loneBackslash
  | '\\' :: _ :: rest => (basicLength rest).map (· + 2)
  | c :: rest =>
    if isBreak c then .error .newlineInBasic else (basicLength rest).map (· + 1)

/-- A text after its opening double quote. -/
def readBasic (text : List Char) : Except TomlFault (List Char × List Char) := do
  let written := text.take (← basicLength text)
  let rest := text.drop (written.length + 1)
  if written.any isForbidden then throw .badBasic
  return (← decode false written.length written,rest)

/-- The number of characters up to the closing single quote. -/
def literalLength : List Char → Except TomlFault Nat
  | [] => .error .unclosedLiteral
  | '\'' :: _ => .ok 0
  | c :: rest =>
    if isBreak c then .error .newlineInLiteral
    else if isForbidden c then .error .badLiteral
    else (literalLength rest).map (· + 1)

/-- A text after its opening single quote. -/
def readLiteral (text : List Char) : Except TomlFault (List Char × List Char) :=
  (literalLength text).map fun size => (text.take size,text.drop (size + 1))

/-- The number of characters up to three closing quotes. Up to two more quotes belong to the
    text. -/
def longLength (quote : Char) (escapes : Bool) : List Char → Option Nat
  | [] => none
  | a :: rest =>
    if a = quote && rest.take 2 = [quote,quote] then
      some (min 2 ((rest.drop 2).takeWhile (· = quote)).length)
    else if escapes && a = '\\' then
      match rest with
      | [] => none
      | _ :: rest => (longLength quote escapes rest).map (· + 2)
    else (longLength quote escapes rest).map (· + 1)

/-- A text without a line break at its start. -/
def withoutFirstBreak : List Char → List Char
  | '\n' :: rest => rest
  | '\r' :: '\n' :: rest => rest
  | text => text

/-- A text after its three opening quotes. -/
def readLong (quote : Char) (text : List Char) : Except TomlFault (List Char × List Char) :=
  let basic := quote = '"'
  match longLength quote basic text with
  | none => .error (if basic then .unclosedLongBasic else .unclosedLongLiteral)
  | some size =>
    let written := withoutFirstBreak (text.take size)
    let rest := text.drop (size + 3)
    if basic then (decode true written.length written).map (·,rest) else .ok (written,rest)

/-- A quoted text from its opening quotes on. -/
def readQuoted (text : List Char) : Except TomlFault (List Char × List Char) :=
  match text with
  | '"' :: '"' :: '"' :: rest => readLong '"' rest
  | '\'' :: '\'' :: '\'' :: rest => readLong '\'' rest
  | '\'' :: rest => readLiteral rest
  | _ => readBasic (text.drop 1)

end CFrontend.Settings.Toml
