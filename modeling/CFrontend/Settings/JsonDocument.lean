import CFrontend.Binary64.DecimalText
import CFrontend.Text.Quoted

/-!
Reads a document and tells of the first character that cannot stand where it does. At the end of
the text a blank is refused in its place, except where blanks may stand.
-/
namespace CFrontend.Settings

/-- A document. A number is kept with its text; it has no value when it is too large. -/
inductive JsonDocument where
  | null
  | bool (value : Bool)
  | number (text : String) (value : Option Binary64)
  | string (value : String)
  | array (items : List JsonDocument)
  | object (members : List (String × JsonDocument))
deriving Repr, Inhabited

/-- Where a character is refused. -/
inductive JsonContext where
  | value
  | name
  | afterName
  | afterMember
  | afterItem
  | afterDocument
  | string
  | escape
  | unit
  | number
  | fraction
  | exponent
  /-- Inside of a word, in place of the wanted character. -/
  | insideWord (word : String) (wanted : Char)
deriving DecidableEq, Repr

def JsonContext.text : JsonContext → String
  | .value => "looking for beginning of value"
  | .name => "looking for beginning of object key string"
  | .afterName => "after object key"
  | .afterMember => "after object key:value pair"
  | .afterItem => "after array element"
  | .afterDocument => "after top-level value"
  | .string => "in string literal"
  | .escape => "in string escape code"
  | .unit => "in \\u hexadecimal character escape"
  | .number => "in numeric literal"
  | .fraction => "after decimal point in numeric literal"
  | .exponent => "in exponent of numeric literal"
  | .insideWord word wanted =>
    "in literal " ++ word ++ " (expecting " ++ Text.quoteChar wanted ++ ")"

/-- Why a text is no document. -/
inductive JsonFault where
  | unfinished
  | unexpected (c : Char) (context : JsonContext)
deriving DecidableEq, Repr

namespace JsonFault

def message : JsonFault → String
  | .unfinished => "unexpected end of JSON input"
  | .unexpected c context => "invalid character " ++ Text.quoteChar c ++ " " ++ context.text

/-- The fault of a text that cannot go on like this, where blanks may stand. Characters are told
    apart by their first bytes. -/
def atGap (context : JsonContext) (text : List Char) : JsonFault :=
  if text.isEmpty then .unfinished else .unexpected (Text.firstByte text) context

/-- The fault of a text that cannot go on like this, where no blank may stand. -/
def inside (context : JsonContext) (text : List Char) : JsonFault :=
  .unexpected (if text.isEmpty then ' ' else Text.firstByte text) context

end JsonFault

namespace JsonDocument

/-- Something that was read and the text after it. -/
abbrev Reading (α : Type) := Except JsonFault (α × List Char)

/-- Passes over blanks. -/
def skipBlanks (text : List Char) : List Char :=
  text.dropWhile fun c => c = ' ' || c = '\t' || c = '\r' || c = '\n'

/-! ## Strings -/

/-- The UTF-16 unit that four hexadecimal digits denote. -/
def readUnit (text : List Char) : Reading Nat :=
  let digits := (text.take 4).takeWhile (isDigitBelow 16)
  if digits.length = 4 then .ok (digitsValue 16 digits,text.drop 4)
  else .error (.inside .unit (text.drop digits.length))

/-- The character of a UTF-16 unit, joined with the one escaped after it if the two are a surrogate
    pair. -/
def joinUnits (unit : Nat) (rest : List Char) : Char × List Char :=
  let alone := ((Text.scalar? unit).getD Text.replacement,rest)
  match rest with
  | '\\' :: 'u' :: tail => match readUnit tail with
    | .ok (low,after) =>
      if 0xd800 ≤ unit && unit < 0xdc00 && 0xdc00 ≤ low && low < 0xe000 then
        (Char.ofNat (0x10000 + (unit - 0xd800) * 0x400 + (low - 0xdc00)),after)
      else alone
    | .error _ => alone
  | _ => alone

/-- The character of a short escape. -/
def shortEscape? : Char → Option Char
  | '"' => some '"'
  | '\\' => some '\\'
  | '/' => some '/'
  | 'b' => some '\x08'
  | 'f' => some '\x0c'
  | 'n' => some '\n'
  | 'r' => some '\r'
  | 't' => some '\t'
  | _ => none

/-- The character of an escape after its backslash. -/
def readEscape (text : List Char) : Reading Char :=
  match text with
  | 'u' :: tail => (readUnit tail).map fun (unit,rest) => joinUnits unit rest
  | mark :: tail => match shortEscape? mark with
    | some c => .ok (c,tail)
    | none => .error (.inside .escape text)
  | [] => .error (.inside .escape text)

/-- The rest of a string after its opening quote; `read` holds its characters so far, last one
    first. -/
def readString (fuel : Nat) (read : List Char) (text : List Char) : Reading String :=
  match fuel, text with
  | 0, _ | _, [] => .error .unfinished
  | fuel + 1, c :: rest =>
    if c = '"' then .ok (String.ofList read.reverse,rest)
    else if c.toNat < 0x20 then .error (.inside .string text)
    else if c = '\\' then
      match readEscape rest with
      | .ok (decoded,after) => readString fuel (decoded :: read) after
      | .error fault => .error fault
    else readString fuel (c :: read) rest

/-- A string after its opening quote. -/
def readText (text : List Char) : Reading String := readString (text.length + 1) [] text

/-! ## Numbers and words -/

/-- A number. Its whole part is a single zero or starts with another digit. -/
def readNumber (text : List Char) : Reading JsonDocument :=
  let sign := (text.take 1).filter (· = '-')
  let magnitude := text.drop sign.length
  let digits := magnitude.takeWhile isDecimalDigit
  let whole := if digits.head? = some '0' then ['0'] else digits
  let decimal := DecimalText.goingOn whole (magnitude.drop whole.length)
  let size := decimal.chars.length
  if whole.isEmpty then .error (.inside .number magnitude)
  else if decimal.fraction.any (·.isEmpty) then
    .error (.inside .fraction (magnitude.drop (whole.length + 1)))
  else if decimal.isBroken then .error (.inside .exponent (magnitude.drop size))
  else
    let value := decimal.value?.map fun value => if sign.isEmpty then value else value.negate
    .ok (.number (String.ofList (sign ++ magnitude.take size)) value,magnitude.drop size)

/-- The rest of a word. -/
def readWord (word : String) (document : JsonDocument) :
    (wanted : List Char) → List Char → Reading JsonDocument
  | [], text => .ok (document,text)
  | c :: wanted, text =>
    if text.head? = some c then readWord word document wanted (text.drop 1)
    else .error (.inside (.insideWord word c) text)

/-- A value that is neither a string nor an array nor an object. -/
def readPlain (text : List Char) : Reading JsonDocument :=
  match text with
  | 'n' :: rest => readWord "null" .null "ull".toList rest
  | 't' :: rest => readWord "true" (.bool true) "rue".toList rest
  | 'f' :: rest => readWord "false" (.bool false) "alse".toList rest
  | c :: _ =>
    if c = '-' || isDecimalDigit c then readNumber text else .error (.atGap .value text)
  | [] => .error (.atGap .value text)

/-! ## Values -/

mutual

/-- A value. -/
def readValue : (fuel : Nat) → List Char → Reading JsonDocument
  | 0, _ => .error .unfinished
  | fuel + 1, text =>
    match skipBlanks text with
    | '"' :: rest => (readText rest).map fun (value,rest) => (.string value,rest)
    | '[' :: rest => match skipBlanks rest with
      | ']' :: rest => .ok (.array [],rest)
      | rest => (readItems fuel rest).map fun (items,rest) => (.array items,rest)
    | '\x7b' :: rest => match skipBlanks rest with
      | '\x7d' :: rest => .ok (.object [],rest)
      | rest => (readMembers fuel rest).map fun (members,rest) => (.object members,rest)
    | text => readPlain text

/-- The items of an array, at least one. -/
def readItems : (fuel : Nat) → List Char → Reading (List JsonDocument)
  | 0, _ => .error .unfinished
  | fuel + 1, text => match readValue fuel text with
    | .error fault => .error fault
    | .ok (item,rest) => match skipBlanks rest with
      | ',' :: rest => (readItems fuel rest).map fun (items,rest) => (item :: items,rest)
      | ']' :: rest => .ok ([item],rest)
      | rest => .error (.atGap .afterItem rest)

/-- The members of an object, at least one. -/
def readMembers : (fuel : Nat) → List Char → Reading (List (String × JsonDocument))
  | 0, _ => .error .unfinished
  | fuel + 1, text => match readMember fuel text with
    | .error fault => .error fault
    | .ok (member,rest) => match skipBlanks rest with
      | ',' :: rest => (readMembers fuel rest).map fun (members,rest) => (member :: members,rest)
      | '\x7d' :: rest => .ok ([member],rest)
      | rest => .error (.atGap .afterMember rest)

/-- A member of an object. -/
def readMember : (fuel : Nat) → List Char → Reading (String × JsonDocument)
  | 0, _ => .error .unfinished
  | fuel + 1, text => match skipBlanks text with
    | '"' :: rest => match readText rest with
      | .error fault => .error fault
      | .ok (name,rest) => match skipBlanks rest with
        | ':' :: rest => (readValue fuel rest).map fun (value,rest) => ((name,value),rest)
        | rest => .error (.atGap .afterName rest)
    | rest => .error (.atGap .name rest)

end

/-- The document that makes up a text. Each character costs at most three steps of depth. -/
def read (text : List Char) : Except JsonFault JsonDocument :=
  match readValue (3 * text.length + 3) text with
  | .error fault => .error fault
  | .ok (document,rest) => match skipBlanks rest with
    | [] => .ok document
    | rest => .error (.atGap .afterDocument rest)

end JsonDocument

end CFrontend.Settings
