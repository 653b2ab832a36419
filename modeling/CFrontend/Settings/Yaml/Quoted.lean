import CFrontend.Settings.Yaml.Cursor
import CFrontend.Text.Digits
import CFrontend.Text.Utf8

/-!
Between single quotes two quotes stand for one; between double quotes there are escapes. A line
break inside is a blank, and of several breaks in a row the first one does not count.
-/
namespace CFrontend.Settings.Yaml

/-- The character of a short escape. -/
def shortEscape? : Char → Option Char
  | '0' => some '\x00'
  | 'a' => some '\x07'
  | 'b' => some '\x08'
  | 't' | '\t' => some '\t'
  | 'n' => some '\n'
  | 'v' => some '\x0b'
  | 'f' => some '\x0c'
  | 'r' => some '\r'
  | 'e' => some '\x1b'
  | ' ' => some ' '
  | '"' => some '"'
  | '\'' => some '\''
  | '\\' => some '\\'
  | 'N' => some '\u0085'
  | '_' => some '\u00a0'
  | 'L' => some '\u2028'
  | 'P' => some '\u2029'
  | _ => none

/-- The number of hexadecimal digits of a character escape. -/
def escapeWidth? : Char → Option Nat
  | 'x' => some 2
  | 'u' => some 4
  | 'U' => some 8
  | _ => none

/-- Whether a character is a blank or a line break. -/
def isGap (c : Char) : Bool := isBlank c || c = '\n'

/-- What blanks and line breaks in a row stand for. -/
def foldGap (gap : List Char) : List Char :=
  match gap.count '\n' with
  | 0 => gap
  | 1 => [' ']
  | breaks + 2 => List.replicate (breaks + 1) '\n'

/-- What an escape after its backslash stands for, and the number of its characters. An escaped line
    break leaves out the blanks after it. -/
def readEscape (text : List Char) : Except YamlCause (List Char × Nat) :=
  match text with
  | [] => .error .unknownEscape
  | '\n' :: rest =>
    let gap := rest.takeWhile isGap
    .ok (List.replicate (gap.count '\n') '\n',gap.length + 1)
  | mark :: rest => match shortEscape? mark, escapeWidth? mark with
    | some c, _ => .ok ([c],1)
    | none, none => .error .unknownEscape
    | none, some width =>
      let digits := rest.take width
      if digits.length < width || !digits.all (isDigitBelow 16) then .error .badEscapeDigit
      else match Text.scalar? (digitsValue 16 digits) with
        | some c => .ok ([c],width + 1)
        | none => .error .badEscapeCode

/-- The rest of a scalar that started on line `start` with the given quote; `read` holds its
    characters so far, last one first. -/
def readQuotedFrom (quote : Char) (start : Nat) :
    (fuel : Nat) → (read : List Char) → Cursor → Except YamlFault (List Char × Cursor)
  | 0, _, cursor => .error (.characters start cursor.line .unclosedQuote)
  | fuel + 1, read, cursor => match cursor.text with
    | [] => .error (.characters start cursor.line .unclosedQuote)
    | c :: rest =>
      if isGap c then
        let gap := cursor.text.takeWhile isGap
        let after := cursor.drop gap.length
        if gap.getLast? = some '\n' && isDocumentMark after.text then
          .error (.characters start after.line .documentInQuote)
        else readQuotedFrom quote start fuel ((foldGap gap).reverse ++ read) after
      else if c = quote then
        if quote = '\'' && rest.head? = some quote then
          readQuotedFrom quote start fuel (quote :: read) (cursor.drop 2)
        else .ok (read.reverse,cursor.drop 1)
      else if quote = '"' && c = '\\' then
        match readEscape rest with
        | .error cause => .error (.characters start cursor.line cause)
        | .ok (decoded,size) =>
          readQuotedFrom quote start fuel (decoded.reverse ++ read) (cursor.drop (size + 1))
      else readQuotedFrom quote start fuel (c :: read) (cursor.drop 1)

/-- Whether a text starts with a quote. -/
def startsQuoted (text : List Char) : Bool := text.head? = some '"' || text.head? = some '\''

/-- A quoted scalar from its opening quote on, and what follows it. -/
def readQuoted (cursor : Cursor) : Except YamlFault (List Char × Cursor) :=
  readQuotedFrom (cursor.text.head?.getD '"') cursor.line cursor.text.length [] (cursor.drop 1)

end CFrontend.Settings.Yaml
