import CFrontend.Settings.Toml.Number
import CFrontend.Settings.Toml.Text
import CFrontend.Settings.Toml.Timestamp

/-!
A file has one setting a line, with an equals sign between the name and the value. Settings in
tables are none of the program's own, but the name of a table stands for a compound value.
-/
namespace CFrontend.Settings

namespace Toml

/-! ## Values as they are written -/

/-- A value as it is written. -/
inductive Written where
  | text (content : List Char)
  | bool (truth : Bool)
  | integer (chars : List Char)
  | float (chars : List Char)
  | date (chars : List Char)
  | clock (chars : List Char)
  | dateClock (chars : List Char)
  | timestamp (chars : List Char)
  | compound
deriving DecidableEq, Repr

/-- The value of a setting. -/
def Written.value : Written → Except TomlValueFault Value
  | .text content => .ok (.text (String.ofList content))
  | .bool truth => .ok (.bool truth)
  | .integer chars => (Toml.integer chars).map .integer
  | .float chars => (Toml.float chars).map .float
  | .date chars => (dateText chars).map .text
  | .clock chars => (clockText chars).map .text
  | .dateClock chars => (dateClockText chars).map .text
  | .timestamp chars => (timestampText chars).map .text
  | .compound => .ok .compound

/-- Passes over blanks. -/
def skipBlanks (text : List Char) : List Char := text.dropWhile fun c => c = ' ' || c = '\t'

/-- A wanted character. -/
def want (c : Char) (text : List Char) : Except TomlFault (List Char) :=
  match text with
  | [] => .error (.wanted c true)
  | found :: rest => if found = c then .ok rest else .error (.wanted c false)

/-- A comment after its mark. It ends before a line break. -/
def readComment : List Char → Except TomlFault (List Char)
  | [] => .ok []
  | '\r' :: '\n' :: rest => .ok ('\n' :: rest)
  | c :: rest =>
    if c = '\n' then .ok (c :: rest) else if isForbidden c then .error .badComment
    else readComment rest

/-! ## Numbers and days -/

/-- A word that stands for a value. -/
def readWord (word : String) (written : Written) (text : List Char) :
    Except TomlFault (Written × List Char) :=
  if word.toList.isPrefixOf text then .ok (written,text.drop word.length)
  else .error (.wantedWord word)

/-- Whether a digit or an underscore goes with the mark of a radix. -/
def isRadixDigit (mark c : Char) : Bool :=
  let radix := if mark = 'x' then 16 else if mark = 'o' then 8 else 2
  c = '_' || isDigitBelow radix c

/-- The length of a decimal number that a text starts with, and whether it is floating. A word for
    an infinite number or none may end it. -/
def numberLength (seen : Nat) (floating : Bool) : List Char → Except TomlFault (Nat × Bool)
  | [] => .ok (seen,floating)
  | c :: rest =>
    let word := (c :: rest).take 3
    if isDecimalDigit c || c = '+' || c = '-' || c = '_' then numberLength (seen + 1) floating rest
    else if c = '.' || c = 'e' || c = 'E' then numberLength (seen + 1) true rest
    else if c = 'i' || c = 'n' then
      if word = "inf".toList || word = "nan".toList then .ok (seen + 3,true)
      else .error (.badNumberChar c)
    else .ok (seen,floating)

/-- A number. -/
def readNumber (text : List Char) : Except TomlFault (Written × List Char) :=
  let radixForm : Option Nat := match text with
    | '0' :: mark :: c :: rest =>
      if mark = '.' || mark = 'e' || mark = 'E' then none
      else if mark = 'x' || mark = 'o' || mark = 'b' then
        some (2 + ((c :: rest).takeWhile (isRadixDigit mark)).length)
      else some 1
    | _ => none
  match radixForm with
  | some size => .ok (.integer (text.take size),text.drop size)
  | none => match numberLength 0 false text with
    | .error fault => .error fault
    | .ok (size,floating) =>
      let written := text.take size
      if size = 0 then .error .incompleteNumber
      else .ok (if floating then .float written else .integer written,text.drop size)

/-- The length of a day or a time. One blank may stand in it before a digit. -/
def timeLength (seen : Nat) (spaced : Bool) : List Char → Nat
  | [] => seen
  | c :: rest =>
    if isDecimalDigit c || "Tt:.+-Zz".toList.contains c then timeLength (seen + 1) spaced rest
    else if c = ' ' && !spaced && rest.head?.any isDecimalDigit then
      timeLength (seen + 1) true rest
    else seen

/-- A day, a time or both. -/
def readTime (text : List Char) : Except TomlFault (Written × List Char) :=
  let size := timeLength 0 false text
  let written := text.take size
  let hasDate := written.contains '-'
  let hasTime := written.any fun c => "Tt:. ".toList.contains c
  let hasZone := written.any ("+Zz".toList.contains ·) || (written.drop 8).contains '-'
  let form := if !hasTime then Written.date written
    else if !hasDate then .clock written
    else if hasZone then .timestamp written
    else .dateClock written
  .ok (form,text.drop size)

/-- Whether a text starts like a day or a time. -/
def startsTime (text : List Char) : Bool :=
  let size := (text.takeWhile isDecimalDigit).length
  2 < text.length &&
    ((size = 2 && text[2]? = some ':') || (size = 4 && text[4]? = some '-'))

/-- A value that is neither quoted nor compound. -/
def readPlain (text : List Char) : Except TomlFault (Written × List Char) :=
  match text with
  | [] => .error .noValue
  | 't' :: _ => readWord "true" (.bool true) text
  | 'f' :: _ => readWord "false" (.bool false) text
  | 'i' :: _ => readWord "inf" (.float "inf".toList) text
  | 'n' :: _ => readWord "nan" (.float "nan".toList) text
  | _ => if startsTime text then readTime text else readNumber text

/-! ## Names -/

/-- Whether a character may stand in a name without quotes. -/
def isBareChar (c : Char) : Bool := c.isAlphanum || c = '_' || c = '-'

/-- One part of a name. -/
def readPart (text : List Char) : Except TomlFault (String × List Char) :=
  match text with
  | [] => .error .noKey
  | '"' :: rest => (readBasic rest).map fun (name,rest) => (String.ofList name,rest)
  | '\'' :: rest => (readLiteral rest).map fun (name,rest) => (String.ofList name,rest)
  | c :: _ =>
    let name := text.takeWhile isBareChar
    if name.isEmpty then .error (.badKeyStart (Text.firstByte [c]))
    else .ok (String.ofList name,text.drop name.length)

/-- The parts of a name with periods between them, at least one. -/
def readName : (fuel : Nat) → List Char → Except TomlFault (List String × List Char)
  | 0, _ => .error .noKey
  | fuel + 1, text => match readPart text with
    | .error fault => .error fault
    | .ok (first,rest) => match skipBlanks rest with
      | '.' :: tail =>
        (readName fuel (skipBlanks tail)).map fun (parts,rest) => (first :: parts,rest)
      | rest => .ok ([first],rest)

/-! ## Compound values -/

/-- Passes over blanks, line breaks and comments. -/
def skipGaps : (fuel : Nat) → List Char → Except TomlFault (List Char)
  | 0, text => .ok text
  | fuel + 1, text => match skipBlanks text with
    | '#' :: rest => do skipGaps fuel (← readComment rest)
    | '\n' :: rest => skipGaps fuel rest
    | '\r' :: '\n' :: rest => skipGaps fuel rest
    | rest => .ok rest

mutual

/-- A value. -/
def readValue : (fuel : Nat) → List Char → Except TomlFault (Written × List Char)
  | 0, _ => .error .noValue
  | fuel + 1, text => match text with
    | '"' :: _ | '\'' :: _ => (readQuoted text).map fun (value,rest) => (.text value,rest)
    | '[' :: rest => (readItems fuel true rest).map (.compound,·)
    | '\x7b' :: rest => (readMembers fuel true rest).map (.compound,·)
    | text => readPlain text

/-- The items of an array up to its end. -/
def readItems : (fuel : Nat) → (first : Bool) → List Char → Except TomlFault (List Char)
  | 0, _, _ => .error .unclosedArray
  | fuel + 1, first, text => do
    match ← skipGaps text.length text with
    | [] => throw .unclosedArray
    | ']' :: rest => return rest
    | c :: rest =>
      if c = ',' && first then throw .arrayComma
      if c ≠ ',' && !first then throw .noArrayComma
      let item ← if c = ',' then skipGaps rest.length rest else pure (c :: rest)
      match item with
      | ']' :: rest => return rest
      | item =>
        let (_,rest) ← readValue fuel item
        readItems fuel false rest

/-- The members of an inline table up to its end. -/
def readMembers : (fuel : Nat) → (first : Bool) → List Char → Except TomlFault (List Char)
  | 0, _, _ => .error .unclosedTable
  | fuel + 1, first, text => do
    match skipBlanks text with
    | [] => throw .unclosedTable
    | '\x7d' :: rest => return rest
    | text =>
      let member ← if first then pure text else want ',' text
      let (_,rest) ← readSetting fuel (skipBlanks member)
      readMembers fuel false rest

/-- A name and its value. -/
def readSetting : (fuel : Nat) → List Char → Except TomlFault ((List String × Written) × List Char)
  | 0, _ => .error .noKey
  | fuel + 1, text => do
    let (name,rest) ← readName (text.length + 1) text
    if rest.isEmpty then throw .noEquals
    let (value,rest) ← readValue fuel (skipBlanks (← want '=' rest))
    return ((name,value),rest)

end

/-! ## Lines -/

/-- What a line says. -/
inductive Expression where
  | nothing
  | setting (name : List String) (value : Written)
  | table (name : List String)

/-- The head of a table, with one bracket or with two. -/
def readTable (text : List Char) : Except TomlFault (List String × List Char) := do
  let double := text.take 2 = ['[','[']
  let inner := skipBlanks (text.drop (if double then 2 else 1))
  let (name,rest) ← readName (inner.length + 1) inner
  let rest ← want ']' rest
  return (name,← if double then want ']' rest else pure rest)

/-- What stands on a line, and the rest from the line break on. -/
def readExpression (text : List Char) : Except TomlFault (Expression × List Char) := do
  let text := skipBlanks text
  let (expression,rest) ← match text with
    | [] => pure (Expression.nothing,text)
    | c :: _ =>
      if c = '#' || isBreak c then pure (Expression.nothing,text)
      else if c = '[' then do
        let (name,rest) ← readTable text
        pure (.table name,rest)
      else do
        let ((name,value),rest) ← readSetting (2 * text.length + 2) text
        pure (.setting name value,rest)
  match skipBlanks rest with
  | '#' :: rest => return (expression,← readComment rest)
  | rest => return (expression,rest)

/-- The text after a line break. -/
def readBreak : List Char → Except TomlFault (List Char)
  | [] => .ok []
  | '\n' :: rest => .ok rest
  | '\r' :: '\n' :: rest => .ok rest
  | '\r' :: rest => .error (.loneReturn rest.isEmpty)
  | c :: _ => .error (.wantedNewline (Text.firstByte [c]))

/-! ## Files -/

/-- What is defined so far. -/
structure Definitions where
  settings : List (String × Value) := []
  /-- The names of tables; a table that only holds settings with periods is implied. -/
  tables : List String := []
  implied : List String := []
  /-- Whether the settings belong to a table now. -/
  inTable : Bool := false

namespace Definitions

/-- Whether a name has a value. -/
def hasValue (definitions : Definitions) (name : String) : Bool :=
  definitions.settings.any (·.1 = name)

/-- Adds a setting. -/
def define (definitions : Definitions) (name : List String) (written : Written) :
    Except TomlFault Definitions :=
  match definitions.inTable, name with
  | false, [name] =>
    if definitions.hasValue name || definitions.implied.contains name then
      .error (.repeated name)
    else match written.value with
      | .error fault => .error (.value fault)
      | .ok value => .ok { definitions with settings := definitions.settings ++ [(name,value)] }
  | false, first :: _ =>
    if definitions.hasValue first then .error (.notTable first)
    else match written.value with
      | .error fault => .error (.value fault)
      | .ok _ => .ok { definitions with implied := first :: definitions.implied }
  | _, _ => match written.value with
    | .error fault => .error (.value fault)
    | .ok _ => .ok definitions

/-- Starts a table. -/
def openTable (definitions : Definitions) (name : List String) : Except TomlFault Definitions :=
  match name with
  | [] => .ok definitions
  | [first] =>
    if definitions.hasValue first then .error (.tableOverValue first)
    else if definitions.tables.contains first then .error (.tableRepeated first)
    else .ok { definitions with tables := first :: definitions.tables,inTable := true }
  | first :: _ =>
    if definitions.hasValue first then .error (.tableOverValue first)
    else .ok { definitions with implied := first :: definitions.implied,inTable := true }

/-- Adds what a line says. -/
def add (definitions : Definitions) : Expression → Except TomlFault Definitions
  | .nothing => .ok definitions
  | .setting name value => definitions.define name value
  | .table name => definitions.openTable name

/-- All settings; tables are compound values. -/
def layer (definitions : Definitions) : List (String × Value) :=
  definitions.settings ++ (definitions.tables ++ definitions.implied).map (·,.compound)

end Definitions

/-- Adds what the lines of a text say. -/
def readLines : (fuel : Nat) → Definitions → List Char → Except TomlFault Definitions
  | 0, definitions, _ => .ok definitions
  | fuel + 1, definitions, text => do
    let (expression,rest) ← readExpression text
    let definitions ← definitions.add expression
    if rest.isEmpty then return definitions
    readLines fuel definitions (← readBreak rest)

end Toml

/-- The settings of a TOML file. -/
def readToml (text : List Char) : Except TomlFault (List (String × Value)) :=
  (Toml.readLines (text.length + 1) {} text).map (·.layer)

end CFrontend.Settings
