import CFrontend.Settings.Yaml.Block
import CFrontend.Settings.Yaml.Flow

/-!
The value after the colon of a setting: a scalar, a collection, or a reference to an earlier value.
It goes on over the indented lines after it. Nested collections are passed over, since no setting
takes them.
-/
namespace CFrontend.Settings.Yaml

/-- Values with names by which later settings can refer to them. -/
abbrev Anchors := List (String × Value)

/-! ## Plain scalars -/

/-- The number of blank lines in a row, and the line after them. A tab starts no blank line. -/
def skipBlankLines : (fuel : Nat) → Cursor → Nat × Cursor
  | 0, cursor => (0,cursor)
  | fuel + 1, cursor =>
    if cursor.lineText.all isBlank && !cursor.text.isEmpty && cursor.text.head? ≠ some '\t' then
      let (count,after) := skipBlankLines fuel cursor.nextLine
      (count + 1,after)
    else (0,cursor)

/-- The rest of a plain scalar that started on line `start`, and the line after it. It goes on over
    indented lines up to a comment. -/
def readPlainFrom (start : Nat) :
    (fuel : Nat) → (read : List Char) → Cursor → Except YamlFault (List Char × Cursor)
  | 0, read, cursor => .ok (read,cursor)
  | fuel + 1, read, cursor =>
    let line := cursor.lineText
    let bare := withoutComment true line
    let read := read ++ trim bare
    if (splitName? bare).isSome then .error (.characters cursor.line cursor.line .strayColon)
    else if bare.length < line.length then .ok (read,cursor.nextLine)
    else
      let (count,next) := skipBlankLines cursor.text.length cursor.nextLine
      let joint := if count = 0 then [' '] else List.replicate count '\n'
      match next.text with
      | ' ' :: _ =>
        if next.isLineDone then .ok (read,next)
        else readPlainFrom start fuel (read ++ joint) next.skipBlanks
      | '\t' :: _ => .error (.characters start next.line .tabIndent)
      | _ => .ok (read,next)

/-- A plain scalar and the line after it. -/
def readPlain (cursor : Cursor) : Except YamlFault (List Char × Cursor) :=
  readPlainFrom cursor.line (cursor.text.length + 1) [] cursor

/-! ## Properties -/

/-- What may stand in front of a value: a tag and a name for the value. -/
structure Properties where
  tag : Option String := none
  anchor : Option String := none

/-- Whether a character may stand in the name of an anchor. -/
def isAnchorChar (c : Char) : Bool := c.isAlphanum || c = '_' || c = '-'

/-- The name after the mark of an anchor or a reference. -/
def readReference (cursor : Cursor) : Except YamlFault (String × Cursor) :=
  let name := (cursor.text.drop 1).takeWhile isAnchorChar
  let after := cursor.drop (name.length + 1)
  if name.isEmpty || !endsMark after.text then
    .error (.characters cursor.line cursor.line .badReference)
  else .ok (String.ofList name,after)

/-- Adds one property, if there is one. -/
def readProperty (properties : Properties) (cursor : Cursor) :
    Except YamlFault (Properties × Cursor) :=
  match cursor.text with
  | '!' :: _ =>
    let tag := cursor.text.takeWhile (!isGap ·)
    .ok ({ properties with tag := some (String.ofList tag) },(cursor.drop tag.length).skipBlanks)
  | '&' :: _ => (readReference cursor).map fun (name,after) =>
    ({ properties with anchor := some name },after.skipBlanks)
  | _ => .ok (properties,cursor)

/-- The properties of a value, at most one of each sort. -/
def readProperties (cursor : Cursor) : Except YamlFault (Properties × Cursor) :=
  match readProperty {} cursor with
  | .error fault => .error fault
  | .ok (properties,after) => readProperty properties after

/-! ## Values -/

/-- Goes to the next line after a value in quotes, brackets or braces that started on a line of its
    own mapping, which started on line `start`. -/
def finishLine (start : Nat) (cursor : Cursor) : Except YamlFault Cursor :=
  if cursor.isLineDone then .ok cursor.nextLine
  else match cursor.skipBlanks.text with
    | ':' :: rest =>
      if endsMark rest then .error (.characters cursor.line cursor.line .strayColon)
      else .error (.order start cursor.line .noKey)
    | _ => .error (.order start cursor.line .noKey)

/-- Passes over the lines of a nested collection. Items of a list may stand at the margin. -/
def skipNested : (fuel : Nat) → Cursor → Cursor
  | 0, cursor => cursor
  | fuel + 1, cursor =>
    let line := cursor.lineText
    if cursor.text.isEmpty then cursor
    else if isDone line || line.head?.any isBlank || isItem line then
      skipNested fuel cursor.nextLine
    else cursor

/-- A scalar under a tag. A bare exclamation mark demands nothing, and under a tag of no known kind
    a text stands for itself. -/
def tagged (properties : Properties) (quoted : Bool) (text : List Char) : Except YamlFault Value :=
  match properties.tag.filter (· ≠ "!") with
  | some name => match Tag.ofName? name with
    | some tag => (resolveAs tag text).map (·.value)
    | none => .ok (Scalar.quoted text).value
  | none => .ok (if quoted then Scalar.quoted text else resolve text).value

/-- The value that starts at a place that is not blank, and the line after it. -/
def readContent (anchors : Anchors) (start : Nat) (properties : Properties) (cursor : Cursor) :
    Except YamlFault (Value × Cursor) :=
  let refuse (cause : YamlCause) : Except YamlFault (Value × Cursor) :=
    .error (.characters cursor.line cursor.line cause)
  match cursor.text with
  | [] => (tagged properties false []).map (·,cursor)
  | c :: rest =>
    if startsQuoted cursor.text then do
      let (text,after) ← readQuoted cursor
      let next ← finishLine start after
      return (← tagged properties true text,next)
    else if c = '|' || c = '>' then do
      let (text,next) ← readBlock cursor
      return (← tagged properties true text,next)
    else if c = '[' || c = '\x7b' then do
      let (node,after) ← readFlow cursor
      return (node.value,← finishLine start after)
    else if c = '*' then do
      let (name,after) ← readReference cursor
      match anchors.lookup name with
      | some value => return (value,← finishLine start after)
      | none => throw (.unknownAnchor name)
    else if c = '@' || c = '\x60' || c = '%' then refuse .badStart
    else if c = ',' || c = ']' || c = '\x7d' then .error (.order cursor.line cursor.line .noContent)
    else if c = '-' && endsMark rest then refuse .strayItem
    else if c = '?' && endsMark rest then refuse .strayKey
    else do
      let (text,next) ← readPlain cursor
      return (← tagged properties false text,next)

/-- The value of a setting whose line ends after the colon, from the next line on. -/
def readBelow (anchors : Anchors) (start : Nat) (properties : Properties) (cursor : Cursor) :
    Except YamlFault (Value × Cursor) :=
  let next := cursor.contentLine
  let content := next.skipSpaces
  let line := content.lineText
  if line.head? = some '\t' then .error (.characters next.line next.line .badStart)
  else if isItem next.lineText then .ok (.compound,skipNested next.text.length next)
  else if !next.lineText.head?.any isBlank then (tagged properties false []).map (·,next)
  else if isItem line || (splitName? (withoutComment true line)).isSome then
    .ok (.compound,skipNested next.text.length next)
  else readContent anchors start properties content

/-- The value of a setting after its colon, the line after it, and the anchors from there on. -/
def readValue (anchors : Anchors) (start : Nat) (cursor : Cursor) :
    Except YamlFault ((Value × Anchors) × Cursor) := do
  let (properties,content) ← readProperties cursor.skipBlanks
  let (value,next) ←
    if content.isLineDone then readBelow anchors start properties content.nextLine
    else readContent anchors start properties content
  match properties.anchor with
  | some name => return ((value,(name,value) :: anchors),next)
  | none => return ((value,anchors),next)

end CFrontend.Settings.Yaml
