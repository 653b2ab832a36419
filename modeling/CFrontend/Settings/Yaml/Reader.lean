import CFrontend.Settings.Yaml.Node

/-!
The first document of a file is a mapping from names to values, with one setting a line or in
braces. A document without anything in it has no settings.
-/
namespace CFrontend.Settings

namespace Yaml

/-! ## Mappings -/

/-- The name at the start of a line, and what follows its colon. -/
def readName (cursor : Cursor) : Except YamlFault (String × Cursor) :=
  let noColon : Except YamlFault (String × Cursor) :=
    .error (.characters cursor.line cursor.line .noColon)
  if startsQuoted cursor.text then
    match readQuoted cursor with
    | .error fault => .error fault
    | .ok (name,after) => match after.skipBlanks.text with
      | ':' :: rest =>
        if endsMark rest then .ok (String.ofList name,after.skipBlanks.drop 1) else noColon
      | _ => noColon
  else match splitName? (withoutComment true cursor.lineText) with
    | some (name,_) => .ok (String.ofList (trim name),cursor.drop (name.length + 1))
    | none => noColon

/-- The settings of a mapping that started on line `start`, after those before. -/
def readEntries (start : Nat) :
    (fuel : Nat) → List Entry → Anchors → Cursor → Except YamlFault (List Entry)
  | 0, entries, _, _ => .ok entries
  | fuel + 1, entries, anchors, cursor =>
    let here := cursor.contentLine
    match here.text with
    | [] => .ok entries
    | c :: rest =>
      if isDocumentMark here.text then .ok entries
      else if here.skipSpaces.text.head? = some '\t' || c = '@' || c = '\x60' || c = '%' then
        .error (.characters here.line here.line .badStart)
      else if c = ' ' || isItem here.text || (c = ':' && endsMark rest) then
        .error (.order start here.line .noKey)
      else match readName here with
        | .error fault => .error fault
        | .ok (name,after) => match readValue anchors start after with
          | .error fault => .error fault
          | .ok ((value,anchors),next) =>
            readEntries start fuel (entries ++ [⟨here.line,name,value⟩]) anchors next

/-- The settings that have the name of an earlier one. -/
def repetitions : List Entry → List YamlRepetition
  | [] => []
  | entry :: rest =>
    (rest.filter (·.name = entry.name)).map (fun other => ⟨entry.name,entry.line,other.line⟩) ++
      repetitions rest

/-- The settings of a mapping; no two of them have one name. -/
def settingsOf (entries : List Entry) : Except YamlFault (List (String × Value)) :=
  if (repetitions entries).isEmpty then .ok (entries.map fun entry => (entry.name,entry.value))
  else .error (.repeated (repetitions entries))

/-! ## Documents -/

/-- Checks the line after the end of a document. What follows does not count, but no name may end
    there. -/
def finishDocument (cursor : Cursor) : Except YamlFault Unit :=
  if (splitName? (withoutComment true cursor.lineText)).isSome then
    .error (.characters cursor.line cursor.line .strayColon)
  else .ok ()

/-- The lines of a document from a place on, one after another with a blank between them. -/
def joinedLines : (fuel : Nat) → Cursor → List Char
  | 0, _ => []
  | fuel + 1, cursor =>
    let here := cursor.contentLine
    if here.text.isEmpty || isDocumentMark here.text then []
    else
      let line := trim (withoutComment true here.lineText)
      let rest := joinedLines fuel here.nextLine
      if rest.isEmpty then line else line ++ ' ' :: rest

/-- The first line from a place on that has a name with a colon. -/
def namedLine? : (fuel : Nat) → Cursor → Option Nat
  | 0, _ => none
  | fuel + 1, cursor =>
    let here := cursor.contentLine
    if here.text.isEmpty || isDocumentMark here.text then none
    else if (splitName? (withoutComment true here.lineText)).isSome then some here.line
    else namedLine? fuel here.nextLine

/-- Why a document of a single plain scalar has no settings; null has none without a fault. -/
def readSingle (cursor : Cursor) : Except YamlFault (List (String × Value)) :=
  let fuel := cursor.text.length
  match namedLine? fuel cursor with
  | some line => .error (.characters line line .strayColon)
  | none =>
    let scalar := resolve (joinedLines fuel cursor)
    if scalar.tag = .null then .ok [] else .error (.notMapping cursor.line scalar.shown)

/-- The settings of a document from its first line that says something on. -/
def readDocument (cursor : Cursor) : Except YamlFault (List (String × Value)) :=
  let bare := withoutComment true cursor.lineText
  let named := (readName cursor).toOption.isSome
  match cursor.text with
  | [] => .ok []
  | c :: _ =>
    if c = '[' || c = '\x7b' then
      match readFlow cursor with
      | .error fault => .error fault
      | .ok (node,after) => match finishDocument after, node with
        | .error fault, _ => .error fault
        | .ok _, .mapping entries => settingsOf entries
        | .ok _, _ => .error (.notMapping cursor.line "!!seq")
    else if isItem cursor.text then .error (.notMapping cursor.line "!!seq")
    else if c = '\t' || c = '@' || c = '\x60' then
      .error (.characters cursor.line cursor.line .badStart)
    else if startsQuoted cursor.text && !named then
      match readQuoted cursor with
      | .error fault => .error fault
      | .ok (text,after) => match finishDocument after with
        | .error fault => .error fault
        | .ok _ => .error (.notMapping cursor.line (Scalar.quoted text).shown)
    else if named || (splitName? bare).isSome then
      match readEntries cursor.line (cursor.text.length + 1) [] [] cursor with
      | .error fault => .error fault
      | .ok entries => settingsOf entries
    else readSingle cursor

/-- The start of the first document, after the mark before it. Directives demand the mark. -/
def documentStart : (fuel : Nat) → (directed : Bool) → Cursor → Except YamlFault Cursor
  | 0, _, cursor => .ok cursor
  | fuel + 1, directed, cursor =>
    let here := cursor.contentLine
    if here.text.head? = some '%' then documentStart fuel true here.nextLine
    else if isDocumentStart here.text && isDone (here.lineText.drop 3) then
      .ok here.nextLine.contentLine
    else if directed then .error (.order here.line here.line .noDocument)
    else .ok here

/-! ## Characters -/

/-- Whether a character may stand in a text. -/
def isAllowed (c : Char) : Bool :=
  let n := c.toNat
  n = 0x9 || n = 0xa || n = 0xd || (0x20 ≤ n && n ≤ 0x7e) || n = 0x85 ||
    (0xa0 ≤ n && n ≤ 0xfffd && n ≠ 0xfeff) || 0x10000 ≤ n

/-- A text with newlines for all line breaks. -/
def withNewlines : List Char → List Char
  | [] => []
  | '\r' :: '\n' :: rest => '\n' :: withNewlines rest
  | c :: rest => (if c = '\r' || c = '\u0085' then '\n' else c) :: withNewlines rest

/-- The lines that are indented like the first one, without that indentation. The first line that
    says something and is indented less ends them. -/
def indentedLines (indent : Nat) : List (List Char) → List (List Char)
  | [] => []
  | line :: rest =>
    if (line.take indent).all (· = ' ') then line.drop indent :: indentedLines indent rest
    else if isDone line then line :: indentedLines indent rest
    else []

/-- A document without its indentation. -/
def withoutIndent (indent : Nat) (text : List Char) : List Char :=
  ['\n'].intercalate (indentedLines indent (Text.parts '\n' text))

end Yaml

open Yaml in
/-- The settings of a YAML file. -/
def readYaml (text : List Char) : Except YamlFault (List (String × Value)) :=
  let text := if text.head? = some '\ufeff' then text.drop 1 else text
  if !text.all isAllowed then .error .control
  else
    let whole : Cursor := { text := withNewlines text }
    match documentStart whole.text.length false whole with
    | .error fault => .error fault
    | .ok first =>
      let indent := (first.text.takeWhile (· = ' ')).length
      readDocument ⟨first.line,withoutIndent indent first.text⟩

end CFrontend.Settings
