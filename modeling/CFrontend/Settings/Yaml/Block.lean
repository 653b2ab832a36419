import CFrontend.Settings.Yaml.Cursor
import CFrontend.Text.Digits

/-!
A bar or a greater sign stands for the indented lines after it, line by line or folded into one
line. Signs after it tell what happens to the line breaks at the end.
-/
namespace CFrontend.Settings.Yaml

/-- What happens to the line breaks at the end of a block. -/
inductive Chomping where
  | strip
  | clip
  | keep
deriving DecidableEq, Repr

/-- The head of a block. -/
structure BlockHead where
  literal : Bool
  chomping : Chomping := .clip
  /-- The indentation, if it is given. -/
  indent : Option Nat := none
deriving DecidableEq, Repr

/-- The chomping of a sign. -/
def chomping? : Char → Option Chomping
  | '-' => some .strip
  | '+' => some .keep
  | _ => none

/-- Reads the head of a block. -/
def readBlockHead (cursor : Cursor) : Except YamlCause BlockHead :=
  let marks := (cursor.lineText.drop 1).takeWhile fun c =>
    (chomping? c).isSome || isDecimalDigit c
  let digits := marks.filter isDecimalDigit
  let signs := marks.filterMap chomping?
  if digits.head? = some '0' then .error .zeroIndent
  else if 1 < digits.length || 1 < signs.length then .error .badBlockHead
  else if !isDone (cursor.lineText.drop (marks.length + 1)) then .error .badBlockHead
  else .ok {
    literal := cursor.text.head? = some '|'
    chomping := signs.head?.getD .clip
    indent := if digits.isEmpty then none else some (digitsValue 10 digits) }

/-- The number of blanks that a line starts with. -/
def indentOf (line : List Char) : Nat := (line.takeWhile (· = ' ')).length

/-- Whether a line has nothing beyond an indentation. -/
def isEmptyLine (indent : Nat) (line : List Char) : Bool :=
  (line.drop (min indent (indentOf line))).isEmpty

/-- The indentation of a block: the largest one up to its first line with a text. -/
def blockIndent : (fuel : Nat) → Cursor → Nat
  | 0, _ => 1
  | fuel + 1, cursor =>
    let indent := max 1 (indentOf cursor.lineText)
    if indentOf cursor.lineText = cursor.lineText.length && !cursor.text.isEmpty then
      max indent (blockIndent fuel cursor.nextLine)
    else indent

/-- The number of empty lines in a row, and what follows them. -/
def skipEmptyLines (indent : Nat) : (fuel : Nat) → Cursor → Nat × Cursor
  | 0, cursor => (0,cursor)
  | fuel + 1, cursor =>
    if isEmptyLine indent cursor.lineText && cursor.lineText.length < cursor.text.length then
      let (count,after) := skipEmptyLines indent fuel cursor.nextLine
      (count + 1,after)
    else (0,cursor)

/-- The lines of a block after some text. `pending` are the line breaks since the last line, and
    `afterBlank` tells whether that line started with a blank. -/
def readBlockLines (head : BlockHead) (indent : Nat) (afterBlank : Bool) :
    (fuel : Nat) → (text pending : List Char) → Cursor → List Char × Cursor
  | 0, text, _, cursor => (text,cursor)
  | fuel + 1, text, pending, cursor =>
    let (empty,cursor) := skipEmptyLines indent cursor.text.length cursor
    let line := cursor.lineText
    let breaks := List.replicate empty '\n'
    if indentOf line < indent || cursor.text.length ≤ indent then
      let tail := match head.chomping with
        | .strip => []
        | .clip => pending
        | .keep => pending ++ breaks
      (text ++ tail,cursor)
    else
      let content := line.drop indent
      let startsBlank := content.head?.any isBlank
      let joint :=
        if head.literal || afterBlank || startsBlank || pending.isEmpty then pending
        else if empty = 0 then [' '] else []
      let ending := if line.length < cursor.text.length then ['\n'] else []
      readBlockLines head indent startsBlank fuel (text ++ joint ++ breaks ++ content) ending
        cursor.nextLine

/-- A block scalar from its mark on, and the line after it. -/
def readBlock (cursor : Cursor) : Except YamlFault (List Char × Cursor) :=
  match readBlockHead cursor with
  | .error cause => .error (.characters cursor.line cursor.line cause)
  | .ok head =>
    let body := cursor.nextLine
    let indent := head.indent.getD (blockIndent body.text.length body)
    .ok (readBlockLines head indent false (body.text.length + 1) [] [] body)

end CFrontend.Settings.Yaml
