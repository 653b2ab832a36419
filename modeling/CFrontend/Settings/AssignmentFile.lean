import CFrontend.Settings.Line
import CFrontend.Settings.Value

/-!
Files of names and texts, one a line: property files, environment files, and files with sections,
where a section stands for a compound value. Names with a period belong to a compound value, too.
-/
namespace CFrontend.Settings

/-- A line that is no assignment. -/
structure AssignmentFault where
  line : List Char
deriving DecidableEq, Repr

def AssignmentFault.message (fault : AssignmentFault) : String :=
  "line \x60" ++ String.ofList fault.line ++ "\x60 doesn't match format"

namespace Assignment

/-- The setting that a name and its text stand for. -/
def setting (name : List Char) (text : List Char) : String × Value :=
  if name.contains '.' then (String.ofList (name.takeWhile (· ≠ '.')),.compound)
  else (String.ofList name,.text (String.ofList text))

/-- The setting of a line of a property file. An equals sign, a colon or blanks end the name. -/
def property? (line : List Char) : Option (String × Value) :=
  let ends (c : Char) : Bool := isBlank c || c = '=' || c = ':'
  let text := line.dropWhile isBlank
  if text.isEmpty || text.head? = some '#' || text.head? = some '!' then none
  else
    let name := text.takeWhile (!ends ·)
    let rest := (text.drop name.length).dropWhile isBlank
    let value := if rest.head?.any ends then rest.drop 1 else rest
    some (setting name (value.dropWhile isBlank))

/-- A text without the quotes around it or a comment after it. -/
def unquoted (text : List Char) : List Char :=
  match trim text with
  | '"' :: rest => rest.takeWhile (· ≠ '"')
  | '\'' :: rest => rest.takeWhile (· ≠ '\'')
  | text => trim (text.takeWhile (· ≠ '#'))

/-- The setting of a line of an environment file that says something. -/
def assigned (line : List Char) : Except AssignmentFault (String × Value) :=
  let exported := "export ".toList
  let text := trim line
  let text := if exported.isPrefixOf text then text.drop exported.length else text
  match splitAt? '=' (fun _ => true) [] text with
  | some (name,value) => .ok (String.ofList (trim name),.text (String.ofList (unquoted value)))
  | none => .error ⟨line⟩

/-- The section that a line opens. -/
def section? (line : List Char) : Option (String × Value) :=
  match trim line with
  | '[' :: rest => some (String.ofList (trim (rest.takeWhile (· ≠ ']'))),.compound)
  | _ => none

end Assignment

/-- The settings of a property file. -/
def readProperties (text : List Char) : List (String × Value) :=
  (lines text).filterMap Assignment.property?

/-- The settings of an environment file. -/
def readVariables (text : List Char) : Except AssignmentFault (List (String × Value)) :=
  ((lines text).filter (!isDone ·)).mapM Assignment.assigned

/-- The settings of a file with sections. -/
def readSections (text : List Char) : List (String × Value) :=
  (lines text).filterMap Assignment.section?

end CFrontend.Settings
