import CFrontend.Parser.Basic

/-!
The first error of a document, at the place where an editor shows it. Editors count lines and
columns from zero, and columns in UTF-16 code units.
-/
namespace CFrontend

/-- A place as editors count it. -/
structure EditorPosition where
  line : UInt32
  character : UInt32
deriving DecidableEq, Repr, Inhabited

/-- The number of UTF-16 code units of a character. -/
def utf16Length (c : Char) : Nat := if c.toNat < 0x10000 then 1 else 2

/-- The number of UTF-16 code units of several characters. -/
def utf16Units (chars : List Char) : Nat := chars.foldl (fun units c => units + utf16Length c) 0

/-- The byte that ends a line. -/
def lineBreak : UInt8 := 0x0a

/-- The line of a text with a number counted from zero, without its line break. -/
def lineAt? : (number : Nat) → List UInt8 → Option (List UInt8)
  | 0, text => some (text.takeWhile (· ≠ lineBreak))
  | number + 1, text => match text.dropWhile (· ≠ lineBreak) with
    | [] => none
    | _ :: rest => lineAt? number rest

/-- The code units before a column of a line. Columns past the end of the line count one unit
    each. -/
def unitsBefore (line : List Char) (column : Int) : Nat :=
  let count := (column - 1).toNat
  utf16Units (line.take count) + (count - line.length)

/-- A place in a text as editors count it. The text is split into lines before these are decoded. -/
def editorPosition (text : List UInt8) (pos : Position) : EditorPosition :=
  let number := (pos.line - 1).toNat
  let units := match lineAt? number text with
    | some line => unitsBefore (Text.decode line) pos.column
    | none => 0
  ⟨UInt32.ofNat number,UInt32.ofNat units⟩

/-- An error in a document. -/
structure Diagnostic where
  start : EditorPosition
  stop : EditorPosition
  message : String
deriving DecidableEq, Repr

namespace Diagnostic

/-- Diagnostics are errors, the gravest of four grades. -/
def severity : Nat := 1

/-- Who reports diagnostics. -/
def source : String := "ucc"

/-- The diagnostic of an error. It covers one code unit. -/
def ofError (text : List UInt8) (error : ParseError) : Diagnostic :=
  let start := editorPosition text (error.position?.getD .origin)
  ⟨start,{ start with character := start.character + 1 },error.summary⟩

/-- The diagnostics of a document: none if it parses, else its first error. -/
def diagnose (grammar : Grammar) (options : Parser.Options) (text : List UInt8) : List Diagnostic :=
  match Parser.parse grammar options (.ofSource ⟨Text.decode text,none⟩) with
  | .ok _ => []
  | .error error => [ofError text error]

end Diagnostic

end CFrontend
