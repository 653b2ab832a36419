import CFrontend.Settings.Line
import CFrontend.Settings.Yaml.Fault

/-!
A cursor is the rest of a text and the number of the line that it starts in. A newline is the only
line break.
-/
namespace CFrontend.Settings.Yaml

/-- A place in a text. -/
structure Cursor where
  line : Nat := 1
  text : List Char
deriving DecidableEq, Repr

namespace Cursor

/-- Passes over characters. -/
def drop (cursor : Cursor) (count : Nat) : Cursor :=
  ⟨cursor.line + (cursor.text.take count).count '\n',cursor.text.drop count⟩

/-- The rest of the line. -/
def lineText (cursor : Cursor) : List Char := cursor.text.takeWhile (· ≠ '\n')

/-- The start of the next line. -/
def nextLine (cursor : Cursor) : Cursor := cursor.drop (cursor.lineText.length + 1)

/-- Passes over blanks. -/
def skipBlanks (cursor : Cursor) : Cursor := cursor.drop (cursor.text.takeWhile isBlank).length

/-- Whether the rest of the line says nothing. -/
def isLineDone (cursor : Cursor) : Bool := isDone cursor.lineText

/-- Passes over spaces. -/
def skipSpaces (cursor : Cursor) : Cursor := cursor.drop (cursor.text.takeWhile (· = ' ')).length

/-- Whether the line has nothing but spaces and a comment. A tab is no space at its start. -/
def isIdle (cursor : Cursor) : Bool := cursor.skipSpaces.lineText.head?.all (· = '#')

/-- Passes over lines that say nothing. -/
def skipIdleLines : (fuel : Nat) → Cursor → Cursor
  | 0, cursor => cursor
  | fuel + 1, cursor =>
    if cursor.isIdle && !cursor.text.isEmpty then skipIdleLines fuel cursor.nextLine else cursor

/-- The next line that says something, or the end of the text. -/
def contentLine (cursor : Cursor) : Cursor := skipIdleLines cursor.text.length cursor

end Cursor

/-- Whether nothing or a blank follows a mark. -/
def endsMark (rest : List Char) : Bool := rest.head?.all fun c => isBlank c || c = '\n'

/-- Whether a line starts with three given characters and nothing but blanks right after them. -/
def startsWithMark (mark : String) (line : List Char) : Bool :=
  mark.toList.isPrefixOf line && endsMark (line.drop mark.length)

/-- Whether a line starts a document. -/
def isDocumentStart (line : List Char) : Bool := startsWithMark "---" line

/-- Whether a line ends a document. -/
def isDocumentMark (line : List Char) : Bool := isDocumentStart line || startsWithMark "..." line

/-- Whether a line is an item of a list. -/
def isItem (line : List Char) : Bool := startsWithMark "-" line

/-- The text before a colon that ends a name and the text after it. -/
def splitName? (line : List Char) : Option (List Char × List Char) :=
  splitAt? ':' endsMark [] line

end CFrontend.Settings.Yaml
