import CFrontend.Text.Separated

/-!
What files with one setting a line have in common: lines, blanks and comments.
-/
namespace CFrontend.Settings

/-- The lines of a text, without carriage returns at their ends. -/
def lines (text : List Char) : List (List Char) :=
  (Text.parts '\n' text).map fun line =>
    if line.getLast? = some '\r' then line.dropLast else line

def isBlank (c : Char) : Bool := c = ' ' || c = '\t'

/-- A text without blanks at its ends. -/
def trim (text : List Char) : List Char :=
  ((text.dropWhile isBlank).reverse.dropWhile isBlank).reverse

/-- A text up to a comment, which starts the text or follows a blank. -/
def withoutComment (afterBlank : Bool) : List Char → List Char
  | [] => []
  | c :: rest => if afterBlank && c = '#' then [] else c :: withoutComment (isBlank c) rest

/-- Whether only blanks and a comment are left of a line. -/
def isDone (text : List Char) : Bool := (trim (withoutComment true text)).isEmpty

/-- Splits a line at the first mark that `ends` accepts together with the text after it. -/
def splitAt? (mark : Char) (ends : List Char → Bool) (name : List Char) :
    List Char → Option (List Char × List Char)
  | [] => none
  | c :: rest =>
    if c = mark && ends rest then some (name.reverse,rest) else splitAt? mark ends (c :: name) rest

end CFrontend.Settings
