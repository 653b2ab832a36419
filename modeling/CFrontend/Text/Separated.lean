/-!
Several texts in a row with a separator between each two, joined and taken apart.
-/
namespace CFrontend.Text

/-- Texts in order with a separator between them. -/
def separated (separator : String) : List String → String
  | [] => ""
  | [text] => text
  | text :: rest => text ++ separator ++ separated separator rest

/-- Takes a text apart at a mark; `part` holds the current part, last character first. -/
def partsFrom (mark : Char) (part : List Char) : List Char → List (List Char)
  | [] => [part.reverse]
  | c :: rest =>
    if c = mark then part.reverse :: partsFrom mark [] rest else partsFrom mark (c :: part) rest

/-- The parts of a text between the marks in it, one more than there are marks. -/
def parts (mark : Char) (text : List Char) : List (List Char) := partsFrom mark [] text

end CFrontend.Text
