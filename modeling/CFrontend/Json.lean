import CFrontend.Text.Quoted

/-!
JSON values and their indented text. Characters that have a meaning in markup are escaped, so the
text can stand inside it.
-/
namespace CFrontend

/-- A JSON value. Texts are byte texts; a member of an object has a name. -/
inductive Json where
  | text (bytes : List UInt8)
  | integer (value : Int)
  | array (items : List Json)
  | object (members : List (String × Json))
deriving Repr, Inhabited

namespace Json

/-- A character inside a JSON string. -/
def escapedChar (c : Char) : List Char :=
  match c.toNat with
  | 0x08 => ['\\','b']
  | 0x09 => ['\\','t']
  | 0x0a => ['\\','n']
  | 0x0c => ['\\','f']
  | 0x0d => ['\\','r']
  | n =>
    if c = '"' || c = '\\' then ['\\',c]
    else if n < 0x20 || c = '<' || c = '>' || c = '&' || n = 0x2028 || n = 0x2029 then
      '\\' :: 'u' :: Text.hexDigits 4 n
    else [c]

/-- A fragment inside a JSON string; a stray byte is the escaped replacement character. -/
def escapedFragment : Text.Fragment → List Char
  | .char c => escapedChar c
  | .stray _ => '\\' :: 'u' :: Text.hexDigits 4 Text.replacement.toNat

/-- A byte text as a JSON string. -/
def string (bytes : List UInt8) : String :=
  String.ofList ('"' :: (Text.fragments bytes).flatMap escapedFragment ++ ['"'])

/-- The start of a line at a depth, two blanks for each level. -/
def newline (depth : Nat) : String := String.ofList ('\n' :: List.replicate (2 * depth) ' ')

mutual

/-- The pieces of a value at a depth. -/
def write (depth : Nat) : Json → List String
  | .text bytes => [string bytes]
  | .integer value => [toString value]
  | .array [] => ["[]"]
  | .array (item :: rest) =>
    "[" :: newline (depth + 1) :: write (depth + 1) item ++ writeItems (depth + 1) rest ++
      [newline depth,"]"]
  | .object [] => ["\x7b\x7d"]
  | .object (member :: rest) =>
    "\x7b" :: newline (depth + 1) :: writeMember (depth + 1) member ++
      writeMembers (depth + 1) rest ++ [newline depth,"\x7d"]

/-- The items after the first. -/
def writeItems (depth : Nat) : List Json → List String
  | [] => []
  | item :: rest => "," :: newline depth :: write depth item ++ writeItems depth rest

/-- A member of an object. -/
def writeMember (depth : Nat) : String × Json → List String
  | (name,value) => string (Text.bytesOf name) :: ": " :: write depth value

/-- The members after the first. -/
def writeMembers (depth : Nat) : List (String × Json) → List String
  | [] => []
  | member :: rest => "," :: newline depth :: writeMember depth member ++ writeMembers depth rest

end

/-- The indented text of a document. -/
def pretty (value : Json) : String := String.join (write 0 value)

end Json

end CFrontend
