import CFrontend.Number
import CFrontend.Text.Quoted
import CFrontend.Token.Kind

/-!
A token is a kind, what it carries, and the place of its first character.
-/
namespace CFrontend

/-- A line and a column, both counted from one, the column in characters. -/
structure Position where
  line : Int
  column : Int
deriving DecidableEq, Repr

namespace Position

/-- The place of the first character of a text. -/
def origin : Position := ⟨1,1⟩

instance : Inhabited Position := ⟨origin⟩

/-- The place after a character. -/
def after (pos : Position) (c : Char) : Position :=
  if c = '\n' then ⟨pos.line + 1,1⟩ else ⟨pos.line,pos.column + 1⟩

/-- The place after several characters. -/
def advance (pos : Position) (cs : List Char) : Position := cs.foldl after pos

def text (pos : Position) : String := toString pos.line ++ ":" ++ toString pos.column

/-- The place as messages start with it. -/
def label (pos : Position) : String :=
  "line " ++ toString pos.line ++ ", col " ++ toString pos.column ++ ": "

end Position

/-- What a token is apart from its place. The literal is the text of an identifier or the decoded
    bytes of a string. -/
structure Payload where
  kind : TokenKind
  literal : List UInt8 := []
  number : Number := {}
deriving DecidableEq, Repr, Inhabited

/-- A token. -/
structure Token extends Payload where
  pos : Position
deriving DecidableEq, Repr, Inhabited

namespace Token

/-- The token as messages show it. -/
def text (token : Token) : String :=
  match token.kind with
  | .identifier => Text.display token.literal
  | .string => Text.quoteBytes token.literal
  | .number => token.number.text
  | kind => kind.name

/-- The token as a leaf of a tree. -/
def leafText (token : Token) : String :=
  match token.kind with
  | .identifier => Text.display token.literal
  | .string => Text.quoteBytes token.literal
  | .number => token.number.valueText
  | kind => kind.name

/-- The same as bytes; an identifier keeps its own. -/
def leafBytes (token : Token) : List UInt8 :=
  if token.kind = .identifier then token.literal else Text.bytesOf token.leafText

/-- Equality of all parts, floating values by their numeric meaning. -/
def same (a b : Token) : Bool :=
  a.kind == b.kind && a.pos == b.pos && a.literal == b.literal && a.number.same b.number

end Token

end CFrontend
