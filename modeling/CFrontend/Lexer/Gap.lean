/-!
Blanks and comments separate tokens and mean nothing else. A gap is measured in characters.
-/
namespace CFrontend

/-- The characters that only separate tokens. -/
def isBlank (c : Char) : Bool := c = ' ' || c = '\t' || c = '\r' || c = '\n'

/-- The text before the next token. -/
structure Gap where
  /-- The characters of the blanks and the finished comments. -/
  length : Nat
  /-- Whether a comment starts after them that never ends. -/
  unclosed : Bool
deriving DecidableEq, Repr

namespace Gap

/-- Where in a gap a character stands. -/
inductive Region where
  | between
  | lineComment
  /-- Inside a comment that was opened after `start` characters; `star` tells whether the character
      before was a star. -/
  | blockComment (start : Nat) (star : Bool)
deriving DecidableEq, Repr

/-- Measures a gap, of which `length` characters are behind. -/
def measureFrom : Region → (length : Nat) → List Char → Gap
  | .between, n, '/' :: '/' :: rest => measureFrom .lineComment (n + 2) rest
  | .between, n, '/' :: '*' :: rest => measureFrom (.blockComment n false) (n + 2) rest
  | .between, n, c :: rest => if isBlank c then measureFrom .between (n + 1) rest else ⟨n,false⟩
  | .between, n, [] => ⟨n,false⟩
  | .lineComment, n, c :: rest =>
    measureFrom (if c = '\n' then .between else .lineComment) (n + 1) rest
  | .lineComment, n, [] => ⟨n,false⟩
  | .blockComment start star, n, c :: rest =>
    if star && c = '/' then measureFrom .between (n + 1) rest
    else measureFrom (.blockComment start (c = '*')) (n + 1) rest
  | .blockComment start _, _, [] => ⟨start,true⟩

/-- The gap that a text starts with. -/
def measure (source : List Char) : Gap := measureFrom .between 0 source

end Gap

end CFrontend
