import CFrontend.Lexer.Basic
import CFrontend.Text.Separated
import CFrontend.Tree.Basic

/-!
Why a source has no tree, or no single one.
-/
namespace CFrontend

/-- Why parsing gives no tree. -/
inductive ParseError where
  /-- The source has a lexical error. -/
  | lexical (error : LexError)
  /-- The source cannot be read. -/
  | unreadable (message : String)
  /-- No derivation accepts a token. The kinds in its place come in order, and `canEnd` tells
      whether the input could have ended before it. -/
  | unexpected (token : Token) (expected : List TokenKind) (canEnd : Bool)
  /-- The input ends before any derivation does. -/
  | incomplete (pos : Position) (expected : List TokenKind)
  /-- More than one tree derives the input. -/
  | ambiguous (trees : List Tree)
  /-- The derivations at a place need more states than allowed. -/
  | stateLimit (limit : Nat) (pos : Position)

namespace ParseError

/-- What could have stood in a place, if there is anything. -/
def expectation (names : List String) : String :=
  if names.isEmpty then "" else ", expected " ++ Text.separated ", " names

/-- The place of the error, if it has one. -/
def position? : ParseError → Option Position
  | .lexical error => some error.pos
  | .unexpected token _ _ => some token.pos
  | .incomplete pos _ => some pos
  | .stateLimit _ pos => some pos
  | .unreadable _ | .ambiguous _ => none

/-- The error without its place. -/
def summary : ParseError → String
  | .lexical error => error.cause.message
  | .unreadable message => message
  | .unexpected token expected canEnd =>
    let names := expected.map TokenKind.name ++ if canEnd then ["end of input"] else []
    "unexpected " ++ token.text ++ expectation names
  | .incomplete _ expected =>
    "unexpected end of input" ++ expectation (expected.map TokenKind.name)
  | .ambiguous trees =>
    "ambiguous input: " ++ toString trees.length ++ " distinct parse trees"
  | .stateLimit limit _ => "more than " ++ toString limit ++ " parser states"

/-- The error with its place. -/
def message (error : ParseError) : String :=
  match error.position? with
  | some pos => pos.label ++ error.summary
  | none => error.summary

end ParseError

end CFrontend
