import CFrontend.Lexer.Error

/-!
A lexeme is what one step of reading finds at the start of a text: a payload or the cause of an
error, and the number of characters it covers. Places play no part here.
-/
namespace CFrontend

/-- The result of one step of reading. -/
structure Lexeme where
  outcome : Except LexCause Payload
  length : Nat

namespace Lexeme

def payload (payload : Payload) (length : Nat) : Lexeme := ⟨.ok payload,length⟩

def number (number : Number) (length : Nat) : Lexeme :=
  ⟨.ok { kind := .number,number := number },length⟩

def failure (cause : LexCause) (length : Nat) : Lexeme := ⟨.error cause,length⟩

end Lexeme

/-- The characters that no identifier contains. -/
def separators : List Char := " \t\r\n+-*/%<>=!~^|&()[]\x7b\x7d;:,.?'\"\\#@`".toList

/-- Whether an identifier can contain a character. -/
def isIdentifierChar (c : Char) : Bool := !separators.contains c

namespace Spelling

/-- Whether a text starts with a spelling; a word must end where the identifier characters end. -/
def isAt (spelling : Spelling) (source : List Char) : Bool :=
  spelling.text.isPrefixOf source &&
    !(spelling.isWord && (source.drop spelling.text.length).head?.any isIdentifierChar)

/-- The longer of the best spelling so far and another one that a text starts with. -/
def longer (source : List Char) (best : Option Spelling) (spelling : Spelling) : Option Spelling :=
  if !spelling.isAt source then best
  else match best with
    | some other => if other.text.length < spelling.text.length then some spelling else best
    | none => some spelling

/-- The longest spelling that a text starts with. -/
def longest? (source : List Char) : Option Spelling := all.foldl (longer source) none

end Spelling

/-- Reads an identifier, or reports the first character if no identifier can start with it. -/
def identifierLexeme (first : Char) (rest : List Char) : Lexeme :=
  if isIdentifierChar first then
    let text := first :: rest.takeWhile isIdentifierChar
    .payload { kind := .identifier,literal := Text.encode text } text.length
  else .failure (.invalidCharacter first) 1

end CFrontend
