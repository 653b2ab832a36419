import CFrontend.Token.Basic

/-!
What can be wrong with a piece of source text, and how it is told.
-/
namespace CFrontend

/-- The cause of a lexical error, with the fragment, width or character it is about. -/
inductive LexCause where
  | unfinished (text : List UInt8)
  | unfinishedEscape (text : List UInt8)
  | unclosedString (text : List UInt8)
  | invalidEscape (text : List UInt8)
  | invalidLiteral (text : List UInt8)
  | invalidSize (bits : Int)
  | invalidCharacter (c : Char)
  | emptyNumber (text : List UInt8)
  | largeNumber (text : List UInt8)
  | unknown (text : List UInt8)
deriving DecidableEq, Repr

namespace LexCause

/-- The cause with a number, which takes of the three details the one that it is about. -/
def ofCode (code : Int) (text : List UInt8) (bits : Int) (c : Char) : LexCause :=
  match code with
  | 0 => .unfinished text
  | 1 => .unfinishedEscape text
  | 2 => .unclosedString text
  | 3 => .invalidEscape text
  | 4 => .invalidLiteral text
  | 5 => .invalidSize bits
  | 6 => .invalidCharacter c
  | 7 => .emptyNumber text
  | 8 => .largeNumber text
  | _ => .unknown text

def name : LexCause → String
  | .unfinished _ => "unfinished literal"
  | .unfinishedEscape _ => "unfinished escape sequence"
  | .unclosedString _ => "unclosed string literal"
  | .invalidEscape _ => "invalid escape sequence"
  | .invalidLiteral _ => "invalid literal"
  | .invalidSize _ => "invalid numeric size"
  | .invalidCharacter _ => "invalid character"
  | .emptyNumber _ => "empty numeric literal"
  | .largeNumber _ => "numeric literal too large"
  | .unknown _ => "unknown lex error"

/-- The fragment that the error is about, empty where it is about something else. -/
def text : LexCause → List UInt8
  | .unfinished text | .unfinishedEscape text | .unclosedString text | .invalidEscape text
  | .invalidLiteral text | .emptyNumber text | .largeNumber text | .unknown text => text
  | .invalidSize _ | .invalidCharacter _ => []

/-- The rejected width, zero where the error is about something else. -/
def size : LexCause → Int
  | .invalidSize bits => bits
  | _ => 0

/-- The offending character, where the error is about one. -/
def char? : LexCause → Option Char
  | .invalidCharacter c => some c
  | _ => none

/-- The error without its place. -/
def message (cause : LexCause) : String :=
  match cause with
  | .invalidSize bits => cause.name ++ ": " ++ toString bits ++ " bits long"
  | .invalidCharacter c => cause.name ++ ": " ++ Text.quoteChar c
  | _ =>
    if cause.text.isEmpty then cause.name else cause.name ++ ": " ++ Text.quoteBytes cause.text

end LexCause

/-- A lexical error at the place where the failing piece of text starts. -/
structure LexError where
  cause : LexCause
  pos : Position
deriving DecidableEq, Repr

/-- The error with its place. -/
def LexError.message (error : LexError) : String := error.pos.label ++ error.cause.message

end CFrontend
