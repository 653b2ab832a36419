import CFrontend.Lexer.Gap
import CFrontend.Lexer.Quotation

/-!
A lexer is a place in a source text. Each step skips a gap, reads one lexeme and moves past it,
also when the lexeme is an error. A source may fail to deliver what follows its characters; the
failure is reported once, after everything before it.
-/
namespace CFrontend

/-- A source text and what stands behind its last character. -/
structure Source where
  chars : List Char
  /-- The failure to read on, if the text does not simply end. -/
  failure : Option String := none
deriving Repr

namespace Source

def ofString (text : String) : Source := ⟨text.toList,none⟩

/-- The source that delivers `count` characters of a text and then fails. A text with fewer
    characters ends before that. -/
def failingAfter (chars : List Char) (count : Nat) (failure : String) : Source :=
  if count ≤ chars.length then ⟨chars.take count,some failure⟩ else ⟨chars,none⟩

end Source

/-- What reading a source gives, apart from its end. -/
inductive Item where
  | token (token : Token)
  | error (error : LexError)
  /-- The source could not be read any further. -/
  | failure (message : String)
deriving DecidableEq, Repr

/-- A place in a source text. -/
structure Lexer where
  /-- The characters from here on. -/
  rest : List Char
  pos : Position
  /-- The failure behind the last character, until it is reported. -/
  failure : Option String

namespace Lexer

/-- The lexer at the start of a source. -/
def start (source : Source) : Lexer := ⟨source.chars,.origin,source.failure⟩

/-- Moves past some characters. -/
def skip (lexer : Lexer) (count : Nat) : Lexer :=
  { lexer with rest := lexer.rest.drop count,pos := lexer.pos.advance (lexer.rest.take count) }

/-- Reads the lexeme here, which is not the end of the text. -/
def readLexeme (lexer : Lexer) (first : Char) (rest : List Char) : Item × Lexer :=
  let lexeme := Lexeme.read first rest
  let item := match lexeme.outcome with
    | .ok payload => Item.token { toPayload := payload,pos := lexer.pos }
    | .error cause => Item.error { cause := cause,pos := lexer.pos }
  (item,lexer.skip lexeme.length)

/-- The next item, or none at the end of the input, and the place after it. -/
def next (lexer : Lexer) : Option Item × Lexer :=
  let gap := Gap.measure lexer.rest
  let lexer := lexer.skip gap.length
  if gap.unclosed then
    let cause := LexCause.unfinished (Text.encode ['/','*'])
    (some (.error { cause := cause,pos := lexer.pos }),lexer.skip lexer.rest.length)
  else match lexer.rest with
    | first :: rest =>
      let (item,lexer) := lexer.readLexeme first rest
      (some item,lexer)
    | [] => match lexer.failure with
      | some message => (some (.failure message),{ lexer with failure := none })
      | none => (none,lexer)

/-- At most `count` items and the place after them. A failure is the last one. -/
def take : (count : Nat) → Lexer → List Item × Lexer
  | 0, lexer => ([],lexer)
  | count + 1, lexer =>
    match lexer.next with
    | (none,lexer) => ([],lexer)
    | (some (.failure message),lexer) => ([.failure message],lexer)
    | (some item,lexer) =>
      let (items,lexer) := take count lexer
      (item :: items,lexer)

/-- All items and the place after them. Every item but a failure covers a character, so there are
    no more than characters and a failure. -/
def all (lexer : Lexer) : List Item × Lexer := lexer.take (lexer.rest.length + 1)

end Lexer

/-- The tokens before the first item that is none, and that item. -/
def Item.tokens : List Item → List Token × Option Item
  | [] => ([],none)
  | .token first :: rest =>
    let (others,stop) := Item.tokens rest
    (first :: others,stop)
  | item :: _ => ([],some item)

/-- The tokens of a text, and the error that stopped reading, if any. -/
def tokenize (chars : List Char) : List Token × Option Item :=
  Item.tokens (Lexer.start ⟨chars,none⟩).all.1

end CFrontend
