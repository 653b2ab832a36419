import CFrontend.Lexer.Numeric

/-!
Escape sequences, character literals and string literals.
-/
namespace CFrontend

/-- A decoded escape sequence and the number of its characters after the backslash. -/
structure Escape where
  outcome : Except LexCause Nat
  length : Nat

namespace Escape

/-- Reads an escape of `count` digits after its mark. With too few characters left only the mark is
    covered. -/
def numeric (mark : List Char) (count radix : Nat) (rest : List Char) : Escape :=
  let digits := rest.take count
  if digits.length < count then
    ⟨.error (.unfinishedEscape (Text.encode ('\\' :: mark))),mark.length⟩
  else if digits.all (isDigitBelow radix) then
    ⟨.ok (digitsValue radix digits),mark.length + count⟩
  else ⟨.error (.invalidEscape (Text.encode ('\\' :: mark ++ digits))),mark.length + count⟩

/-- Reads the escape after a backslash. -/
def read : List Char → Escape
  | [] => ⟨.error (.unfinishedEscape (Text.encode ['\\'])),0⟩
  | 'a' :: _ => ⟨.ok 0x07,1⟩
  | 'b' :: _ => ⟨.ok 0x08,1⟩
  | 'f' :: _ => ⟨.ok 0x0c,1⟩
  | 'n' :: _ => ⟨.ok 0x0a,1⟩
  | 'r' :: _ => ⟨.ok 0x0d,1⟩
  | 't' :: _ => ⟨.ok 0x09,1⟩
  | 'v' :: _ => ⟨.ok 0x0b,1⟩
  | 'e' :: _ => ⟨.ok 0x1b,1⟩
  | 'x' :: rest => numeric ['x'] 2 16 rest
  | 'u' :: rest => numeric ['u'] 4 16 rest
  | 'U' :: rest => numeric ['U'] 8 16 rest
  | c :: rest =>
    if c = '\\' || c = '\'' || c = '"' || c = '?' then ⟨.ok c.toNat,1⟩
    else if isDecimalDigit c then numeric [] 4 10 (c :: rest)
    else ⟨.error (.invalidEscape (Text.encode ['\\',c])),1⟩

end Escape

/-- Ends a character literal with a value, of which `length` characters are behind. -/
def closeCharacter (value length : Nat) (rest : List Char) : Lexeme :=
  let fragment := Text.encode ['\'',Text.charOfCode value]
  match rest with
  | [] => .failure (.unfinished fragment) length
  | c :: _ =>
    if c = '\'' then .number (.integer .unsignedInt value) (length + 1)
    else .failure (.invalidLiteral fragment) length

/-- Reads a character literal after its opening quote. -/
def characterLexeme : List Char → Lexeme
  | [] => .failure (.unfinished (Text.encode ['\''])) 1
  | c :: rest =>
    if c = '\'' then .failure (.invalidLiteral (Text.encode ['\'','\''])) 2
    else if c = '\\' then
      let escape := Escape.read rest
      match escape.outcome with
      | .error cause => .failure cause (2 + escape.length)
      | .ok value => closeCharacter value (2 + escape.length) (rest.drop escape.length)
    else closeCharacter c.toNat 2 rest

/-- The bytes that an escape puts into a string: the character with that code point, or the low
    byte where there is none. -/
def escapeBytes (value : Nat) : List UInt8 :=
  match Text.scalar? value with
  | some c => Text.encode [c]
  | none => [UInt8.ofNat value]

/-- Reads a string literal of which `length` characters are behind; `decoded` holds its bytes so
    far, last one first. -/
def stringFrom (decoded : List UInt8) (length : Nat) : List Char → Lexeme
  | [] => .failure (.unclosedString (Text.collapse decoded.reverse)) length
  | c :: rest =>
    if c = '\n' then .failure (.unclosedString (Text.collapse decoded.reverse)) (length + 1)
    else if c = '"' then .payload { kind := .string,literal := decoded.reverse } (length + 1)
    else if c = '\\' then
      let escape := Escape.read rest
      match escape.outcome with
      | .error cause => .failure cause (length + 1 + escape.length)
      | .ok value =>
        stringFrom ((escapeBytes value).reverse ++ decoded) (length + 1 + escape.length)
          (rest.drop escape.length)
    else stringFrom ((Text.encode [c]).reverse ++ decoded) (length + 1) rest
termination_by source => source.length
decreasing_by all_goals simp only [List.length_cons,List.length_drop]; omega

/-- Reads a string literal after its opening quote. -/
def stringLexeme (rest : List Char) : Lexeme := stringFrom [] 1 rest

/-- Reads the lexeme at the start of a text. Fixed spellings come before every other class. -/
def Lexeme.read (first : Char) (rest : List Char) : Lexeme :=
  match Spelling.longest? (first :: rest) with
  | some spelling => .payload { kind := spelling.kind } spelling.text.length
  | none =>
    if first = '"' then stringLexeme rest
    else if first = '0' then zeroLexeme rest
    else if isDecimalDigit first then decimalLexeme (first :: rest)
    else if first = '\'' then characterLexeme rest
    else identifierLexeme first rest

end CFrontend
