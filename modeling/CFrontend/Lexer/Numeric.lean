import CFrontend.Binary64.DecimalText
import CFrontend.Lexer.Lexeme
import CFrontend.Text.Letter

/-!
Integer literals in four radices with their suffixes, and floating literals.
-/
namespace CFrontend

/-- The first number that no integer literal denotes. -/
def integerBound : Nat := Nat.pow 2 128

/-- Whether a letter belongs to an integer suffix. -/
def isSuffixLetter (c : Char) : Bool := c = 'u' || c = 'U' || c = 'l' || c = 'L'

/-- The width that a suffix asks for: each `l` doubles it, in 64-bit arithmetic. -/
def suffixWidth (letters : List Char) : Int64 :=
  letters.foldl (fun width c => if c = 'l' || c = 'L' then width * 2 else width) 32

/-- Whether a suffix leaves the type signed. -/
def suffixSigned (letters : List Char) : Bool := !letters.any fun c => c = 'u' || c = 'U'

/-- Whether a value is representable in a width. -/
def fits (value width : Nat) (signed : Bool) : Bool :=
  value < Nat.pow 2 (if signed then width - 1 else width)

/-- The narrowest type from a width on, doubling it, that represents a value; a signed value that
    is too large for 128 bits becomes unsigned. -/
def narrowestType (value : Nat) (width : Int) (signed : Bool) : NumberType :=
  let widths := [32,64,128].filter fun (w : Nat) => width ≤ w
  match widths.find? fun w => fits value w signed with
  | some w => (NumberType.integer? w signed).getD .unsignedLongLong
  | none => .unsignedLongLong

/-- Ends an integer literal of which `length` characters are behind: reads its suffix and settles
    its type. -/
def suffixLexeme (value length : Nat) (rest : List Char) : Lexeme :=
  let letters := rest.takeWhile isSuffixLetter
  match (rest.drop letters.length).head?.filter Text.isLetter with
  | some stray =>
    .failure (.invalidLiteral (Text.encode (letters ++ [stray]))) (length + letters.length + 1)
  | none =>
    let width := (suffixWidth letters).toInt
    let signed := suffixSigned letters
    match NumberType.integer? width signed with
    | none => .failure (.invalidSize width) (length + letters.length)
    | some _ =>
      .number (.integer (narrowestType value width signed) value) (length + letters.length)

/-- Reads an integer literal after a radix mark. -/
def radixLexeme (radix : Nat) (mark : List Char) (rest : List Char) : Lexeme :=
  let digits := rest.takeWhile (isDigitBelow radix)
  let value := digitsValue radix digits
  let length := mark.length + digits.length
  if digits.isEmpty then .failure (.emptyNumber (Text.encode mark)) length
  else if integerBound ≤ value then .failure (.largeNumber (Text.encode (mark ++ digits))) length
  else suffixLexeme value length (rest.drop digits.length)

/-- Whether a text goes on from an integer part into a floating literal: a period and a digit, or
    an exponent mark and a digit or a sign. -/
def floatFollows : List Char → Bool
  | '.' :: c :: _ => isDecimalDigit c
  | 'e' :: c :: _ | 'E' :: c :: _ => isDecimalDigit c || c = '+' || c = '-'
  | _ => false

/-- Reads a floating literal from its integer part on. -/
def floatLexeme (whole rest : List Char) : Lexeme :=
  let decimal := DecimalText.goingOn whole rest
  let text := decimal.chars
  let length := text.length
  let after := rest.drop (length - whole.length)
  if decimal.isBroken then .failure (.invalidLiteral (Text.encode text)) length
  else
    let finish (type : NumberType) (length : Nat) : Lexeme :=
      match decimal.value? with
      | none => .failure (.largeNumber (Text.encode text)) length
      | some value =>
        .number (.floating type (if type = .float then value.toSingle else value)) length
    match after with
    | c :: _ =>
      if c = 'f' || c = 'F' then finish .float (length + 1)
      else if c = 'l' || c = 'L' then finish .double (length + 1)
      else if Text.isLetter c then
        .failure (.invalidLiteral (Text.encode (text ++ [c]))) (length + 1)
      else finish .double length
    | [] => finish .double length

/-- Reads what starts with a zero: a radix mark, an octal literal, a floating literal or zero. An
    octal literal with a digit eight or nine has no value and counts as too large. -/
def zeroLexeme (rest : List Char) : Lexeme :=
  match rest with
  | [] => .number (.integer .int 0) 1
  | c :: tail =>
    if c = 'b' || c = 'B' then radixLexeme 2 ['0',c] tail
    else if c = 'o' || c = 'O' then radixLexeme 8 ['0',c] tail
    else if c = 'x' || c = 'X' then radixLexeme 16 ['0',c] tail
    else if isSuffixLetter c then suffixLexeme 0 1 rest
    else if isDecimalDigit c then
      let digits := rest.takeWhile isDecimalDigit
      let value := digitsValue 8 digits
      let length := digits.length + 1
      if integerBound ≤ value || digits.any fun d => d = '8' || d = '9' then
        .failure (.largeNumber (Text.encode ('0' :: digits))) length
      else suffixLexeme value length (rest.drop digits.length)
    else if floatFollows rest then floatLexeme ['0'] rest
    else .number (.integer .int 0) 1

/-- Reads a literal that starts with a digit other than zero. -/
def decimalLexeme (source : List Char) : Lexeme :=
  let digits := source.takeWhile isDecimalDigit
  let rest := source.drop digits.length
  let value := digitsValue 10 digits
  if floatFollows rest then floatLexeme digits rest
  else if integerBound ≤ value then .failure (.largeNumber (Text.encode digits)) digits.length
  else suffixLexeme value digits.length rest

end CFrontend
