import CFrontend.Lexer.Buffer
import CFrontend.Lexer.DoubleWord

/-!
The lexer on a buffer. Each class of lexemes is scanned by reading on from its first characters, as
far ahead as it takes to see where the lexeme ends; what does not belong to it is pushed back, the
last character first.
-/
namespace CFrontend.Buffer

/-- What scanning a lexeme gives, and the buffer behind it. -/
abbrev Scan := Except LexCause Payload × Buffer

/-! ### Gaps -/

/-- Skips the rest of a line comment. -/
def skipLine (buffer : Buffer) : Buffer :=
  match _read : buffer.next with
  | (some c,after) => if c.char = '\n' then after else skipLine after
  | (none,after) => after
termination_by buffer.size
decreasing_by
  have := size_next _read
  omega

/-- Skips the rest of a block comment and tells whether it was closed; `star` tells whether the
    character before was a star. -/
def skipBlock (star : Bool) (buffer : Buffer) : Bool × Buffer :=
  match _read : buffer.next with
  | (some c,after) =>
    if star && c.char = '/' then (true,after) else skipBlock (c.char = '*') after
  | (none,after) => (false,after)
termination_by buffer.size
decreasing_by
  have := size_next _read
  omega

theorem size_skipLine (buffer : Buffer) : buffer.skipLine.size ≤ buffer.size := by
  fun_induction skipLine buffer with
  | case1 buffer c after read _ => exact Nat.le_of_succ_le (Nat.le_of_eq (size_next read))
  | case2 buffer c after read _ ih => exact Nat.le_trans ih (by have := size_next read; omega)
  | case3 buffer after read => exact Nat.le_of_eq (size_next_none read)

theorem size_skipBlock (star : Bool) (buffer : Buffer) : (buffer.skipBlock star).2.size ≤ buffer.size := by
  fun_induction skipBlock star buffer with
  | case1 star buffer c after read _ => exact Nat.le_of_succ_le (Nat.le_of_eq (size_next read))
  | case2 star buffer c after read _ ih => exact Nat.le_trans ih (by have := size_next read; omega)
  | case3 star buffer after read => exact Nat.le_of_eq (size_next_none read)

/-- Skips blanks and comments. The place of a comment that never ends is given. -/
def skipGap (buffer : Buffer) : Option Position × Buffer :=
  match _first : buffer.next with
  | (none,after) => (none,after)
  | (some c,after) =>
    if isBlank c.char then skipGap after
    else if c.char = '/' then
      match _second : after.next with
      | (none,later) => (none,later.back c)
      | (some d,later) =>
        if d.char = '/' then skipGap later.skipLine
        else if d.char = '*' then
          match _closed : later.skipBlock false with
          | (true,last) => skipGap last
          | (false,last) => (some c.pos,last)
        else (none,(later.back d).back c)
    else (none,after.back c)
termination_by buffer.size
decreasing_by
  · have := size_next _first
    omega
  · have := size_next _first
    have := size_next _second
    have := size_skipLine later
    omega
  · have := size_next _first
    have := size_next _second
    have : last.size ≤ later.size := by simpa [_closed] using size_skipBlock false later
    omega

/-! ### Fixed spellings -/

/-- Whether a spelling starts with a text. -/
def startsSpelling (text : List Char) : Bool :=
  Spelling.all.any fun spelling => text.isPrefixOf spelling.text

/-- Reads on as long as a spelling starts with what was read. -/
def readSpelling (read : List PlacedChar) (buffer : Buffer) : List PlacedChar × Buffer :=
  match _read : buffer.next with
  | (none,after) => (read,after)
  | (some c,after) =>
    if startsSpelling ((read ++ [c]).map (·.char)) then readSpelling (read ++ [c]) after
    else (read,after.back c)
termination_by buffer.size
decreasing_by
  have := size_next _read
  omega

/-- The character behind a word, which is among those that were read or has to be looked up. What
    follows other spellings does not matter. -/
def follow (word : Bool) (behind : Option PlacedChar) (buffer : Buffer) : Option Char × Buffer :=
  if !word then (none,buffer)
  else match behind with
    | some c => (some c.char,buffer)
    | none => buffer.peek

/-- The longest spelling among the first `count` characters that were read. What was read behind it
    is pushed back. A word is left to an identifier if one goes on behind it. -/
def chooseSpelling (read : List PlacedChar) : (count : Nat) → Buffer → Option TokenKind × Buffer
  | 0, buffer => (none,buffer.backAll read)
  | count + 1, buffer =>
    let text := (read.take (count + 1)).map (·.char)
    match Spelling.all.find? (·.text == text) with
    | none => chooseSpelling read count buffer
    | some spelling =>
      let (next,buffer) := follow spelling.isWord read[count + 1]? buffer
      if next.any isIdentifierChar then chooseSpelling read count buffer
      else (some spelling.kind,buffer.backAll (read.drop (count + 1)))

/-- Scans a fixed spelling, if there is one. -/
def scanSpelling (buffer : Buffer) : Option TokenKind × Buffer :=
  let (read,buffer) := buffer.readSpelling []
  chooseSpelling read read.length buffer

/-! ### Numbers -/

/-- The letters of an integer suffix, and the letter behind them if one is there that does not
    belong to it. Such a letter is not pushed back. -/
def readSuffix (buffer : Buffer) : List Char × Option Char × Buffer :=
  match _read : buffer.next with
  | (none,after) => ([],none,after)
  | (some c,after) =>
    if isSuffixLetter c.char then
      let (letters,stray,last) := readSuffix after
      (c.char :: letters,stray,last)
    else if Text.isLetter c.char then ([],some c.char,after)
    else ([],none,after.back c)
termination_by buffer.size
decreasing_by
  have := size_next _read
  omega

theorem toNat_pos_of_integer? {width : Int} {signed : Bool} {type : NumberType}
    (found : NumberType.integer? width signed = some type) : 0 < width.toNat := by
  unfold NumberType.integer? at found
  split at found <;> first | decide | simp at found

/-- The integer with a value and the letters of its suffix. -/
def suffixed (value : DoubleWord) (letters : List Char) : Except LexCause Payload :=
  let width := (suffixWidth letters).toInt
  let signed := suffixSigned letters
  match found : NumberType.integer? width signed with
  | none => .error (.invalidSize width)
  | some _ =>
    let (width,signed) := value.promoted width.toNat (toNat_pos_of_integer? found) signed
    let type := (NumberType.integer? width signed).getD .int
    .ok { kind := .number,number := .integer type value.toNat }

/-- Scans the suffix of an integer with a value. -/
def scanSuffix (value : DoubleWord) (buffer : Buffer) : Scan :=
  match buffer.readSuffix with
  | (letters,some stray,after) =>
    (.error (.invalidLiteral (Text.encode (letters ++ [stray]))),after)
  | (letters,none,after) => (suffixed value letters,after)

/-- Reads the digits below `run` behind those with a value in a radix, and gives the value of them
    all unless it is too large. Where `run` is above the radix, digits are read that the radix lacks. -/
def readDigits (radix run : Nat) (value : Option DoubleWord) (buffer : Buffer) :
    List Char × Option DoubleWord × Buffer :=
  match _read : buffer.next with
  | (none,after) => ([],value,after)
  | (some c,after) => match (digitValue? c.char).filter (· < run) with
    | none => ([],value,after.back c)
    | some digit =>
      let (others,total,last) :=
        readDigits radix run (value.bind (·.mulAdd? (UInt64.ofNat radix) (UInt64.ofNat digit))) after
      (c.char :: others,total,last)
termination_by buffer.size
decreasing_by
  have := size_next _read
  omega

/-- Scans the suffix of an integer behind its text, unless its value is too large. -/
def scanTotal (text : List Char) (total : Option DoubleWord) (buffer : Buffer) : Scan :=
  match total with
  | none => (.error (.largeNumber (Text.encode text)),buffer)
  | some value => buffer.scanSuffix value

/-- Scans an integer behind a radix mark. -/
def scanRadix (radix : Nat) (mark : List Char) (buffer : Buffer) : Scan :=
  let (digits,total,after) := buffer.readDigits radix radix (some .zero)
  if digits.isEmpty then (.error (.emptyNumber (Text.encode mark)),after)
  else after.scanTotal (mark ++ digits) total

/-- Whether a floating literal goes on here behind its integer part. Nothing is read. -/
def floatAhead (buffer : Buffer) : Bool × Buffer :=
  match buffer.next with
  | (none,after) => (false,after)
  | (some c,after) =>
    if c.char = '.' then
      let (follow,later) := after.peek
      (follow.any isDecimalDigit,later.back c)
    else if c.char = 'e' || c.char = 'E' then
      let (follow,later) := after.peek
      (follow.any fun d => isDecimalDigit d || d = '+' || d = '-',later.back c)
    else (false,after.back c)

/-- Reads a period and the digits behind it, if there is a period. -/
def readFraction (buffer : Buffer) : Option (List Char) × Buffer :=
  match buffer.next with
  | (none,after) => (none,after)
  | (some c,after) =>
    if c.char = '.' then
      let (digits,last) := after.readWhile isDecimalDigit
      (some digits,last)
    else (none,after.back c)

/-- Reads a sign, if there is one. -/
def readSign (buffer : Buffer) : List Char × Buffer :=
  match buffer.next with
  | (none,after) => ([],after)
  | (some c,after) => if c.char = '+' || c.char = '-' then ([c.char],after) else ([],after.back c)

/-- Reads an exponent mark, a sign and digits, if there is an exponent mark. -/
def readExponent (buffer : Buffer) : Option (List Char × List Char) × Buffer :=
  match buffer.next with
  | (none,after) => (none,after)
  | (some c,after) =>
    if c.char = 'e' || c.char = 'E' then
      let (sign,later) := after.readSign
      let (digits,last) := later.readWhile isDecimalDigit
      (some (sign,digits),last)
    else (none,after.back c)

/-- The floating number of a type that a decimal denotes. -/
def floating (decimal : DecimalText) (type : NumberType) : Except LexCause Payload :=
  match decimal.value? with
  | none => .error (.largeNumber (Text.encode decimal.chars))
  | some value =>
    let number := Number.floating type (if type = .float then value.toSingle else value)
    .ok { kind := .number,number := number }

/-- Scans a floating literal behind its integer part. -/
def scanFloat (whole : List Char) (buffer : Buffer) : Scan :=
  let (fraction,buffer) := buffer.readFraction
  let (exponent,buffer) := buffer.readExponent
  let decimal : DecimalText := ⟨whole,fraction,exponent⟩
  if decimal.isBroken then (.error (.invalidLiteral (Text.encode decimal.chars)),buffer)
  else match buffer.next with
    | (none,after) => (floating decimal .double,after)
    | (some c,after) =>
      if c.char = 'f' || c.char = 'F' then (floating decimal .float,after)
      else if c.char = 'l' || c.char = 'L' then (floating decimal .double,after)
      else if Text.isLetter c.char then
        (.error (.invalidLiteral (Text.encode (decimal.chars ++ [c.char]))),after)
      else (floating decimal .double,after.back c)

/-- The integer zero. -/
def zero : Except LexCause Payload := .ok { kind := .number,number := .integer .int 0 }

/-- Scans what goes on behind a zero. -/
def scanZero (buffer : Buffer) : Scan :=
  match buffer.next with
  | (none,after) => (zero,after)
  | (some c,after) =>
    if c.char = 'b' || c.char = 'B' then after.scanRadix 2 ['0',c.char]
    else if c.char = 'o' || c.char = 'O' then after.scanRadix 8 ['0',c.char]
    else if c.char = 'x' || c.char = 'X' then after.scanRadix 16 ['0',c.char]
    else if isSuffixLetter c.char then (after.back c).scanSuffix .zero
    else
      let buffer := after.back c
      if isDecimalDigit c.char then
        let (digits,total,last) := buffer.readDigits 8 10 (some .zero)
        -- With an eight or a nine among them the digits have no value.
        let total := if digits.any fun d => d = '8' || d = '9' then none else total
        last.scanTotal ('0' :: digits) total
      else
        let (float,last) := buffer.floatAhead
        if float then last.scanFloat ['0'] else (zero,last)

/-- Scans a number that starts with a digit other than zero. -/
def scanDecimal (buffer : Buffer) : Scan :=
  let (digits,total,after) := buffer.readDigits 10 10 (some .zero)
  let (float,last) := after.floatAhead
  if float then last.scanFloat digits
  else last.scanTotal digits total

/-! ### Quoted lexemes and identifiers -/

/-- Scans an escape of `count` digits behind its mark. -/
def scanDigits (mark : List Char) (count radix : Nat) (buffer : Buffer) :
    Except LexCause Nat × Buffer :=
  match readCount [] count buffer with
  | (none,after) => (.error (.unfinishedEscape (Text.encode ('\\' :: mark))),after)
  | (some digits,after) =>
    if digits.all (isDigitBelow radix) then (.ok (digitsValue radix digits),after)
    else (.error (.invalidEscape (Text.encode ('\\' :: mark ++ digits))),after)

/-- The value of an escape of one character. -/
def plainEscape? (c : Char) : Option Nat :=
  if c = 'a' then some 0x07
  else if c = 'b' then some 0x08
  else if c = 'f' then some 0x0c
  else if c = 'n' then some 0x0a
  else if c = 'r' then some 0x0d
  else if c = 't' then some 0x09
  else if c = 'v' then some 0x0b
  else if c = 'e' then some 0x1b
  else if c = '\\' || c = '\'' || c = '"' || c = '?' then some c.toNat
  else none

/-- Scans the escape behind a backslash. -/
def scanEscape (buffer : Buffer) : Except LexCause Nat × Buffer :=
  match buffer.next with
  | (none,after) => (.error (.unfinishedEscape (Text.encode ['\\'])),after)
  | (some c,after) => match plainEscape? c.char with
    | some value => (.ok value,after)
    | none =>
      if c.char = 'x' then after.scanDigits ['x'] 2 16
      else if c.char = 'u' then after.scanDigits ['u'] 4 16
      else if c.char = 'U' then after.scanDigits ['U'] 8 16
      else if isDecimalDigit c.char then (after.back c).scanDigits [] 4 10
      else (.error (.invalidEscape (Text.encode ['\\',c.char])),after)

/-- Ends a character literal with a value. -/
def scanQuote (value : Nat) (buffer : Buffer) : Scan :=
  let fragment := Text.encode ['\'',Text.charOfCode value]
  match buffer.next with
  | (none,after) => (.error (.unfinished fragment),after)
  | (some c,after) =>
    if c.char = '\'' then
      (.ok { kind := .number,number := .integer .unsignedInt value },after)
    else (.error (.invalidLiteral fragment),after.back c)

/-- Scans a character literal behind its opening quote. -/
def scanCharacter (buffer : Buffer) : Scan :=
  match buffer.next with
  | (none,after) => (.error (.unfinished (Text.encode ['\''])),after)
  | (some c,after) =>
    if c.char = '\'' then (.error (.invalidLiteral (Text.encode ['\'','\''])),after)
    else if c.char = '\\' then
      match after.scanEscape with
      | (.error cause,last) => (.error cause,last)
      | (.ok value,last) => last.scanQuote value
    else after.scanQuote c.char.toNat

theorem size_foldl_back (read : List PlacedChar) (buffer : Buffer) :
    (read.foldl back buffer).size = buffer.size + read.length := by
  induction read generalizing buffer with
  | nil => rfl
  | cons c read ih =>
    rw [List.foldl_cons,ih,size_back,List.length_cons]
    omega

theorem size_readCount (count : Nat) (read : List PlacedChar) (buffer : Buffer) :
    (readCount read count buffer).2.size ≤ buffer.size + read.length := by
  induction count generalizing read buffer with
  | zero => simp [readCount]
  | succ count ih =>
    rw [readCount]
    split
    · rename_i c after next
      have rest := ih (read ++ [c]) after
      have := size_next next
      simp only [List.length_append,List.length_singleton] at rest
      omega
    · rename_i after next
      have := size_next_none next
      simp only [backAll,size_foldl_back,List.length_reverse]
      omega

theorem size_scanDigits (mark : List Char) (count radix : Nat) (buffer : Buffer) :
    (scanDigits mark count radix buffer).2.size ≤ buffer.size := by
  have read := size_readCount count [] buffer
  unfold scanDigits
  split
  · rename_i after found
    simpa [found] using read
  · rename_i digits after found
    rw [found] at read
    split
    · simpa using read
    · simpa using read

theorem size_scanEscape (buffer : Buffer) : buffer.scanEscape.2.size ≤ buffer.size := by
  unfold scanEscape
  split
  · rename_i after read
    exact Nat.le_of_eq (size_next_none read)
  · rename_i c after read
    have fewer := size_next read
    have digits := fun mark count radix => size_scanDigits mark count radix after
    have again := size_scanDigits [] 4 10 (after.back c)
    rw [size_back] at again
    split
    · exact Nat.le_of_succ_le (Nat.le_of_eq fewer)
    · split
      · exact Nat.le_trans (digits _ _ _) (by omega)
      · split
        · exact Nat.le_trans (digits _ _ _) (by omega)
        · split
          · exact Nat.le_trans (digits _ _ _) (by omega)
          · split
            · omega
            · exact Nat.le_of_succ_le (Nat.le_of_eq fewer)

/-- Scans a string literal; `decoded` holds its bytes so far, last one first. -/
def scanString (decoded : List UInt8) (buffer : Buffer) : Scan :=
  match _read : buffer.next with
  | (none,after) => (.error (.unclosedString (Text.collapse decoded.reverse)),after)
  | (some c,after) =>
    if c.char = '\n' then (.error (.unclosedString (Text.collapse decoded.reverse)),after)
    else if c.char = '"' then (.ok { kind := .string,literal := decoded.reverse },after)
    else if c.char = '\\' then
      match _escape : after.scanEscape with
      | (.error cause,last) => (.error cause,last)
      | (.ok value,last) => scanString ((escapeBytes value).reverse ++ decoded) last
    else scanString ((Text.encode [c.char]).reverse ++ decoded) after
termination_by buffer.size
decreasing_by
  · have := size_next _read
    have : last.size ≤ after.size := by simpa [_escape] using size_scanEscape after
    omega
  · have := size_next _read
    omega

/-- Scans an identifier that starts with a character. -/
def scanIdentifier (first : Char) (buffer : Buffer) : Scan :=
  if isIdentifierChar first then
    let (others,after) := buffer.readWhile isIdentifierChar
    (.ok { kind := .identifier,literal := Text.encode (first :: others) },after)
  else (.error (.invalidCharacter first),buffer)

/-! ### Items -/

/-- Scans the lexeme here, which is not the end of the text. -/
def scanLexeme (buffer : Buffer) : Scan :=
  match buffer.scanSpelling with
  | (some kind,after) => (.ok { kind := kind },after)
  | (none,buffer) => match buffer.next with
    | (none,after) => after.scanIdentifier '\x00'
    | (some c,after) =>
      if c.char = '"' then scanString [] after
      else if c.char = '0' then after.scanZero
      else if isDecimalDigit c.char then (after.back c).scanDecimal
      else if c.char = '\'' then after.scanCharacter
      else after.scanIdentifier c.char

/-- The next item, or none at the end of the input, and the buffer behind it. -/
def nextItem (buffer : Buffer) : Option Item × Buffer :=
  match buffer.skipGap with
  | (some pos,after) =>
    (some (.error { cause := .unfinished (Text.encode ['/','*']),pos := pos }),after)
  | (none,buffer) => match buffer.next with
    | (some c,after) => match (after.back c).scanLexeme with
      | (.ok payload,last) => (some (.token { toPayload := payload,pos := c.pos }),last)
      | (.error cause,last) => (some (.error { cause := cause,pos := c.pos }),last)
    | (none,after) => match after.failure with
      | some message => (some (.failure message),{ after with failure := none })
      | none => (none,after)

/-- At most `count` items and the buffer behind them. A failure is the last one. -/
def takeItems : (count : Nat) → Buffer → List Item × Buffer
  | 0, buffer => ([],buffer)
  | count + 1, buffer =>
    match buffer.nextItem with
    | (none,after) => ([],after)
    | (some (.failure message),after) => ([.failure message],after)
    | (some item,after) =>
      let (items,last) := takeItems count after
      (item :: items,last)

/-- All items and the buffer behind them. -/
def items (buffer : Buffer) : List Item × Buffer := buffer.takeItems (buffer.size + 1)

end CFrontend.Buffer
