import CFrontend.Text.Integer
import CFrontend.Text.Quoted

/-!
A text can be no TOML at all, it can hold a number or a day that does not exist, and it can define a
name twice.
-/
namespace CFrontend.Settings

/-- What is wrong with a number or a day. -/
inductive TomlValueFault where
  | startsWithUnderscore
  | endsWithUnderscore
  | bareUnderscore
  | underscoreBeforeExponent
  | underscoreAfterExponent
  | underscoreBeforePoint
  | underscoreAfterPoint
  | leadingZero
  /-- No integer; `radix` is the word for its digits. -/
  | notInteger (radix : String) (text : String) (fault : Text.IntegerFault)
  | startsWithPoint
  | endsWithPoint
  | secondPoint
  | noDigitBeforePoint
  | noDigitAfterPoint
  | leadingFloatZero
  | notFloat (text : String) (fault : Text.IntegerFault)
  | badDate
  | impossibleDate
  | notDigit
  | shortDateTime
  | badSeparator
  | badTime
  | badHour
  | noHourColon
  | badMinute
  | noMinuteColon
  | badSecond
  | noFraction
  | badZone
  | badZoneSign
  | noZoneColon
  | badZoneHour
  | badZoneMinute
  | extraAfterZone
  | extraAfterTime
  | extraAfterDateTime
deriving DecidableEq, Repr

def TomlValueFault.text : TomlValueFault → String
  | .startsWithUnderscore => "number cannot start with underscore"
  | .endsWithUnderscore => "number cannot end with underscore"
  | .bareUnderscore => "number must have at least one digit between underscores"
  | .underscoreBeforeExponent => "cannot have underscore before exponent"
  | .underscoreAfterExponent => "cannot have underscore after exponent"
  | .underscoreBeforePoint => "cannot have underscore before decimal point"
  | .underscoreAfterPoint => "cannot have underscore after decimal point"
  | .leadingZero => "leading zero not allowed on decimal number"
  | .notInteger radix text fault =>
    "couldn't parse " ++ radix ++ " number: strconv.ParseInt: parsing " ++ Text.quote text ++
      ": " ++ fault.message
  | .startsWithPoint => "float cannot start with a dot"
  | .endsWithPoint => "float cannot end with a dot"
  | .secondPoint => "float can have at most one decimal point"
  | .noDigitBeforePoint => "float decimal point must be preceded by a digit"
  | .noDigitAfterPoint => "float decimal point must be followed by a digit"
  | .leadingFloatZero => "float integer part cannot have leading zeroes"
  | .notFloat text fault =>
    "unable to parse float: strconv.ParseFloat: parsing " ++ Text.quote text ++ ": " ++
      fault.message
  | .badDate => "dates are expected to have the format YYYY-MM-DD"
  | .impossibleDate => "impossible date"
  | .notDigit => "expected digit (0-9)"
  | .shortDateTime =>
    "local datetimes are expected to have the format YYYY-MM-DDTHH:MM:SS[.NNNNNNNNN]"
  | .badSeparator => "datetime separator is expected to be T or a space"
  | .badTime => "times are expected to have the format HH:MM:SS[.NNNNNN]"
  | .badHour => "hour cannot be greater 23"
  | .noHourColon => "expecting colon between hours and minutes"
  | .badMinute => "minutes cannot be greater 59"
  | .noMinuteColon => "expecting colon between minutes and seconds"
  | .badSecond => "seconds cannot be greater 60"
  | .noFraction => "nanoseconds need at least one digit"
  | .badZone => "invalid date-time timezone"
  | .badZoneSign => "invalid timezone offset character"
  | .noZoneColon => "expected a : separator"
  | .badZoneHour => "invalid timezone offset hours"
  | .badZoneMinute => "invalid timezone offset minutes"
  | .extraAfterZone => "extra bytes at the end of the timezone"
  | .extraAfterTime => "extra characters at the end of a local time"
  | .extraAfterDateTime => "extra characters at the end of a local date time"

/-- Why a TOML text has no settings. Characters are given by their first bytes. -/
inductive TomlFault where
  | noKey
  | badKeyStart (c : Char)
  | noEquals
  /-- Another character was wanted, or the text ends in its place. -/
  | wanted (c : Char) (atEnd : Bool)
  | noValue
  | wantedWord (word : String)
  | badNumberChar (c : Char)
  | incompleteNumber
  | wantedNewline (c : Char)
  | loneReturn (atEnd : Bool)
  | badComment
  | newlineInLiteral
  | badLiteral
  | unclosedLiteral
  | newlineInBasic
  | badBasic
  | unclosedBasic
  | unclosedLongLiteral
  | unclosedLongBasic
  | loneBackslash
  | badEscape (c : Char)
  | shortEscape (wanted found : Nat)
  | badEscapeDigit
  | badEscapeCode
  | unclosedArray
  | arrayComma
  | noArrayComma
  | unclosedTable
  | value (fault : TomlValueFault)
  | repeated (name : String)
  | notTable (name : String)
  | tableOverValue (name : String)
  | tableRepeated (name : String)
deriving DecidableEq, Repr

namespace TomlFault

/-- A character by its number, and in quotes if it can be printed. -/
def codeText (c : Char) : String :=
  let digits := Nat.toDigits 16 c.toNat
  let code := (List.replicate (4 - digits.length) '0' ++ digits).map Char.toUpper
  "U+" ++ String.ofList code ++
    (if Text.isPrintable c then " '" ++ String.singleton c ++ "'" else "")

/-- The message without its first word. -/
def reason : TomlFault → String
  | .noKey => "expected key but found none"
  | .badKeyStart c => "invalid character at start of key: " ++ String.singleton c
  | .noEquals => "expected = after a key, but the document ends there"
  | .wanted c atEnd =>
    "expected character " ++ String.singleton c ++
      (if atEnd then " but the document ended here" else "")
  | .noValue => "expected value, not eof"
  | .wantedWord word => "expected '" ++ word ++ "'"
  | .badNumberChar c =>
    "unexpected character '" ++ String.singleton c ++ "' while scanning for a number"
  | .incompleteNumber => "incomplete number"
  | .wantedNewline c => "expected newline but got " ++ codeText c
  | .loneReturn atEnd =>
    if atEnd then "windows new line expected" else "windows new line should be \\r\\n"
  | .badComment => "invalid character in comment"
  | .newlineInLiteral => "literal strings cannot have new lines"
  | .badLiteral => "invalid character"
  | .unclosedLiteral => "unterminated literal string"
  | .newlineInBasic => "basic strings cannot have new lines"
  | .badBasic => "invalid UTF-8"
  | .unclosedBasic => "basic string not terminated by \""
  | .unclosedLongLiteral => "multiline literal string not terminated by '''"
  | .unclosedLongBasic => "multiline basic string not terminated by \"\"\""
  | .loneBackslash => "need a character after \\"
  | .badEscape c => "invalid escaped character " ++ codeText c
  | .shortEscape size found =>
    "unicode point needs " ++ toString size ++ " character, not " ++ toString found
  | .badEscapeDigit => "non-hex character"
  | .badEscapeCode => "escape sequence is invalid Unicode code point"
  | .unclosedArray => "array is incomplete"
  | .arrayComma => "array cannot start with comma"
  | .noArrayComma => "array elements must be separated by commas"
  | .unclosedTable => "inline table is incomplete"
  | .value fault => fault.text
  | .repeated name => "key " ++ name ++ " is already defined"
  | .notTable name => "expected " ++ name ++ " to be a table, not a value"
  | .tableOverValue name => "key " ++ name ++ " should be a table, not a value"
  | .tableRepeated name => "table " ++ name ++ " already exists"

def message (fault : TomlFault) : String := "toml: " ++ fault.reason

end TomlFault

end CFrontend.Settings
