import CFrontend.Text.Printable
import CFrontend.Text.Utf8

/-!
Text between quotes on one line: the quote and the backslash are escaped, printable characters
stand for themselves, and everything else has an escape.
-/
namespace CFrontend.Text

/-- The low hexadecimal digits of a number, `width` of them, in lower case. -/
def hexDigits : (width : Nat) → Nat → List Char
  | 0, _ => []
  | width + 1, n => hexDigits width (n / 16) ++ [Nat.digitChar (n % 16)]

/-- A character between quotes of the given kind. -/
def quotedChar (quote c : Char) : List Char :=
  if c = quote || c = '\\' then ['\\',c]
  else if isPrintable c then [c]
  else match c.toNat with
    | 0x07 => ['\\','a']
    | 0x08 => ['\\','b']
    | 0x09 => ['\\','t']
    | 0x0a => ['\\','n']
    | 0x0b => ['\\','v']
    | 0x0c => ['\\','f']
    | 0x0d => ['\\','r']
    | n =>
      if n < 0x20 || n = 0x7f then '\\' :: 'x' :: hexDigits 2 n
      else if n < 0x10000 then '\\' :: 'u' :: hexDigits 4 n
      else '\\' :: 'U' :: hexDigits 8 n

/-- A fragment between quotes; a stray byte is written by its value. -/
def quotedFragment (quote : Char) : Fragment → List Char
  | .char c => quotedChar quote c
  | .stray byte => '\\' :: 'x' :: hexDigits 2 byte.toNat

/-- The characters of a byte text in double quotes. -/
def quotedChars (bytes : List UInt8) : List Char :=
  '"' :: (fragments bytes).flatMap (quotedFragment '"') ++ ['"']

/-- A byte text in double quotes. -/
def quoteBytes (bytes : List UInt8) : String := String.ofList (quotedChars bytes)

/-- A string in double quotes. -/
def quote (text : String) : String :=
  String.ofList ('"' :: text.toList.flatMap (quotedChar '"') ++ ['"'])

/-- A character in single quotes. -/
def quoteChar (c : Char) : String := String.ofList ('\'' :: quotedChar '\'' c ++ ['\''])

end CFrontend.Text
