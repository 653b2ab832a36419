/-!
The syntactic classes of tokens. Grammar terminals are kinds, so two tokens match one terminal
exactly when their kinds are equal, whatever else they carry.
-/
namespace CFrontend

/-- The class of a token. Each kind has a number; the kinds in use are numbered from zero in the
    order below, and every other number is a kind without a name. -/
inductive TokenKind where
  | invalid | string | number | identifier | plus | minus | star | slash | percent | shiftLeft
  | shiftRight | tilde | caret | bar | ampersand | bang | barBar | ampAmp | equal | notEqual
  | less | greater | lessEqual | greaterEqual | increment | decrement | plusAssign
  | minusAssign | starAssign | slashAssign | percentAssign | shiftLeftAssign | shiftRightAssign
  | ampersandAssign | barAssign | caretAssign | assign | leftParen | rightParen | leftBracket
  | rightBracket | leftBrace | rightBrace | arrow | semicolon | colon | comma | period
  | question | kwAuto | kwBreak | kwCase | kwChar | kwConst | kwContinue | kwDefault | kwDo
  | kwDouble | kwElse | kwEnum | kwExtern | kwFloat | kwFor | kwGoto | kwIf | kwInline | kwInt
  | kwLong | kwRegister | kwRestrict | kwReturn | kwShort | kwSigned | kwSizeof | kwStatic
  | kwStruct | kwSwitch | kwTypedef | kwUnion | kwUnsigned | kwVoid | kwVolatile | kwWhile
  | kwBool | kwComplex | kwImaginary
  /-- The kind numbered `-1 - n`. -/
  | below (n : Nat)
  /-- The kind numbered `86 + n`. -/
  | above (n : Nat)
deriving DecidableEq, Repr, Inhabited

namespace TokenKind

/-- The kinds in use, by number. -/
def named : List TokenKind := [
  .invalid,.string,.number,.identifier,.plus,.minus,.star,.slash,.percent,.shiftLeft,
  .shiftRight,.tilde,.caret,.bar,.ampersand,.bang,.barBar,.ampAmp,.equal,.notEqual,
  .less,.greater,.lessEqual,.greaterEqual,.increment,.decrement,.plusAssign,
  .minusAssign,.starAssign,.slashAssign,.percentAssign,.shiftLeftAssign,.shiftRightAssign,
  .ampersandAssign,.barAssign,.caretAssign,.assign,.leftParen,.rightParen,.leftBracket,
  .rightBracket,.leftBrace,.rightBrace,.arrow,.semicolon,.colon,.comma,.period,
  .question,.kwAuto,.kwBreak,.kwCase,.kwChar,.kwConst,.kwContinue,.kwDefault,.kwDo,
  .kwDouble,.kwElse,.kwEnum,.kwExtern,.kwFloat,.kwFor,.kwGoto,.kwIf,.kwInline,.kwInt,
  .kwLong,.kwRegister,.kwRestrict,.kwReturn,.kwShort,.kwSigned,.kwSizeof,.kwStatic,
  .kwStruct,.kwSwitch,.kwTypedef,.kwUnion,.kwUnsigned,.kwVoid,.kwVolatile,.kwWhile,
  .kwBool,.kwComplex,.kwImaginary]

/-- The number of a kind. -/
def code : TokenKind → Int
  | .below n => -1 - (n : Int)
  | .above n => 86 + (n : Int)
  | kind => kind.ctorIdx

/-- The kind with a number. -/
def ofCode (n : Int) : TokenKind :=
  if n < 0 then .below (-1 - n).toNat
  else (named[n.toNat]?).getD (.above (n.toNat - 86))

end TokenKind

/-- A token kind with one fixed spelling. -/
structure Spelling where
  text : List Char
  kind : TokenKind
  /-- A word matches only where no identifier character follows it. -/
  isWord : Bool
deriving DecidableEq, Repr

namespace Spelling

/-- An operator or a piece of punctuation. -/
def sign (text : String) (kind : TokenKind) : Spelling := ⟨text.toList,kind,false⟩

/-- A keyword. -/
def word (text : String) (kind : TokenKind) : Spelling := ⟨text.toList,kind,true⟩

/-- Every fixed spelling. -/
def all : List Spelling := [
  sign "<<=" .shiftLeftAssign,sign ">>=" .shiftRightAssign,sign "<=" .lessEqual,
  sign ">=" .greaterEqual,sign "==" .equal,sign "!=" .notEqual,sign "<<" .shiftLeft,
  sign ">>" .shiftRight,sign "||" .barBar,sign "&&" .ampAmp,sign "++" .increment,
  sign "--" .decrement,sign "+=" .plusAssign,sign "-=" .minusAssign,sign "*=" .starAssign,
  sign "/=" .slashAssign,sign "%=" .percentAssign,sign "&=" .ampersandAssign,
  sign "|=" .barAssign,sign "^=" .caretAssign,sign "->" .arrow,sign "<" .less,
  sign ">" .greater,sign "+" .plus,sign "-" .minus,sign "*" .star,sign "/" .slash,
  sign "%" .percent,sign "~" .tilde,sign "^" .caret,sign "|" .bar,sign "&" .ampersand,
  sign "!" .bang,sign "=" .assign,sign "(" .leftParen,sign ")" .rightParen,
  sign "[" .leftBracket,sign "]" .rightBracket,sign "\x7b" .leftBrace,
  sign "\x7d" .rightBrace,sign ";" .semicolon,sign ":" .colon,sign "," .comma,
  sign "." .period,sign "?" .question,word "auto" .kwAuto,word "break" .kwBreak,
  word "case" .kwCase,word "char" .kwChar,word "const" .kwConst,word "continue" .kwContinue,
  word "default" .kwDefault,word "do" .kwDo,word "double" .kwDouble,word "else" .kwElse,
  word "enum" .kwEnum,word "extern" .kwExtern,word "float" .kwFloat,word "for" .kwFor,
  word "goto" .kwGoto,word "if" .kwIf,word "inline" .kwInline,word "int" .kwInt,
  word "long" .kwLong,word "register" .kwRegister,word "restrict" .kwRestrict,
  word "return" .kwReturn,word "short" .kwShort,word "signed" .kwSigned,
  word "sizeof" .kwSizeof,word "static" .kwStatic,word "struct" .kwStruct,
  word "switch" .kwSwitch,word "typedef" .kwTypedef,word "union" .kwUnion,
  word "unsigned" .kwUnsigned,word "void" .kwVoid,word "volatile" .kwVolatile,
  word "while" .kwWhile,word "_Bool" .kwBool,word "_Complex" .kwComplex,
  word "_Imaginary" .kwImaginary]

/-- The kind spelled by a text. -/
def lookup (text : List Char) : Option TokenKind :=
  (all.find? fun spelling => spelling.text == text).map (·.kind)

end Spelling

namespace TokenKind

/-- The name of a kind: its spelling, or the name of a class of tokens that carry a value. -/
def name (kind : TokenKind) : String :=
  match kind with
  | .invalid => "Invalid"
  | .string => "StringLiteral"
  | .number => "NumericLiteral"
  | .identifier => "Identifier"
  | kind => match Spelling.all.find? fun spelling => spelling.kind == kind with
    | some spelling => String.ofList spelling.text
    | none => "Unknown"

/-- The kind in use with a name. -/
def ofName? (name : String) : Option TokenKind := named.find? fun kind => kind.name == name

/-- Whether tokens of a kind carry a value that their kind does not determine. -/
def isClass : TokenKind → Bool
  | .string | .number | .identifier => true
  | _ => false

end TokenKind

end CFrontend
