import CFrontend.Binary64.Shortest

/-!
The types of the language's numbers and the values of numeric literals.
-/
namespace CFrontend

/-- The type of a numeric literal. Types are numbered like token kinds, and every number out of
    range is a type without a name. -/
inductive NumberType where
  | int | unsignedInt | signedChar | unsignedChar | short | unsignedShort | long | unsignedLong
  | longLong | unsignedLongLong | float | double
  /-- The type numbered `-1 - n`. -/
  | below (n : Nat)
  /-- The type numbered `12 + n`. -/
  | above (n : Nat)
deriving DecidableEq, Repr, Inhabited

namespace NumberType

/-- The types in use, by number. -/
def named : List NumberType :=
  [.int,.unsignedInt,.signedChar,.unsignedChar,.short,.unsignedShort,.long,.unsignedLong,
    .longLong,.unsignedLongLong,.float,.double]

/-- The type with a number. -/
def ofCode (n : Int) : NumberType :=
  if n < 0 then .below (-1 - n).toNat
  else (named[n.toNat]?).getD (.above (n.toNat - 12))

def name : NumberType → String
  | .int => "int"
  | .unsignedInt => "unsigned int"
  | .signedChar => "signed char"
  | .unsignedChar => "unsigned char"
  | .short => "short"
  | .unsignedShort => "unsigned short"
  | .long => "long"
  | .unsignedLong => "unsigned long"
  | .longLong => "long long"
  | .unsignedLongLong => "unsigned long long"
  | .float => "float"
  | .double => "double"
  | _ => "Unknown"

/-- The storage width in bits. -/
def width : NumberType → Nat
  | .signedChar | .unsignedChar => 8
  | .short | .unsignedShort => 16
  | .int | .unsignedInt | .float => 32
  | .long | .unsignedLong | .double => 64
  | _ => 128

def isSigned : NumberType → Bool
  | .unsignedChar | .unsignedShort | .unsignedInt | .unsignedLong | .unsignedLongLong => false
  | _ => true

def isFloating : NumberType → Bool
  | .float | .double => true
  | _ => false

/-- The integer type with a width in bits and a signedness. -/
def integer? (width : Int) (signed : Bool) : Option NumberType :=
  match width with
  | 8 => some (if signed then .signedChar else .unsignedChar)
  | 16 => some (if signed then .short else .unsignedShort)
  | 32 => some (if signed then .int else .unsignedInt)
  | 64 => some (if signed then .long else .unsignedLong)
  | 128 => some (if signed then .longLong else .unsignedLongLong)
  | _ => none

end NumberType

/-- The value of a numeric literal: a magnitude of 128 bits for an integer type, a binary
    number for a floating one. -/
structure Number where
  type : NumberType := .int
  magnitude : BitVec 128 := 0
  float : Binary64 := ⟨0⟩
deriving DecidableEq, Repr, Inhabited

namespace Number

/-- An integer literal. -/
def integer (type : NumberType) (value : Nat) : Number :=
  { type := type,magnitude := BitVec.ofNat 128 value }

/-- A floating literal. -/
def floating (type : NumberType) (value : Binary64) : Number :=
  { type := type,float := value }

def isFloating (number : Number) : Bool := number.type.isFloating

/-- The low 64 bits of the magnitude. -/
def low (number : Number) : Nat := number.magnitude.toNat % Nat.pow 2 64

/-- The value alone. -/
def valueText (number : Number) : String :=
  if number.isFloating then number.float.text else toString number.magnitude.toNat

/-- The type with the value in parentheses. -/
def text (number : Number) : String := number.type.name ++ "(" ++ number.valueText ++ ")"

/-- Equality of all parts, floating parts by their numeric meaning. -/
def same (a b : Number) : Bool :=
  a.type == b.type && a.magnitude == b.magnitude && a.float.same b.float

end Number

end CFrontend
