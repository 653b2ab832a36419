/-!
A floating number of the 64-bit interchange format is its bit pattern, so that every NaN payload
and the sign of zero are kept. Comparison follows the numeric meaning of the patterns.
-/
namespace CFrontend

/-- A number of the 64-bit binary interchange format. -/
structure Binary64 where
  bits : UInt64
deriving DecidableEq, Repr, Inhabited

namespace Binary64

/-- What the bits below the sign stand for. -/
inductive Magnitude where
  /-- The number `significand * 2 ^ exponent`. -/
  | finite (significand : Nat) (exponent : Int)
  | infinite
  | nan
deriving DecidableEq, Repr

/-- Whether the sign bit is set. -/
def isNegative (x : Binary64) : Bool := Nat.pow 2 63 ≤ x.bits.toNat

/-- The bits below the sign. -/
def unsignedBits (x : Binary64) : Nat := x.bits.toNat % Nat.pow 2 63

/-- The absolute value. -/
def magnitude (x : Binary64) : Magnitude :=
  let field : Nat := x.unsignedBits / Nat.pow 2 52
  let fraction : Nat := x.unsignedBits % Nat.pow 2 52
  if field = 2047 then (if fraction = 0 then .infinite else .nan)
  else if field = 0 then .finite fraction (-1074)
  else .finite (Nat.pow 2 52 + fraction) ((field : Int) - 1075)

def isNaN (x : Binary64) : Bool := x.magnitude == .nan

/-- Numeric equality: a NaN equals nothing, and the two zeros are equal. -/
def same (x y : Binary64) : Bool :=
  !x.isNaN && !y.isNaN && (x.bits == y.bits || (x.unsignedBits == 0 && y.unsignedBits == 0))

/-- The non-negative number with the given bits below the sign. -/
def ofUnsignedBits (n : Nat) : Binary64 := ⟨UInt64.ofNat (n % Nat.pow 2 63)⟩

/-- The bits below the sign of infinity. -/
def infinityBits : Nat := 2047 * Nat.pow 2 52

/-- Positive infinity. -/
def infinity : Binary64 := ofUnsignedBits infinityBits

/-- A quiet NaN. -/
def nan : Binary64 := ofUnsignedBits (infinityBits + Nat.pow 2 51)

/-- The number with the opposite sign bit. -/
def negate (x : Binary64) : Binary64 := ⟨x.bits ^^^ 0x8000000000000000⟩

/-- The integer part, rounded toward zero. -/
def truncate? (x : Binary64) : Option Int :=
  match x.magnitude with
  | .finite significand exponent =>
    let whole := if 0 ≤ exponent then significand * Nat.pow 2 exponent.toNat
      else significand / Nat.pow 2 (-exponent).toNat
    some (if x.isNegative then -(whole : Int) else whole)
  | _ => none

end Binary64

end CFrontend
