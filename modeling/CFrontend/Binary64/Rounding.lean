import CFrontend.Binary64.Basic

/-!
Rounds a positive fraction to the nearest number of a binary format, ties to the even
significand, in exact integer arithmetic.
-/
namespace CFrontend.Binary64

/-- A binary interchange format. -/
structure Format where
  /-- The number of significand bits, the leading one included. -/
  precision : Nat
  /-- The least positive number is two to the minus `depth`. -/
  depth : Nat
  /-- The bits below the sign of infinity. -/
  infinity : Nat

/-- The 64-bit format. -/
def double : Format := ⟨53,1074,infinityBits⟩

/-- The 32-bit format. -/
def single : Format := ⟨24,149,255 * Nat.pow 2 23⟩

/-- The integer nearest to `n / d`; a tie goes to the even one. -/
def nearest (n d : Nat) : Nat :=
  let floor := n / d
  let rest := n % d
  if d < 2 * rest || (2 * rest = d && floor % 2 = 1) then floor + 1 else floor

/-- Numerator and denominator of `(n / d) / 2 ^ exponent`. -/
def scaled (n d : Nat) (exponent : Int) : Nat × Nat :=
  if 0 ≤ exponent then (n,d * Nat.pow 2 exponent.toNat) else (n * Nat.pow 2 (-exponent).toNat,d)

/-- The floor of the binary logarithm of `n / d`. -/
def binaryExponent (n d : Nat) : Int :=
  let guess : Int := (n.log2 : Int) - d.log2
  let (a,b) := scaled n d guess
  if b ≤ a then guess else guess - 1

/-- The bits below the sign of the number of a format nearest to `n / d`. Consecutive bit patterns
    are consecutive numbers, so a significand that rounds up to a power of two carries into the
    exponent by itself. -/
def Format.round (format : Format) (n d : Nat) : Nat :=
  if n = 0 then 0
  else
    let exponent := max (binaryExponent n d - (format.precision - 1)) (-format.depth)
    let (a,b) := scaled n d exponent
    let pattern := (exponent + format.depth).toNat * Nat.pow 2 (format.precision - 1) + nearest a b
    min pattern format.infinity

/-- The number `digits * 10 ^ exponent`, rounded, or nothing when it is too large. -/
def ofDecimal? (digits : Nat) (exponent : Int) : Option Binary64 :=
  let pattern :=
    if 0 ≤ exponent then double.round (digits * Nat.pow 10 exponent.toNat) 1
    else double.round digits (Nat.pow 10 (-exponent).toNat)
  if pattern = infinityBits then none else some (ofUnsignedBits pattern)

/-- The absolute value of the number of the 32-bit format with the given bits below the sign. -/
def ofSingleBits (pattern : Nat) : Binary64 :=
  if single.infinity ≤ pattern then ofUnsignedBits infinityBits
  else
    let field : Nat := pattern / Nat.pow 2 23
    let fraction : Nat := pattern % Nat.pow 2 23
    let (significand,exponent) : Nat × Int :=
      if field = 0 then (fraction,-149) else (Nat.pow 2 23 + fraction,(field : Int) - 150)
    let (n,d) := scaled significand 1 (-exponent)
    ofUnsignedBits (double.round n d)

/-- A non-negative number rounded to the 32-bit format. -/
def toSingle (x : Binary64) : Binary64 :=
  match x.magnitude with
  | .finite significand exponent =>
    let (n,d) := scaled significand 1 (-exponent)
    ofSingleBits (single.round n d)
  | _ => x

end CFrontend.Binary64
