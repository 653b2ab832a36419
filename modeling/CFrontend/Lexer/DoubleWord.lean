/-!
The values of integer literals as they are accumulated digit by digit: 128 bits in two words of 64. A digit that makes a value
too large is noticed by the carries out of the high word.
-/
namespace CFrontend

/-- A number of 128 bits in two words. -/
structure DoubleWord where
  high : UInt64
  low : UInt64
deriving DecidableEq, Repr

namespace DoubleWord

/-- The first number that does not fit in a word. -/
def wordBound : Nat := Nat.pow 2 64

def zero : DoubleWord := ⟨0,0⟩

/-- The number that two words denote. -/
def toNat (value : DoubleWord) : Nat := value.high.toNat * wordBound + value.low.toNat

/-- The high and the low word of the product of two words. -/
def mulWords (left right : UInt64) : UInt64 × UInt64 :=
  let product := left.toNat * right.toNat
  (UInt64.ofNat (product / wordBound),UInt64.ofNat product)

/-- The sum of two words and a carry, and the carry out of it. -/
def addWords (left right carry : UInt64) : UInt64 × UInt64 :=
  let sum := left.toNat + right.toNat + carry.toNat
  (UInt64.ofNat sum,UInt64.ofNat (sum / wordBound))

/-- The number times a radix plus a digit, or nothing if that has more than 128 bits. The high word overflows by its own
    product, by the carry from the product of the low word, or by the carry from the digit. -/
def mulAdd? (value : DoubleWord) (radix digit : UInt64) : Option DoubleWord :=
  let (carryLow,low) := mulWords value.low radix
  let (overHigh,high) := mulWords value.high radix
  if overHigh ≠ 0 then none
  else
    let (high,carry) := addWords high carryLow 0
    if carry ≠ 0 then none
    else
      let (low,carry) := addWords low digit 0
      let (high,carry) := addWords high 0 carry
      if carry ≠ 0 then none else some ⟨high,low⟩

/-- The number of significant bits of a word. -/
def wordLength (word : UInt64) : Nat := if word = 0 then 0 else word.toNat.log2 + 1

/-- The number of significant bits. -/
def bitLength (value : DoubleWord) : Nat :=
  if value.high ≠ 0 then 64 + wordLength value.high else wordLength value.low

theorem wordLength_le (word : UInt64) : wordLength word ≤ 64 := by
  unfold wordLength
  split
  · exact Nat.zero_le _
  · rename_i nonzero
    have positive : word.toNat ≠ 0 := fun zero => nonzero (UInt64.toNat_inj.mp zero)
    exact (Nat.log2_lt positive).mpr word.toNat_lt

theorem bitLength_le (value : DoubleWord) : value.bitLength ≤ 128 := by
  have high := wordLength_le value.high
  have low := wordLength_le value.low
  unfold bitLength
  split <;> omega

/-- Whether the number is representable in a width. -/
def fits (value : DoubleWord) (width : Nat) (signed : Bool) : Bool :=
  value.bitLength ≤ if signed then width - 1 else width

/-- The width and the signedness in which the number is representable: the width is doubled up to 128 bits, and a number
    that is too large for that becomes unsigned. -/
def promoted (value : DoubleWord) (width : Nat) (positive : 0 < width) (signed : Bool) : Nat × Bool :=
  if value.fits width signed then (width,signed)
  else if width < 128 then promoted value (2 * width) (Nat.mul_pos (Nat.succ_pos 1) positive) signed
  else promoted value width positive false
termination_by (128 - width,signed.toNat)
decreasing_by
  · exact Prod.Lex.left _ _ (by omega)
  · rename_i large wide
    have length := bitLength_le value
    cases signed with
    | true => exact Prod.Lex.right _ (Nat.zero_lt_succ 0)
    | false =>
      refine absurd ?_ large
      simp only [fits,Bool.false_eq_true,if_false,decide_eq_true_eq]
      omega

end DoubleWord

end CFrontend
