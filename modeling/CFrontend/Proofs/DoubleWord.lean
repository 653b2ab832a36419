import Mathlib.Logic.Function.Iterate
import CFrontend.Lexer.DoubleWord
import CFrontend.Lexer.Numeric

/-!
Two words hold what the digits of an integer denote. A digit more is taken up exactly, or the number has more than 128 bits
(`mulAdd?_denotes`), so that any number of digits ends with their value or with none (`Denotes.step`). The number of
significant bits decides what fits (`bitLength_le_iff`), and promotion ends with the narrowest type (`integer?_promoted`). The width that a
suffix asks for is one of three or a multiple of 256 (`suffixWidth_cases`), also where the doubling wraps around.
-/
namespace CFrontend

namespace DoubleWord

/-! ### Words -/

private theorem wordBound_eq : wordBound = 18446744073709551616 := rfl

private theorem integerBound_eq : integerBound = wordBound * wordBound := rfl

private theorem toNat_lt_wordBound (word : UInt64) : word.toNat < wordBound := word.toNat_lt

private theorem toNat_mulWords {left right high low : UInt64} (product : mulWords left right = (high,low)) :
    left.toNat * right.toNat = high.toNat * wordBound + low.toNat := by
  obtain ⟨rfl,rfl⟩ := Prod.mk.inj product
  have small : left.toNat * right.toNat / wordBound < wordBound :=
    Nat.div_lt_of_lt_mul (Nat.mul_lt_mul'' left.toNat_lt right.toNat_lt)
  have high : (UInt64.ofNat (left.toNat * right.toNat / wordBound)).toNat = left.toNat * right.toNat / wordBound :=
    Nat.mod_eq_of_lt small
  rw [high]
  exact (Nat.div_add_mod' _ _).symm

private theorem toNat_addWords {left right carry sum excess : UInt64} (added : addWords left right carry = (sum,excess)) :
    left.toNat + right.toNat + carry.toNat = excess.toNat * wordBound + sum.toNat := by
  obtain ⟨rfl,rfl⟩ := Prod.mk.inj added
  have first := toNat_lt_wordBound left
  have second := toNat_lt_wordBound right
  have third := toNat_lt_wordBound carry
  have small : (left.toNat + right.toNat + carry.toNat) / wordBound < wordBound := by
    rw [wordBound_eq] at *
    omega
  have excess : (UInt64.ofNat ((left.toNat + right.toNat + carry.toNat) / wordBound)).toNat =
      (left.toNat + right.toNat + carry.toNat) / wordBound := Nat.mod_eq_of_lt small
  rw [excess]
  exact (Nat.div_add_mod' _ _).symm

private theorem one_le_of_ne_zero {word : UInt64} (nonzero : word ≠ 0) : 1 ≤ word.toNat :=
  Nat.pos_of_ne_zero fun zero => nonzero (UInt64.toNat_inj.mp zero)

theorem toNat_lt (value : DoubleWord) : value.toNat < integerBound := by
  have high := toNat_lt_wordBound value.high
  have low := toNat_lt_wordBound value.low
  rw [toNat,integerBound_eq,wordBound_eq] at *
  omega

/-! ### Digits -/

/-- A value denotes its number, and no value a number of more than 128 bits. -/
def Denotes : Option DoubleWord → Nat → Prop
  | some value,number => value.toNat = number
  | none,number => integerBound ≤ number

theorem denotes_zero : Denotes (some zero) 0 := rfl

/-- None of the carries out of a word is lost: each of them alone makes more than 128 bits, and without them the words hold the number. -/
theorem mulAdd?_denotes (value : DoubleWord) (radix digit : UInt64) :
    Denotes (value.mulAdd? radix digit) (value.toNat * radix.toNat + digit.toNat) := by
  have number : value.toNat * radix.toNat = value.high.toNat * radix.toNat * wordBound + value.low.toNat * radix.toNat := by
    rw [toNat,Nat.add_mul,Nat.mul_right_comm]
  unfold mulAdd?
  split
  rename_i carryLow low lowProduct
  split
  rename_i overHigh high highProduct
  rw [number,toNat_mulWords lowProduct,toNat_mulWords highProduct]
  split
  · rename_i lost
    have carried := one_le_of_ne_zero lost
    simp only [Denotes,integerBound_eq,wordBound_eq]
    omega
  · rename_i kept
    obtain rfl : overHigh = 0 := not_not.mp kept
    split
    rename_i wider carry highSum
    have highSum := toNat_addWords highSum
    split
    · rename_i lost
      have carried := one_le_of_ne_zero lost
      simp only [Denotes,integerBound_eq,wordBound_eq,UInt64.toNat_zero] at highSum ⊢
      omega
    · rename_i kept
      obtain rfl : carry = 0 := not_not.mp kept
      -- The carry out of the low word is no loss: it goes into the high one, and only what comes out of that counts.
      split
      rename_i sum carry lowSum
      split
      rename_i widest excess highest
      have lowSum := toNat_addWords lowSum
      have highest := toNat_addWords highest
      simp only [wordBound_eq,UInt64.toNat_zero] at highSum lowSum highest ⊢
      split
      · rename_i lost
        have carried := one_le_of_ne_zero lost
        simp only [Denotes,integerBound_eq,wordBound_eq]
        omega
      · rename_i kept
        obtain rfl : excess = 0 := not_not.mp kept
        rw [UInt64.toNat_zero] at highest
        simp only [Denotes,toNat,wordBound_eq]
        omega

/-- One more digit multiplies and adds in two words as in numbers, and once the value is too large it stays too large. -/
theorem Denotes.step {total : Option DoubleWord} {number : Nat} (denotes : Denotes total number) {radix digit : Nat}
    (positive : 0 < radix) (radixSmall : radix < wordBound) (digitSmall : digit < wordBound) :
    Denotes (total.bind (·.mulAdd? (UInt64.ofNat radix) (UInt64.ofNat digit))) (number * radix + digit) := by
  cases total with
  | none =>
    have large : integerBound ≤ number := denotes
    exact Nat.le_trans large (Nat.le_trans (Nat.le_mul_of_pos_right number positive) (Nat.le_add_right _ _))
  | some value =>
    obtain rfl : value.toNat = number := denotes
    have own : (UInt64.ofNat radix).toNat = radix := Nat.mod_eq_of_lt radixSmall
    have added : (UInt64.ofNat digit).toNat = digit := Nat.mod_eq_of_lt digitSmall
    have exact := mulAdd?_denotes value (UInt64.ofNat radix) (UInt64.ofNat digit)
    rwa [own,added] at exact

/-! ### Significant bits -/

private theorem wordLength_le_iff (word : UInt64) (bits : Nat) : wordLength word ≤ bits ↔ word.toNat < Nat.pow 2 bits := by
  unfold wordLength
  split
  · rename_i zero
    subst zero
    exact ⟨fun _ => Nat.pow_pos Nat.two_pos,fun _ => Nat.zero_le bits⟩
  · rename_i nonzero
    exact Nat.log2_lt (Nat.pos_iff_ne_zero.mp (one_le_of_ne_zero nonzero))

/-- The bit length of two words is that of their value. -/
theorem bitLength_le_iff (value : DoubleWord) (bits : Nat) : value.bitLength ≤ bits ↔ value.toNat < Nat.pow 2 bits := by
  have low := toNat_lt_wordBound value.low
  unfold bitLength toNat
  split
  · rename_i nonzero
    have high := one_le_of_ne_zero nonzero
    by_cases within : bits < 64
    · have less : Nat.pow 2 bits ≤ wordBound := Nat.pow_le_pow_right Nat.two_pos (Nat.le_of_lt within)
      have full : wordBound ≤ value.high.toNat * wordBound := Nat.le_mul_of_pos_left wordBound high
      constructor <;> intro <;> omega
    · obtain ⟨others,rfl⟩ := Nat.exists_eq_add_of_le (Nat.le_of_not_lt within)
      have power : Nat.pow 2 (64 + others) = Nat.pow 2 others * wordBound := (Nat.pow_add 2 64 others).trans (Nat.mul_comm _ _)
      rw [power,Nat.add_le_add_iff_left,wordLength_le_iff]
      -- A low word below the bound decides nothing.
      constructor
      · intro below
        have next : (value.high.toNat + 1) * wordBound ≤ Nat.pow 2 others * wordBound := Nat.mul_le_mul_right wordBound below
        rw [Nat.add_mul] at next
        omega
      · intro below
        exact Nat.lt_of_mul_lt_mul_right (Nat.lt_of_le_of_lt (Nat.le_add_right _ _) below)
  · rename_i zero
    obtain zero : value.high = 0 := not_not.mp zero
    rw [zero,UInt64.toNat_zero,Nat.zero_mul,Nat.zero_add]
    exact wordLength_le_iff value.low bits

private theorem fits_eq (value : DoubleWord) (width : Nat) (signed : Bool) :
    value.fits width signed = CFrontend.fits value.toNat width signed :=
  decide_eq_decide.mpr (bitLength_le_iff value _)

private theorem fits_longest (value : DoubleWord) : value.fits 128 false := by
  rw [fits_eq]
  exact decide_eq_true value.toNat_lt

end DoubleWord

/-! ### Types -/

theorem narrowestType_longest (value : Nat) (signed : Bool) : narrowestType value 128 signed =
    if fits value 128 signed then (NumberType.integer? 128 signed).getD .unsignedLongLong else .unsignedLongLong := by
  have widths : [32,64,128].filter (fun width : Nat => decide ((128 : Int) ≤ width)) = [128] := by decide
  unfold narrowestType
  dsimp only
  rw [widths,List.find?_cons]
  cases fits value 128 signed <;> rfl

theorem narrowestType_double {width : Nat} (short : width = 32 ∨ width = 64) (value : Nat) (signed : Bool) :
    narrowestType value width signed = if fits value width signed then (NumberType.integer? width signed).getD .unsignedLongLong
      else narrowestType value (2 * width : Nat) signed := by
  have widths : [32,64,128].filter (fun w : Nat => decide ((width : Int) ≤ w)) =
      width :: [32,64,128].filter (fun w : Nat => decide (((2 * width : Nat) : Int) ≤ w)) := by
    rcases short with rfl | rfl <;> decide
  unfold narrowestType
  dsimp only
  rw [widths,List.find?_cons]
  cases fits value width signed <;> rfl

namespace DoubleWord

private theorem promoted_longest (value : DoubleWord) (positive : 0 < 128) (signed : Bool) :
    value.promoted 128 positive signed = (128,if value.fits 128 signed then signed else false) := by
  rw [promoted]
  split
  · rfl
  · rw [if_neg (Nat.lt_irrefl 128),promoted,if_pos value.fits_longest]

private theorem integer?_promoted_longest (value : DoubleWord) (positive : 0 < 128) (signed : Bool) :
    (NumberType.integer? (value.promoted 128 positive signed).1 (value.promoted 128 positive signed).2).getD .int =
      narrowestType value.toNat 128 signed := by
  rw [promoted_longest,narrowestType_longest,← fits_eq]
  cases value.fits 128 signed <;> cases signed <;> rfl

private theorem integer?_promoted_double {width : Nat} (short : width = 32 ∨ width = 64) {value : DoubleWord} {signed : Bool}
    (wider : ∀ positive, (NumberType.integer? (value.promoted (2 * width) positive signed).1
      (value.promoted (2 * width) positive signed).2).getD .int = narrowestType value.toNat (2 * width : Nat) signed)
    (positive : 0 < width) :
    (NumberType.integer? (value.promoted width positive signed).1 (value.promoted width positive signed).2).getD .int =
      narrowestType value.toNat width signed := by
  rw [promoted,narrowestType_double short,← fits_eq]
  split
  · rcases short with rfl | rfl <;> cases signed <;> rfl
  · rw [if_pos (by omega)]
    exact wider _

/-- Promotion from a width of the language ends with the narrowest type. -/
theorem integer?_promoted {width : Nat} (listed : width = 32 ∨ width = 64 ∨ width = 128) (value : DoubleWord)
    (positive : 0 < width) (signed : Bool) :
    (NumberType.integer? (value.promoted width positive signed).1 (value.promoted width positive signed).2).getD .int =
      narrowestType value.toNat width signed := by
  have longest (positive) := integer?_promoted_longest value positive signed
  have long (positive) := integer?_promoted_double (.inr rfl) longest positive
  rcases listed with rfl | rfl | rfl
  · exact integer?_promoted_double (.inl rfl) long positive
  · exact long positive
  · exact longest positive

end DoubleWord

/-! ### Suffixes -/

/-- The number of times that a suffix doubles the width. -/
def doublings (letters : List Char) : Nat := letters.countP fun c => c = 'l' || c = 'L'

private theorem suffixWidth_eq (letters : List Char) : suffixWidth letters = (· * 2)^[doublings letters] 32 := by
  unfold suffixWidth
  generalize (32 : Int64) = width
  induction letters generalizing width with
  | nil => rfl
  | cons c letters ih =>
    rw [List.foldl_cons,ih,doublings,doublings,List.countP_cons]
    split
    · rename_i doubles
      rw [Function.iterate_succ_apply]
    · rename_i other
      rw [Nat.add_zero]

/-- Doubling a multiple of 256 never leads back to a width, however often it wraps around. -/
theorem dvd_toInt_doubled {count : Nat} (many : 3 ≤ count) : (256 : Int) ∣ ((· * 2)^[count] (32 : Int64)).toInt := by
  induction many with
  | refl => decide
  | step many ih =>
    rw [Function.iterate_succ_apply',Int64.toInt_mul,Int.bmod_eq_self_sub_mul_bdiv]
    exact Int.dvd_sub (Int.dvd_trans ih (Int.dvd_mul_right _ _)) (Int.dvd_trans (by decide) (Int.dvd_mul_right _ _))

/-- Doubling a width of 32 bits once for each letter gives that width for up to two letters, and from then on a multiple of 256,
    also where the word overflows. -/
theorem suffixWidth_cases (letters : List Char) :
    (doublings letters < 3 ∧ (suffixWidth letters).toInt = (32 * Nat.pow 2 (doublings letters) : Nat)) ∨
    (3 ≤ doublings letters ∧ (256 : Int) ∣ (suffixWidth letters).toInt) := by
  rw [suffixWidth_eq]
  by_cases few : doublings letters < 3
  · refine .inl ⟨few,?_⟩
    have all : ∀ count : Fin 3, ((· * 2)^[count.val] (32 : Int64)).toInt = (32 * Nat.pow 2 count.val : Nat) := by decide
    exact all ⟨doublings letters,few⟩
  · exact .inr ⟨Nat.le_of_not_lt few,dvd_toInt_doubled (Nat.le_of_not_lt few)⟩

theorem integer?_of_dvd {width : Int} (wide : (256 : Int) ∣ width) (signed : Bool) : NumberType.integer? width signed = none := by
  unfold NumberType.integer?
  split <;> first | rfl | exact absurd wide (by decide)

end CFrontend
