import CFrontend.Binary64.Rounding
import CFrontend.Binary64.Shortest
import CFrontend.Text.Integer

/-!
A setting may be written in several ways: a number of states as a number, as a text, or as a truth
value. Values are turned into what a setting needs when it is asked for.
-/
namespace CFrontend.Settings

/-- The value of a setting. -/
inductive Value where
  /-- No value. -/
  | null
  | bool (value : Bool)
  | integer (value : Int)
  | float (value : Binary64)
  | text (value : String)
  /-- A list or a table, which no setting takes. -/
  | compound
deriving DecidableEq, Repr, Inhabited

/-- Drops the last period that a zero follows and everything after it, if there are only periods and
    zeros from there on. The text is given last character first; `seenZero` tells whether a zero came
    before. -/
def dropZeroPlaces (seenZero : Bool) : List Char → Option (List Char)
  | '.' :: rest => if seenZero then some rest else dropZeroPlaces false rest
  | '0' :: rest => dropZeroPlaces true rest
  | _ => none

/-- A text without zero decimal places. -/
def withoutZeroPlaces (text : List Char) : List Char :=
  match dropZeroPlaces false text.reverse with
  | some whole => whole.reverse
  | none => text

/-- The least integer of 64 bits, which stands for numbers that have none. -/
def leastInteger : Int := -(Nat.pow 2 63 : Nat)

/-- A floating number cut to an integer of 64 bits. -/
def wholePart (x : Binary64) : Int :=
  match x.truncate? with
  | some n => if leastInteger ≤ n && n < -leastInteger then n else leastInteger
  | none => leastInteger

namespace Value

/-- The value of a plain number `digits / 10 ^ places`: a whole number is an integer, and other
    numbers are floating. -/
def ofNumber (digits : Int) (places : Nat) : Value :=
  let rounded := (Binary64.ofDecimal? digits.natAbs (-places)).getD ⟨0⟩
  let float := if digits < 0 then rounded.negate else rounded
  let unit : Int := (Nat.pow 10 places : Nat)
  if digits = digits.tdiv unit * unit then .integer (wholePart float) else .float float

/-- The value as an integer of 64 bits, zero where it is none. Larger integers wrap around. -/
def toInteger : Value → Int
  | .bool value => if value then 1 else 0
  | .integer value => Int.bmod value (Nat.pow 2 64)
  | .float value => wholePart value
  | .text value => match Text.readInteger (withoutZeroPlaces value.toList) with
    | .ok n => n
    | .error _ => 0
  | .null | .compound => 0

/-- The value as a text, empty where it is none. -/
def toText : Value → String
  | .bool value => if value then "true" else "false"
  | .integer value => toString value
  | .float value => value.plainText
  | .text value => value
  | .null | .compound => ""

end Value

end CFrontend.Settings
