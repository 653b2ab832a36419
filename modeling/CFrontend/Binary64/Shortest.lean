import CFrontend.Binary64.Basic

/-!
Of the decimal numbers that round to a given binary number, the text shows one with the fewest
digits, and of those the nearest.
-/
namespace CFrontend.Binary64

/-- A decimal number `digits * 10 ^ exponent`. -/
structure Decimal where
  digits : Nat
  exponent : Int
deriving DecidableEq, Repr

/-- The multiple of `10 ^ exponent` nearest to `significand * 2 ^ binary` among those that round to
    it. Distances are measured in quarters of `2 ^ binary`; the numbers that round to it reach half
    a unit up and down, or a quarter down at a power of two, both ends counting for an even
    significand. -/
def onGrid? (significand : Nat) (binary exponent : Int) : Option Decimal :=
  let quarter := binary - 2
  let unit := Nat.pow 2 quarter.toNat * Nat.pow 10 (-exponent).toNat
  let grid := Nat.pow 10 exponent.toNat * Nat.pow 2 (-quarter).toNat
  let value := 4 * significand * unit
  let narrow := significand = Nat.pow 2 52 && -1074 < binary
  let low := (4 * significand - if narrow then 1 else 2) * unit
  let high := (4 * significand + 2) * unit
  let inside (digits : Nat) : Bool :=
    let point := digits * grid
    if significand % 2 = 0 then low ≤ point && point ≤ high else low < point && point < high
  let floor := value / grid
  let twice := 2 * (value % grid)
  let up := grid < twice || (twice = grid && floor % 2 = 1)
  match inside floor, inside (floor + 1) with
  | true, true => some ⟨if up then floor + 1 else floor,exponent⟩
  | true, false => some ⟨floor,exponent⟩
  | false, true => some ⟨floor + 1,exponent⟩
  | false, false => none

/-- A decimal exponent above every grid that can hold a number between `2 ^ n` and
    `2 ^ (n + 1)`. -/
def topExponent (n : Int) : Int := (n + 1) * 30103 / 100000 + 2

/-- The shortest decimal that rounds to `significand * 2 ^ binary`, which is positive. Grids are
    tried from coarse to fine. -/
def shortest (significand : Nat) (binary : Int) : Decimal :=
  let top := topExponent (significand.log2 + binary)
  let found := (List.range 24).findSome? fun i : Nat => onGrid? significand binary (top - i)
  found.getD ⟨0,0⟩

/-- When a decimal text has an exponent part. -/
structure Layout where
  /-- Decimal exponents below this have one. -/
  least : Int
  /-- Decimal exponents from this on have one. -/
  bound : Int

/-- The layout of literals: positional from `0.0001` up to six integer digits. -/
def literalLayout : Layout := ⟨-4,6⟩

/-- An exponent with its sign and at least two digits. -/
def exponentText (exponent : Int) : String :=
  let digits := Nat.toDigits 10 exponent.natAbs
  let padded := if digits.length < 2 then '0' :: digits else digits
  (if exponent < 0 then "e-" else "e+") ++ String.ofList padded

/-- A decimal without an exponent part. -/
def positional (digits : List Char) (exponent : Int) : String :=
  if 0 ≤ exponent then String.ofList (digits ++ List.replicate exponent.toNat '0')
  else
    let places := (-exponent).toNat
    let padded := List.replicate (places + 1 - digits.length) '0' ++ digits
    let whole := padded.length - places
    String.ofList (padded.take whole ++ '.' :: padded.drop whole)

/-- One digit, the other digits after a point, and the exponent part. -/
def scientific (digits : List Char) (exponent : Int) : String :=
  let shift := exponent + (digits.length - 1 : Nat)
  let tail := digits.drop 1
  String.ofList (digits.take 1 ++ if tail.isEmpty then [] else '.' :: tail) ++ exponentText shift

/-- A positive decimal in a layout; without one it is positional. -/
def Decimal.text (decimal : Decimal) (layout : Option Layout) : String :=
  let digits := Nat.toDigits 10 decimal.digits
  let leading := decimal.exponent + (digits.length - 1 : Nat)
  match layout with
  | some layout =>
    if leading < layout.least || layout.bound ≤ leading then scientific digits decimal.exponent
    else positional digits decimal.exponent
  | none => positional digits decimal.exponent

/-- The text of a number. -/
def render (layout : Option Layout) (x : Binary64) : String :=
  match x.magnitude with
  | .nan => "NaN"
  | .infinite => if x.isNegative then "-Inf" else "+Inf"
  | .finite significand exponent =>
    let sign := if x.isNegative then "-" else ""
    if significand = 0 then sign ++ "0" else sign ++ (shortest significand exponent).text layout

/-- The text of a floating literal. -/
def text (x : Binary64) : String := x.render (some literalLayout)

/-- The text without an exponent part. -/
def plainText (x : Binary64) : String := x.render none

end CFrontend.Binary64
