import PolyFront.Number.Binary

/-!
# Shortest decimals

The decimal with the fewest digits that rounds to a given binary number, and its
positional text.
-/

namespace PolyFront

/-- The number `digits * 10 ^ exponent`. -/
structure Decimal where
  digits : Nat
  exponent : Int
deriving DecidableEq, Repr

namespace Decimal

/-- A natural number times a power of two, compared with one times a power of ten. -/
def compareScaled (x : Nat) (twos : Int) (d : Nat) (tens : Int) : Ordering :=
  compare (x * Nat.pow 2 twos.toNat * Nat.pow 10 (-tens).toNat)
    (d * Nat.pow 10 tens.toNat * Nat.pow 2 (-twos).toNat)

/-- The whole part of `x * 2 ^ twos / 10 ^ tens`. -/
def quotient (x : Nat) (twos tens : Int) : Nat :=
  x * Nat.pow 2 twos.toNat * Nat.pow 10 (-tens).toNat /
    (Nat.pow 10 tens.toNat * Nat.pow 2 (-twos).toNat)

/-- The numbers that round to one binary number, in quarters of its last place. The ends
belong to it when the significand is even. -/
structure Rounding where
  value : Nat
  low : Nat
  high : Nat
  exponent : Int
  closed : Bool

namespace Rounding

/-- Below a power of two the next number is half as far away. -/
def ofFinite (format : BinaryFormat) (significand : Nat) (exponent : Int) : Rounding where
  value := 4 * significand
  low := if significand = Nat.pow 2 format.fraction && format.least < exponent
    then 4 * significand - 1 else 4 * significand - 2
  high := 4 * significand + 2
  exponent := exponent - 2
  closed := significand % 2 = 0

/-- A decimal rounds to the number. -/
def admits (rounding : Rounding) (digits : Nat) (tens : Int) : Bool :=
  let below := compareScaled rounding.low rounding.exponent digits tens
  let above := compareScaled rounding.high rounding.exponent digits tens
  if rounding.closed then below.isLE && above.isGE else below == .lt && above == .gt

/-- The multiple of a power of ten that rounds to the number, if there is one: the nearer
of two, and the larger of two that are equally near. -/
def onGrid? (rounding : Rounding) (tens : Int) : Option Decimal :=
  let down := quotient rounding.value rounding.exponent tens
  match rounding.admits down tens, rounding.admits (down + 1) tens with
  | false, false => none
  | true, false => some ⟨down, tens⟩
  | false, true => some ⟨down + 1, tens⟩
  | true, true =>
    -- Twice the value against the sum of its two neighbours.
    match compareScaled (2 * rounding.value) rounding.exponent (2 * down + 1) tens with
    | .lt => some ⟨down, tens⟩
    | _ => some ⟨down + 1, tens⟩

/-- The first hit on the grids from `tens` downwards. -/
def search (rounding : Rounding) : Nat → Int → Decimal
  | 0, tens => ⟨quotient rounding.value rounding.exponent tens, tens⟩
  | fuel + 1, tens =>
    match rounding.onGrid? tens with
    | some decimal => decimal
    | none => rounding.search fuel (tens - 1)

end Rounding

/-- The decimal with the fewest digits that rounds to a finite number other than zero.
The search starts above the number's first digit, and no number needs more than
seventeen digits. -/
def shortest (format : BinaryFormat) (significand : Nat) (exponent : Int) : Decimal :=
  let bits : Int := significand.log2 + exponent
  -- Two to the tenth is more than ten to the third.
  let start := if 0 ≤ bits then bits * 3 / 9 + 2 else bits * 3 / 10 + 2
  (Rounding.ofFinite format significand exponent).search (40 + bits.natAbs) start

/-- Digits without an exponent, and without a point when the number is whole. -/
def positional (decimal : Decimal) : String :=
  let digits := Nat.toDigits 10 decimal.digits
  if 0 ≤ decimal.exponent then
    String.ofList (digits ++ List.replicate decimal.exponent.toNat '0')
  else
    let places := (-decimal.exponent).toNat
    let padded := List.replicate (places + 1 - digits.length) '0' ++ digits
    let whole := padded.take (padded.length - places)
    let fraction := padded.drop (padded.length - places)
    String.ofList (whole ++ '.' :: fraction)

/-- The text of a bit pattern. -/
def renderBits (format : BinaryFormat) (bits : Nat) : String :=
  let signed (negative : Bool) (text : String) := if negative then "-" ++ text else text
  match BinaryValue.decode format bits with
  | .notANumber => "NaN"
  | .infinite negative => signed negative "inf"
  | .finite negative significand exponent =>
    if significand = 0 then signed negative "0"
    else signed negative (shortest format significand exponent).positional

end Decimal

end PolyFront
