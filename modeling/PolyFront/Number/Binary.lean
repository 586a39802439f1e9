/-!
# Binary floating point formats

Bit patterns of the two IEEE 754 formats, read as a sign and a significand times a
power of two.
-/

namespace PolyFront

/-- The widths of the fraction and of the exponent field. -/
structure BinaryFormat where
  fraction : Nat
  exponent : Nat
deriving DecidableEq, Repr

namespace BinaryFormat

def single : BinaryFormat := ⟨23, 8⟩

def double : BinaryFormat := ⟨52, 11⟩

/-- The exponent of the least subnormal number. -/
def least (format : BinaryFormat) : Int :=
  2 - (Nat.pow 2 (format.exponent - 1) : Nat) - format.fraction

/-- The exponent field of infinities and of values that are no number. -/
def special (format : BinaryFormat) : Nat := Nat.pow 2 format.exponent - 1

/-- The bit of the sign. -/
def signBit (format : BinaryFormat) : Nat := Nat.pow 2 (format.fraction + format.exponent)

/-- The bit that tells quiet values that are no number. -/
def quietBit (format : BinaryFormat) : Nat := Nat.pow 2 (format.fraction - 1)

/-- The pattern that an invalid operation gives. -/
def invalid (format : BinaryFormat) : Nat :=
  format.signBit + format.special * Nat.pow 2 format.fraction + format.quietBit

end BinaryFormat

/-- What a bit pattern stands for: a finite number is the significand times two to the
exponent. -/
inductive BinaryValue where
  | notANumber
  | infinite (negative : Bool)
  | finite (negative : Bool) (significand : Nat) (exponent : Int)
deriving DecidableEq, Repr

namespace BinaryValue

/-- Read a bit pattern. -/
def decode (format : BinaryFormat) (bits : Nat) : BinaryValue :=
  let negative := decide (format.signBit ≤ bits)
  let field := bits / Nat.pow 2 format.fraction % Nat.pow 2 format.exponent
  let fraction := bits % Nat.pow 2 format.fraction
  if field = format.special then
    if fraction = 0 then .infinite negative else .notANumber
  else if field = 0 then .finite negative fraction format.least
  else .finite negative (Nat.pow 2 format.fraction + fraction) (format.least + field - 1)

/-- The bit pattern of a finite number that the format can represent. -/
def encode (format : BinaryFormat) (negative : Bool) (significand : Nat) (exponent : Int) :
    Nat :=
  let sign := if negative then format.signBit else 0
  if significand = 0 then sign
  else
    let top := significand.log2
    let up := format.fraction - top
    let room := (exponent - format.least).toNat
    let left := min up room
    let aligned := significand * Nat.pow 2 left / Nat.pow 2 (top - format.fraction)
    let scale := exponent - left + (top - format.fraction : Nat)
    if aligned < Nat.pow 2 format.fraction then sign + aligned
    else
      sign + ((scale - format.least).toNat + 1) * Nat.pow 2 format.fraction +
        (aligned - Nat.pow 2 format.fraction)

end BinaryValue

end PolyFront
