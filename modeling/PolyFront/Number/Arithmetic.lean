import PolyFront.Number.Binary

/-!
# Floating point arithmetic on bit patterns

An operation on a value that is no number gives that value made quiet, the left one
when both are none; an invalid operation gives the negative quiet pattern.  The
remainder is exact and takes the sign of the dividend.
-/

namespace PolyFront

namespace BinaryFormat

variable (format : BinaryFormat)

def isNaN (bits : Nat) : Bool := BinaryValue.decode format bits == .notANumber

def quiet (bits : Nat) : Nat :=
  if bits / format.quietBit % 2 = 1 then bits else bits + format.quietBit

/-- Combine two operands that are numbers, and pass on one that is not. -/
def propagate (left right : Nat) (combine : Nat → Nat → Nat) : Nat :=
  if format.isNaN left then format.quiet left
  else if format.isNaN right then format.quiet right
  else
    let result := combine left right
    if format.isNaN result then format.invalid else result

def negate (bits : Nat) : Nat :=
  if format.signBit ≤ bits then bits - format.signBit else bits + format.signBit

/-- The remainder of the division that rounds towards zero. -/
def remainder (left right : Nat) : Nat :=
  format.propagate left right fun left right =>
    match BinaryValue.decode format left, BinaryValue.decode format right with
    | .finite negative m e, .finite _ n f =>
      if n = 0 then format.invalid
      else
        let low := min e f
        let rest := m * Nat.pow 2 (e - low).toNat % (n * Nat.pow 2 (f - low).toNat)
        BinaryValue.encode format negative rest low
    | .finite _ _ _, .infinite _ => left
    | _, _ => format.invalid

end BinaryFormat

/-- An operation on numbers of double precision, on their bit patterns. -/
def liftDouble (f : Float → Float → Float) (left right : Nat) : Nat :=
  (f (Float.ofBits left.toUInt64) (Float.ofBits right.toUInt64)).toBits.toNat

/-- An operation on numbers of single precision, on their bit patterns. -/
def liftSingle (f : Float32 → Float32 → Float32) (left right : Nat) : Nat :=
  (f (Float32.ofBits left.toUInt32) (Float32.ofBits right.toUInt32)).toBits.toNat

/-- A power with a base of one or an exponent of zero is one whatever the other operand. -/
def powerBits (format : BinaryFormat) (combine : Nat → Nat → Nat) (left right : Nat) : Nat :=
  let result := combine left right
  if format.isNaN result then format.propagate left right combine else result

end PolyFront
