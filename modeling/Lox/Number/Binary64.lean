/-!
# Binary64 numbers as integers

A finite number is `± mantissa * 2 ^ exponent`. `ofFloat` takes a number apart into that form, and
`nearest` finds the bit pattern of the number closest to a quotient of naturals, a tie going to the
even mantissa. Both work in exact natural arithmetic.
-/

namespace Lox

/-- What a bit pattern of the binary64 format stands for. -/
inductive Binary64 where
  | nan
  | infinite (negative : Bool)
  | finite (negative : Bool) (mantissa : Nat) (exponent : Int)
  deriving DecidableEq, Repr

namespace Binary64

/-- The exponent of the subnormal numbers, which is the least one. -/
def leastExponent : Int := -1074

/-- The least mantissa of a normal number, which is `2 ^ 52`: the bit that its fraction field leaves
out. -/
def hiddenBit : Nat := 0x10000000000000

/-- The bit pattern of positive infinity, just above those of the finite positive numbers. -/
def infinityBits : Nat := 0x7FF0000000000000

/-- Reads sign, exponent and fraction fields. Subnormal numbers have no hidden bit and share the
exponent of the least normal ones. -/
def ofBits (bits : Nat) : Binary64 :=
  let negative := decide (bits / 0x8000000000000000 % 2 = 1)
  let biased : Nat := bits / hiddenBit % 0x800
  let fraction : Nat := bits % hiddenBit
  if biased = 0x7FF then
    if fraction = 0 then .infinite negative else .nan
  else if biased = 0 then .finite negative fraction leastExponent
  else .finite negative (hiddenBit + fraction) (leastExponent + biased - 1)

def ofFloat (x : Float) : Binary64 := ofBits x.toBits.toNat

/-- The quotient rounded to the nearest natural, a half going to the even one. -/
def roundQuotient (numerator denominator : Nat) : Nat :=
  let quotient := numerator / denominator
  let remainder := numerator % denominator
  if denominator < 2 * remainder ∨ (2 * remainder = denominator ∧ quotient % 2 = 1) then
    quotient + 1
  else quotient

/-- The greatest `k` with `2 ^ k * denominator ≤ numerator`, for positive arguments. The bit
lengths give it up to one. -/
def logQuotient (numerator denominator : Nat) : Int :=
  let estimate : Int := (numerator.log2 : Int) - denominator.log2
  if numerator * Nat.pow 2 (-estimate).toNat < denominator * Nat.pow 2 estimate.toNat then
    estimate - 1
  else estimate

/-- The bit pattern of the positive number closest to `numerator / denominator`. A mantissa that
rounds up to `2 ^ 53` carries into the exponent field, and a number too large carries into the
pattern of infinity. -/
def nearest (numerator denominator : Nat) : Nat :=
  if numerator = 0 then 0
  else
    let exponent := max (logQuotient numerator denominator - 52) leastExponent
    let mantissa :=
      roundQuotient (numerator * Nat.pow 2 (-exponent).toNat)
        (denominator * Nat.pow 2 exponent.toNat)
    min ((exponent - leastExponent).toNat * hiddenBit + mantissa) infinityBits

end Binary64

end Lox
