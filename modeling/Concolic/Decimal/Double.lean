/-!
# Doubles as fractions

A finite double is `significand · 2 ^ exponent` for integers with `exponent ≥ -1074`. This module
takes a double apart into these integers, and finds the double nearest to a fraction with ties going
to the even significand. Both directions are exact integer computations.
-/

namespace Concolic.Decimal

/-- What the bits of a double say. -/
inductive Parts where
  | nan
  | infinite (negative : Bool)
  /-- The number `± significand · 2 ^ exponent`. -/
  | finite (negative : Bool) (significand : Nat) (exponent : Int)
  deriving DecidableEq, Repr

/-- The parts of a double given by its bits. -/
def Parts.ofBits (bits : UInt64) : Parts :=
  let negative : Bool := bits.toNat / Nat.pow 2 63 = 1
  let biased : Nat := bits.toNat / Nat.pow 2 52 % Nat.pow 2 11
  let fraction := bits.toNat % Nat.pow 2 52
  if biased = 2047 then
    if fraction = 0 then .infinite negative else .nan
  else if biased = 0 then
    .finite negative fraction (-1074)
  else
    .finite negative (fraction + Nat.pow 2 52) ((biased : Int) - 1075)

def Parts.ofFloat (value : Float) : Parts :=
  .ofBits value.toBits

/-- A quotient rounded to the nearest integer, a tie going to the even one. -/
def roundToEven (numerator denominator : Nat) : Nat :=
  let quotient := numerator / denominator
  let twice := 2 * (numerator % denominator)
  if twice < denominator then quotient
  else if twice > denominator then quotient + 1
  else if quotient % 2 = 0 then quotient else quotient + 1

/-- The exponent of two that the double nearest to a positive fraction has. -/
def binaryExponent (numerator denominator : Nat) : Int :=
  let guess := (Nat.log2 numerator : Int) - Nat.log2 denominator
  let atLeast :=
    if 0 ≤ guess then denominator * Nat.pow 2 guess.toNat ≤ numerator
    else denominator ≤ numerator * Nat.pow 2 (-guess).toNat
  max (-1074) ((if atLeast then guess else guess - 1) - 52)

/-- The bits of the double nearest to a fraction; past the greatest double they are those of
infinity. The significand is added to the shifted exponent, so that a significand rounded up to the
next power of two carries into the exponent. -/
def nearestBits (numerator denominator : Nat) : Nat :=
  if numerator = 0 then 0
  else
    let exponent := binaryExponent numerator denominator
    let significand :=
      if 0 ≤ exponent then roundToEven numerator (denominator * Nat.pow 2 exponent.toNat)
      else roundToEven (numerator * Nat.pow 2 (-exponent).toNat) denominator
    min ((exponent + 1074).toNat * Nat.pow 2 52 + significand) (2047 * Nat.pow 2 52)

/-- The double nearest to `± significand · 10 ^ exponent`. Exponents that are surely out of range
are cut off first. -/
def nearest (negative : Bool) (significand : Nat) (exponent : Int) : Float :=
  let digits : Int := (Nat.toDigits 10 significand).length
  let bits :=
    if significand = 0 ∨ digits + exponent < -400 then 0
    else if digits + exponent > 400 then 2047 * Nat.pow 2 52
    else if 0 ≤ exponent then nearestBits (significand * Nat.pow 10 exponent.toNat) 1
    else nearestBits significand (Nat.pow 10 (-exponent).toNat)
  Float.ofBits (.ofNat (if negative then Nat.pow 2 63 + bits else bits))

end Concolic.Decimal
