import Concolic.Decimal.Double

/-!
# The fewest digits that read back

A double is printed with as few decimal digits as identify it. For 1, 2, 3, … digits the two
neighbours of the value on the grid of decimals with that many digits are tested. The first grid
with a neighbour that rounds to the double wins, and of two such neighbours the nearer one.

The reals that round to `significand · 2 ^ exponent` reach half a step up and half a step down,
where the step down is only half as wide below a power of two. The two ends belong to them exactly
if the significand is even. To stay with integers everything is counted in quarters of a step.
-/

namespace Concolic.Decimal

/-- How a value halfway between two decimals is printed. -/
inductive Tie where
  /-- As the greater one. -/
  | up
  /-- As the one with an even last digit. -/
  | toEven
  deriving DecidableEq, Repr

/-- The number of decimal digits before the point of a positive fraction: `10 ^ (k - 1) ≤ x < 10 ^ k`
for the result `k`. The search starts from an estimate and steps down or up. -/
def leadingPower (numerator denominator : Nat) : Int :=
  let digits (value : Nat) : Int := (Nat.toDigits 10 value).length
  let guess := digits numerator - digits denominator
  let reaches (power : Int) : Bool :=
    if 0 ≤ power then denominator * Nat.pow 10 power.toNat ≤ numerator
    else denominator ≤ numerator * Nat.pow 10 (-power).toNat
  if reaches guess then guess + 1 else guess

/-- The neighbour of a value with the given number of digits that rounds to the value, if there is
one: the value is `numerator / denominator`, and `below` and `above` are the distances to the ends
of its interval over the same denominator. -/
def gridHit? (tie : Tie) (closed : Bool) (numerator below above denominator digits : Nat)
    (power : Int) : Option (Nat × Int) :=
  let place : Int := power - digits
  -- Scale so that one unit of the grid is `denominator'`.
  let scale := if 0 ≤ place then 1 else Nat.pow 10 (-place).toNat
  let denominator' := if 0 ≤ place then denominator * Nat.pow 10 place.toNat else denominator
  let floor := numerator * scale / denominator'
  let rest := numerator * scale % denominator'
  let toEnd (distance width : Nat) : Bool :=
    if closed then distance ≤ width * scale else distance < width * scale
  let down := toEnd rest below
  let up := toEnd (denominator' - rest) above
  let upNearer :=
    match compare (2 * rest) denominator', tie with
    | .gt, _ => true
    | .lt, _ => false
    | .eq, .up => true
    | .eq, .toEven => floor % 2 = 1
  if down && up then some (if upNearer then floor + 1 else floor, place)
  else if down then some (floor, place)
  else if up then some (floor + 1, place)
  else none

/-- Tries grids of more and more digits; seventeen digits identify every double. -/
def searchGrids (tie : Tie) (closed : Bool) (numerator below above denominator : Nat)
    (power : Int) : (remaining digits : Nat) → Nat × Int
  | 0, _ => (numerator, 0)
  | remaining + 1, digits =>
      (gridHit? tie closed numerator below above denominator digits power).getD
        (searchGrids tie closed numerator below above denominator power remaining (digits + 1))

/-- Moves the trailing zeros of a significand into the exponent. -/
def stripZeros : (fuel : Nat) → Nat → Int → Nat × Int
  | 0, significand, exponent => (significand, exponent)
  | fuel + 1, significand, exponent =>
      if significand % 10 = 0 ∧ significand ≠ 0 then
        stripZeros fuel (significand / 10) (exponent + 1)
      else
        (significand, exponent)

/-- The shortest decimal `s · 10 ^ e` that rounds to the positive double
`significand · 2 ^ exponent`; `s` has no trailing zero. -/
def shortest (tie : Tie) (significand : Nat) (exponent : Int) : Nat × Int :=
  let quarters := exponent - 2
  let unit := if 0 ≤ quarters then Nat.pow 2 quarters.toNat else 1
  let denominator := if 0 ≤ quarters then 1 else Nat.pow 2 (-quarters).toNat
  let numerator := 4 * significand * unit
  let above := 2 * unit
  let below := if significand = Nat.pow 2 52 then unit else 2 * unit
  let (digits, place) :=
    searchGrids tie (significand % 2 = 0) numerator below above denominator
      (leadingPower numerator denominator) 18 1
  stripZeros 20 digits place

end Concolic.Decimal
