import Concolic.Decimal.Shortest

/-!
# Printed doubles

A layout says how the shortest digits of a double are set out: up to which size they are written
without an exponent, and whether a whole number keeps a fractional part of zero.
-/

namespace Concolic.Decimal

/-- The conventions for printing a double. -/
structure Layout where
  /-- What happens to a value halfway between two shortest candidates. -/
  tie : Tie
  /-- The least and the greatest decimal exponent written without an exponent part; everything if
  there are none. -/
  plainExponents : Option (Int × Int)
  /-- Whether a whole number ends in `.0`. -/
  keepsPoint : Bool
  /-- The text of a value that is no number, and of one that is infinite. -/
  nan : String
  infinite : String

/-- Digits written with a decimal point, for the number `digits · 10 ^ place`. -/
def plain (keepsPoint : Bool) (digits : List Char) (place : Int) : List Char :=
  if 0 ≤ place then
    digits ++ List.replicate place.toNat '0' ++ (if keepsPoint then ['.', '0'] else [])
  else
    let decimals := (-place).toNat
    if decimals < digits.length then
      digits.take (digits.length - decimals) ++ '.' :: digits.drop (digits.length - decimals)
    else
      '0' :: '.' :: (List.replicate (decimals - digits.length) '0' ++ digits)

/-- Digits written with an exponent, whose sign is always shown. -/
def scientific (digits : List Char) (exponent : Int) : List Char :=
  let mantissa :=
    match digits with
    | [] => []
    | [digit] => [digit]
    | digit :: decimals => digit :: '.' :: decimals
  mantissa ++ 'e' :: (if exponent < 0 then '-' else '+') :: Nat.toDigits 10 exponent.natAbs

/-- The digits of a positive number in the given layout. -/
def Layout.digits (layout : Layout) (significand : Nat) (exponent : Int) : List Char :=
  let (value, place) := shortest layout.tie significand exponent
  let digits := Nat.toDigits 10 value
  let leading : Int := digits.length + place - 1
  match layout.plainExponents with
  | none => plain layout.keepsPoint digits place
  | some (least, greatest) =>
      if least ≤ leading ∧ leading ≤ greatest then plain layout.keepsPoint digits place
      else scientific digits leading

def Layout.text (layout : Layout) (value : Float) : String :=
  let signed (negative : Bool) (text : List Char) : String :=
    String.ofList (if negative then '-' :: text else text)
  match Parts.ofFloat value with
  | .nan => layout.nan
  | .infinite negative => signed negative layout.infinite.toList
  | .finite negative 0 _ => signed negative (if layout.keepsPoint then ['0', '.', '0'] else ['0'])
  | .finite negative significand exponent => signed negative (layout.digits significand exponent)

/-- The bits of a double as sixteen hexadecimal digits. -/
def bitsText (value : Float) : String :=
  let digits := Nat.toDigits 16 value.toBits.toNat
  String.ofList (List.replicate (16 - digits.length) '0' ++ digits)

end Concolic.Decimal
