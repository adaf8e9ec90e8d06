import Concolic.Decimal.Double
import Concolic.Text.Numeral

/-!
# Reading doubles

A double is written as an optional sign followed by digits with at most one point and at least one
digit, and an optional exponent. The words `inf`, `infinity` and `nan` stand for themselves in any
case. The result is the nearest double.
-/

namespace Concolic.Decimal

/-- Reads what follows the letter of an exponent. -/
def exponent? (text : List Char) : Option Int :=
  Numeral.signed? text

/-- Reads digits with an optional point and exponent. -/
def unsigned? (negative : Bool) (text : List Char) : Option Float := do
  let whole := text.takeWhile Numeral.isDigit
  let afterWhole := text.dropWhile Numeral.isDigit
  let (decimals, afterDecimals) :=
    match afterWhole with
    | '.' :: rest => (rest.takeWhile Numeral.isDigit, rest.dropWhile Numeral.isDigit)
    | rest => ([], rest)
  let digits ← Numeral.natural? (whole ++ decimals)
  let exponent ←
    match afterDecimals with
    | [] => some 0
    | 'e' :: rest | 'E' :: rest => exponent? rest
    | _ => none
  return nearest negative digits (exponent - decimals.length)

/-- The double that a word stands for. -/
def word? (negative : Bool) (text : List Char) : Option Float :=
  match String.ofList (text.map Char.toLower) with
  | "inf" | "infinity" =>
      some (Float.ofBits (.ofNat ((if negative then 4095 else 2047) * Nat.pow 2 52)))
  | "nan" => some (Float.ofBits (.ofNat (4095 * Nat.pow 2 51)))
  | _ => none

def read? (text : List Char) : Option Float :=
  let (negative, magnitude) :=
    match text with
    | '-' :: rest => (true, rest)
    | '+' :: rest => (false, rest)
    | rest => (false, rest)
  (word? negative magnitude).orElse fun _ => unsigned? negative magnitude

end Concolic.Decimal
