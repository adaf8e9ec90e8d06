import Concolic.Text.Numeral

/-!
# Durations

A duration of whole milliseconds is written in the largest unit that it reaches: seconds with up to
three decimals, or milliseconds. No time at all is written in nanoseconds.
-/

namespace Concolic.Text

/-- The decimals of a second without the zeros at the end. -/
def secondDecimals (milliseconds : Nat) : List Char :=
  let digits := Numeral.digits (1000 + milliseconds)
  (digits.tail.reverse.dropWhile (· == '0')).reverse

/-- A duration given in milliseconds. -/
def duration (milliseconds : Nat) : String :=
  if milliseconds = 0 then "0ns"
  else if milliseconds < 1000 then Numeral.text milliseconds ++ "ms"
  else
    let decimals := secondDecimals (milliseconds % 1000)
    Numeral.text (milliseconds / 1000 : Nat)
      ++ (if decimals.isEmpty then "" else "." ++ String.ofList decimals) ++ "s"

end Concolic.Text
