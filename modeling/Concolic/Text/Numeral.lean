/-!
# Decimal numerals

Integers are read from one or more ASCII digits with an optional sign. Leading zeros are allowed;
blanks, separators and digits of other scripts are not. A sign of minus is accepted for signed
types only, and a value outside the type's range is no numeral of that type.
-/

namespace Concolic.Numeral

def isDigit (character : Char) : Bool :=
  '0' ≤ character && character ≤ '9'

def digitValue (character : Char) : Nat :=
  character.toNat - '0'.toNat

/-- The number a sequence of digits denotes. -/
def ofDigits (digits : List Char) : Nat :=
  digits.foldl (fun value digit => 10 * value + digitValue digit) 0

/-- Reads a non-empty sequence of digits. -/
def natural? (text : List Char) : Option Nat :=
  if !text.isEmpty && text.all isDigit then some (ofDigits text) else none

/-- Reads digits after an optional plus sign. -/
def unsigned? : List Char → Option Nat
  | '+' :: digits => natural? digits
  | digits => natural? digits

/-- Reads digits after an optional sign. -/
def signed? : List Char → Option Int
  | '-' :: digits => (natural? digits).map fun magnitude => -(magnitude : Int)
  | '+' :: digits => (natural? digits).map Int.ofNat
  | digits => (natural? digits).map Int.ofNat

def uint32? (text : List Char) : Option UInt32 :=
  (unsigned? text).bind fun value =>
    if h : value < UInt32.size then some (UInt32.ofNatLT value h) else none

def uint64? (text : List Char) : Option UInt64 :=
  (unsigned? text).bind fun value =>
    if h : value < UInt64.size then some (UInt64.ofNatLT value h) else none

def within (low high value : Int) : Bool :=
  low ≤ value && value ≤ high

def int32Range : Int × Int := (-2147483648, 2147483647)

def int64Range : Int × Int := (-9223372036854775808, 9223372036854775807)

def int64? (text : List Char) : Option Int64 :=
  (signed? text).bind fun value =>
    if within int64Range.1 int64Range.2 value then some (Int64.ofInt value) else none

def int32? (text : List Char) : Option Int32 :=
  (signed? text).bind fun value =>
    if within int32Range.1 int32Range.2 value then some (Int32.ofInt value) else none

/-- The digits of a number, without leading zeros. -/
def digits (value : Nat) : List Char :=
  Nat.toDigits 10 value

/-- The numeral of an integer: its digits, after a minus sign if it is negative. -/
def ofInt : Int → List Char
  | .ofNat value => digits value
  | .negSucc predecessor => '-' :: digits (predecessor + 1)

def text (value : Int) : String :=
  String.ofList (ofInt value)

end Concolic.Numeral
