import Concolic.Decimal.Double
import Concolic.Json.Value
import Concolic.Text.Numeral

/-!
# Tokens of JSON text

Text is cut into tokens before it is parsed. Strings and numbers are checked for their form here,
so that what is left to the parser is structure alone. A string or number that is well formed but
stands for no value becomes a token without a value.
-/

namespace Concolic.Json

/-- A token of JSON text. -/
inductive Token where
  | openArray
  | closeArray
  | openObject
  | closeObject
  | colon
  | comma
  | null
  | bool (value : Bool)
  | number (value : Option Number)
  | string (text : Option String)

/-! ## Strings -/

def hexDigit? (digit : Char) : Option Nat :=
  if '0' ≤ digit ∧ digit ≤ '9' then some (digit.toNat - 48)
  else if 'a' ≤ digit ∧ digit ≤ 'f' then some (digit.toNat - 87)
  else if 'A' ≤ digit ∧ digit ≤ 'F' then some (digit.toNat - 55)
  else none

def hexUnit? (first second third fourth : Char) : Option Nat := do
  return ((← hexDigit? first) * 4096 + (← hexDigit? second) * 256 + (← hexDigit? third) * 16
    + (← hexDigit? fourth))

/-- The character of a one-letter escape. -/
def shortEscape? : Char → Option Char
  | '"' => some '"'
  | '\\' => some '\\'
  | '/' => some '/'
  | 'b' => some '\x08'
  | 'f' => some '\x0c'
  | 'n' => some '\n'
  | 'r' => some '\r'
  | 't' => some '\t'
  | _ => none

/-- One piece of a string: a character, or a number from a hexadecimal escape. -/
inductive Piece where
  | char (value : Char)
  | unit (value : Nat)

/-- The pieces of a string up to its closing quote, latest first, and the text after the quote. -/
def scanString : List Char → List Piece → Option (List Piece × List Char)
  | '"' :: rest, pieces => some (pieces, rest)
  | '\\' :: 'u' :: first :: second :: third :: fourth :: rest, pieces =>
      match hexUnit? first second third fourth with
      | some value => scanString rest (.unit value :: pieces)
      | none => none
  | '\\' :: letter :: rest, pieces =>
      match shortEscape? letter with
      | some value => scanString rest (.char value :: pieces)
      | none => none
  | character :: rest, pieces =>
      if character.toNat < 32 || character = '\\' then none
      else scanString rest (.char character :: pieces)
  | [], _ => none

/-- Joins pieces into characters. A unit between `0xD800` and `0xDBFF` must be followed by one
between `0xDC00` and `0xDFFF`, and the latter stands nowhere else. -/
def joinPieces : List Piece → List Char → Option (List Char)
  | [], joined => some joined.reverse
  | .char value :: rest, joined => joinPieces rest (value :: joined)
  | .unit high :: rest, joined =>
      if 0xD800 ≤ high ∧ high < 0xDC00 then
        match rest with
        | .unit low :: rest =>
            if 0xDC00 ≤ low ∧ low < 0xE000 then
              joinPieces rest
                (Char.ofNat (0x10000 + (high - 0xD800) * 0x400 + (low - 0xDC00)) :: joined)
            else
              none
        | _ => none
      else if 0xDC00 ≤ high ∧ high < 0xE000 then none
      else joinPieces rest (Char.ofNat high :: joined)

/-! ## Numbers -/

/-- The parts of a written number. -/
structure Numeral where
  negative : Bool
  whole : List Char
  decimals : List Char
  /-- The sign and the digits of the exponent. -/
  exponent : Option (Bool × List Char)
  /-- Whether there is neither a point nor an exponent. -/
  isWhole : Bool

/-- Reads the digits after a point or an exponent letter, of which there must be one. -/
def someDigits? (text : List Char) : Option (List Char × List Char) :=
  match text.takeWhile Concolic.Numeral.isDigit with
  | [] => none
  | digits => some (digits, text.dropWhile Concolic.Numeral.isDigit)

/-- Reads a number. A leading zero stands alone, and digits surround a point. -/
def scanNumber (text : List Char) : Option (Numeral × List Char) := do
  let (negative, unsigned) :=
    match text with
    | '-' :: rest => (true, rest)
    | rest => (false, rest)
  let (whole, afterWhole) ← someDigits? unsigned
  guard (whole.length = 1 || whole.head? ≠ some '0')
  let (decimals, afterDecimals) ←
    match afterWhole with
    | '.' :: rest => someDigits? rest
    | rest => some ([], rest)
  let (exponent, rest) ←
    match afterDecimals with
    | 'e' :: rest | 'E' :: rest =>
        let (minus, digits) :=
          match rest with
          | '-' :: rest => (true, rest)
          | '+' :: rest => (false, rest)
          | rest => (false, rest)
        (someDigits? digits).map fun (digits, rest) => (some (minus, digits), rest)
    | rest => some (none, rest)
  return ({ negative, whole, decimals, exponent,
            isWhole := decimals.isEmpty && exponent.isNone }, rest)

/-- Appends digits to a significand as long as it stays below `2 ^ 64`. Returns the significand
and the number of digits taken; the rest is dropped. -/
def takeDigits (significand : Nat) : List Char → Nat × Nat
  | [] => (significand, 0)
  | digit :: rest =>
      let extended := 10 * significand + Concolic.Numeral.digitValue digit
      if extended < UInt64.size then
        let (final, taken) := takeDigits extended rest
        (final, taken + 1)
      else
        (significand, 0)

/-- Scales a significand by a power of ten, one multiplication or division at a time, with powers up
to `10 ^ 308`. The steps are those of double arithmetic. A result beyond the greatest double is
none. -/
def scale? (significand : Float) (exponent : Int) : Option Float :=
  let power (exponent : Nat) : Float := Decimal.nearest false 1 exponent
  if significand == 0 then some significand
  else if 0 ≤ exponent then
    if exponent ≤ 308 then
      let product := significand * power exponent.toNat
      if product.isInf then none else some product
    else
      none
  else
    let steps := (-exponent).toNat
    -- Four divisions by `10 ^ 308` leave nothing of any significand below `2 ^ 64`.
    if steps ≤ 308 then some (significand / power steps)
    else if steps ≤ 616 then some (significand / power 308 / power (steps - 308))
    else some 0

/-- The value of a number that is not taken as an integer. A significand keeps the digits that fit
into 64 bits, those of the whole part first. -/
def Numeral.real? (numeral : Numeral) : Option Float := do
  let (whole, taken) := takeDigits 0 numeral.whole
  let (significand, decimals) := takeDigits whole numeral.decimals
  let place : Int := (numeral.whole.length - taken : Nat) - (decimals : Int)
  let exponent : Int :=
    match numeral.exponent with
    | none => 0
    | some (true, digits) => -(Concolic.Numeral.ofDigits digits : Int)
    | some (false, digits) => Concolic.Numeral.ofDigits digits
  let magnitude ← scale? (UInt64.ofNat significand).toFloat (place + exponent)
  return if numeral.negative then -magnitude else magnitude

/-- The value of a number. Zero with a minus sign is no integer. -/
def Numeral.value? (numeral : Numeral) : Option Number :=
  let magnitude := Concolic.Numeral.ofDigits numeral.whole
  if numeral.isWhole && !numeral.negative && magnitude < UInt64.size then
    some (.integer magnitude)
  else if numeral.isWhole && numeral.negative && 0 < magnitude && magnitude ≤ Nat.pow 2 63 then
    some (.integer (-magnitude))
  else
    numeral.real?.map .real

/-! ## The lexer -/

/-- Whether a character may stand between tokens. -/
def isSpace (character : Char) : Bool :=
  character = ' ' || character = '\t' || character = '\n' || character = '\r'

/-- The first token of a text that does not start with a space, and what follows it. -/
def nextToken? : List Char → Option (Token × List Char)
  | '[' :: rest => some (.openArray, rest)
  | ']' :: rest => some (.closeArray, rest)
  | '\x7b' :: rest => some (.openObject, rest)
  | '\x7d' :: rest => some (.closeObject, rest)
  | ':' :: rest => some (.colon, rest)
  | ',' :: rest => some (.comma, rest)
  | 'n' :: 'u' :: 'l' :: 'l' :: rest => some (.null, rest)
  | 't' :: 'r' :: 'u' :: 'e' :: rest => some (.bool true, rest)
  | 'f' :: 'a' :: 'l' :: 's' :: 'e' :: rest => some (.bool false, rest)
  | '"' :: rest =>
      (scanString rest []).map fun (pieces, rest) =>
        (.string ((joinPieces pieces.reverse []).map String.ofList), rest)
  | text => (scanNumber text).map fun (numeral, rest) => (.number numeral.value?, rest)

/-- The tokens of a text; `fuel` bounds their number. -/
def tokenize : (fuel : Nat) → List Char → Option (List Token)
  | _, [] => some []
  | 0, _ :: _ => none
  | fuel + 1, character :: rest =>
      if isSpace character then tokenize fuel rest
      else
        match nextToken? (character :: rest) with
        | some (token, rest) => (tokenize fuel rest).map (token :: ·)
        | none => none

/-- The tokens of a text. Each takes at least one character, so the length of the text bounds their
number. -/
def tokens? (text : List Char) : Option (List Token) :=
  tokenize text.length text

end Concolic.Json
