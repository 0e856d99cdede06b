import PipelineLint.Double
import PipelineLint.Json.Basic
import PipelineLint.Text.Digits

set_option autoImplicit false

/-! # JSON numerals

The spelling of a number: an optional minus sign, digits without a needless leading zero, an
optional fraction, an optional exponent. `Numeral.ofList?` takes a spelling apart and
`Numeral.value` says what it denotes.

A numeral that is no 64-bit integer is read in double precision, in this way: as many leading
digits as fit into 64 bits form the significand, the digits after them only count towards the
exponent, and the result is the rounded significand times the rounded power of ten. The numeral
denotes nothing when that product exceeds the range of double precision. -/

namespace PipelineLint.Json

/-- The parts of the spelling of a number. -/
structure Numeral where
  negative : Bool
  /-- The digits before the point. -/
  whole : List Char
  /-- The digits after the point; none if there is no point. -/
  fraction : List Char
  /-- Whether the exponent is negative, and its digits. -/
  exponent : Option (Bool × List Char)
deriving Inhabited

/-- The digits at the start of a text and what follows them; there must be a digit. -/
def digits? (text : List Char) : Option (List Char × List Char) :=
  match text.span Char.isDigit with
  | ([], _) => none
  | parts => some parts

namespace Numeral

/-- Take a spelling apart. -/
def ofList? (text : List Char) : Option Numeral := do
  let (negative, text) := match text with
    | '-' :: rest => (true, rest)
    | rest => (false, rest)
  let (whole, text) ← digits? text
  guard (whole.head? ≠ some '0' || whole.length = 1)
  let (fraction, text) ← match text with
    | '.' :: rest => digits? rest
    | rest => some ([], rest)
  let (exponent, text) ← match text with
    | [] => some (none, [])
    | e :: rest => do
      guard (e == 'e' || e == 'E')
      let (down, rest) := match rest with
        | '-' :: rest => (true, rest)
        | '+' :: rest => (false, rest)
        | rest => (false, rest)
      let (digits, rest) ← digits? rest
      some (some (down, digits), rest)
  guard text.isEmpty
  return { negative, whole, fraction, exponent }

/-! ## Double precision -/

/-- The largest exponent that may be spelled out; a longer one decides by its sign alone. -/
def largestExponent : Nat := Nat.pow 2 31 - 1

/-- Append digits to a significand as long as it stays within 64 bits. The result has the number
    of digits appended and the number left over. -/
def extend : (significand : Nat) → List Char → Nat × Nat × Nat
  | significand, [] => (significand, 0, 0)
  | significand, c :: rest =>
    let next := 10 * significand + (Text.hexDigit? c).getD 0
    if next < UInt64.size then
      let (result, taken, left) := extend next rest
      (result, taken + 1, left)
    else (significand, 0, rest.length + 1)

/-- Whether the numeral lies within the range of double precision. -/
def isFinite (numeral : Numeral) : Bool :=
  let (significand, _, left) := extend 0 numeral.whole
  let (significand, taken, _) := extend significand numeral.fraction
  let (down, exponent) := match numeral.exponent with
    | none => (false, 0)
    | some (down, digits) => (down, Text.ofDigits 10 digits)
  if significand = 0 || (down && exponent > largestExponent) then true
  else if exponent > largestExponent then false
  else
    let scale : Int := (left : Int) - taken + (if down then -(exponent : Int) else exponent)
    if scale ≤ 0 then true
    else if scale > Double.largestPowerOfTen then false
    else Double.round significand * Double.round (Nat.pow 10 scale.toNat) < Double.limit

/-! ## The value of a numeral -/

/-- What a numeral denotes. -/
def value (numeral : Numeral) : Json :=
  let magnitude := Text.ofDigits 10 numeral.whole
  let isWhole := numeral.fraction.isEmpty && numeral.exponent.isNone
  if isWhole && !numeral.negative && magnitude < UInt64.size then .integer magnitude
  else if isWhole && numeral.negative && magnitude ≠ 0 && magnitude ≤ Nat.pow 2 63 then
    .integer (-(magnitude : Int))
  else if numeral.isFinite then .real
  else .undefined

end Numeral

end PipelineLint.Json
