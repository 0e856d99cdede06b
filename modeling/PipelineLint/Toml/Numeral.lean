import PipelineLint.Double
import PipelineLint.Toml.Text

set_option autoImplicit false

/-! # TOML numbers and times

Which spellings of integers, floats, dates and times are right. Every function gets a text and
returns what follows the longest number or time it starts with. An integer must fit into 64 bits
with sign and a float must not exceed the range of double precision upwards; a date must exist. -/

namespace PipelineLint.Toml

/-! ## Digits -/

/-- Further digits, where one has just been read; an underscore may stand between two digits. The
    result has the digits without underscores and the text after them. -/
def moreDigits (isDigit : Char → Bool) : List Char → List Char × List Char
  | [] => ([], [])
  | '_' :: c :: rest =>
    if isDigit c then
      let (digits, rest) := moreDigits isDigit rest
      (c :: digits, rest)
    else ([], '_' :: c :: rest)
  | c :: rest =>
    if isDigit c then
      let (digits, rest) := moreDigits isDigit rest
      (c :: digits, rest)
    else ([], c :: rest)

/-- One or more digits. -/
def digits? (isDigit : Char → Bool) : List Char → Option (List Char × List Char)
  | c :: rest =>
    if isDigit c then
      let (digits, rest) := moreDigits isDigit rest
      some (c :: digits, rest)
    else none
  | [] => none

/-- An optional sign: whether it is a minus, and the text after it. -/
def sign : List Char → Bool × List Char
  | '-' :: rest => (true, rest)
  | '+' :: rest => (false, rest)
  | rest => (false, rest)

/-- Decimal digits with an optional sign and without a needless leading zero. -/
def signedDigits? (text : List Char) : Option (Bool × List Char × List Char) :=
  let (negative, text) := sign text
  match text with
  | '0' :: rest => some (negative, ['0'], rest)
  | text => do
    let (digits, rest) ← digits? Char.isDigit text
    return (negative, digits, rest)

/-! ## Integers -/

/-- An integer in another base than ten, after the two characters that name the base. -/
def basedInteger? (base : Nat) (text : List Char) : Option (List Char) := do
  let (digits, rest) ← digits? (Text.isDigitIn base) text
  guard (Text.ofDigits base digits < Nat.pow 2 63)
  return rest

/-- What follows an integer. -/
def integer? : List Char → Option (List Char)
  | '0' :: 'x' :: rest => basedInteger? 16 rest
  | '0' :: 'o' :: rest => basedInteger? 8 rest
  | '0' :: 'b' :: rest => basedInteger? 2 rest
  | text => do
    let (negative, digits, rest) ← signedDigits? text
    let magnitude := Text.ofDigits 10 digits
    guard (magnitude < Nat.pow 2 63 || (negative && magnitude = Nat.pow 2 63))
    return rest

/-! ## Floats -/

/-- Whether `digits` times ten to the power `scale` rounds to infinity in double precision. -/
def exceedsDouble (digits : List Char) (scale : Int) : Bool :=
  let digits := digits.dropWhile (· == '0')
  let magnitude : Int := digits.length + scale
  if digits.isEmpty || magnitude ≤ Double.largestPowerOfTen then false
  else if magnitude > Double.largestPowerOfTen + 1 then true
  else
    Text.ofDigits 10 digits * Nat.pow 10 scale.toNat ≥ Double.limit * Nat.pow 10 (-scale).toNat

/-- An exponent: its value and the text after it. -/
def exponent? : List Char → Option (Int × List Char)
  | e :: rest => do
    guard (e == 'e' || e == 'E')
    let (negative, rest) := sign rest
    let (digits, rest) ← digits? Char.isDigit rest
    let magnitude : Int := Text.ofDigits 10 digits
    return (if negative then -magnitude else magnitude, rest)
  | [] => none

/-- A fraction and an optional exponent, or an exponent alone: the digits of the fraction, the
    exponent and the text after them. -/
def fraction? : List Char → Option (List Char × Int × List Char)
  | '.' :: rest => do
    let (digits, rest) ← digits? Char.isDigit rest
    match exponent? rest with
    | some (exponent, rest) => return (digits, exponent, rest)
    | none => return (digits, 0, rest)
  | text => do
    let (exponent, rest) ← exponent? text
    return ([], exponent, rest)

/-- What follows infinity or "not a number". -/
def specialFloat? (text : List Char) : Option (List Char) :=
  match (sign text).2 with
  | 'i' :: 'n' :: 'f' :: rest => some rest
  | 'n' :: 'a' :: 'n' :: rest => some rest
  | _ => none

/-- What follows a float. -/
def float? (text : List Char) : Option (List Char) :=
  match (do
      let (negative, whole, rest) ← signedDigits? text
      let (fraction, exponent, rest) ← fraction? rest
      return (negative, whole ++ fraction, exponent - fraction.length, rest)) with
  | some (negative, digits, scale, rest) =>
    if !negative && exceedsDouble digits scale then none else some rest
  | none => specialFloat? text

/-! ## Dates and times -/

/-- A number of exactly `count` digits from `low` to `high`, and the text after it. -/
def field? (count low high : Nat) (text : List Char) : Option (Nat × List Char) :=
  let digits := text.take count
  let n := Text.ofDigits 10 digits
  if digits.length = count && digits.all Char.isDigit && low ≤ n && n ≤ high then
    some (n, text.drop count)
  else none

/-- What follows a character at the start of a text. -/
def after? (c : Char) : List Char → Option (List Char)
  | first :: rest => if first = c then some rest else none
  | [] => none

/-- The number of days in a month. -/
def daysIn (year month : Nat) : Nat :=
  if month = 2 then
    if year % 4 = 0 && (year % 100 ≠ 0 || year % 400 = 0) then 29 else 28
  else if [4, 6, 9, 11].contains month then 30
  else 31

/-- What follows a date. -/
def date? (text : List Char) : Option (List Char) := do
  let (year, text) ← field? 4 0 9999 text
  let (month, text) ← field? 2 1 12 (← after? '-' text)
  let (_, text) ← field? 2 1 (daysIn year month) (← after? '-' text)
  return text

/-- What follows a time of day. -/
def time? (text : List Char) : Option (List Char) := do
  let (_, text) ← field? 2 0 23 text
  let (_, text) ← field? 2 0 59 (← after? ':' text)
  let (_, text) ← field? 2 0 60 (← after? ':' text)
  match text with
  | '.' :: rest =>
    match rest.span Char.isDigit with
    | ([], _) => return text
    | (_, rest) => return rest
  | text => return text

/-- What follows an optional offset from universal time. -/
def timeOffset (text : List Char) : List Char :=
  match text with
  | 'Z' :: rest => rest
  | 'z' :: rest => rest
  | c :: rest =>
    if c == '+' || c == '-' then
      match (do
          let (_, rest) ← field? 2 0 23 rest
          let (_, rest) ← field? 2 0 59 (← after? ':' rest)
          return rest) with
      | some rest => rest
      | none => text
    else text
  | [] => text

/-- What follows a date, a time of day, or a date and a time. -/
def dateTime? (text : List Char) : Option (List Char) :=
  match date? text with
  | none => time? text
  | some rest =>
    match rest with
    | c :: afterDelimiter =>
      if c == 'T' || c == 't' || c == ' ' then
        match time? afterDelimiter with
        | some rest => some (timeOffset rest)
        | none => some rest
      else some rest
    | [] => some rest

end PipelineLint.Toml
