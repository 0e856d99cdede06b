import PipelineLint.Toml.Numeral
import PipelineLint.Toml.Table

set_option autoImplicit false

/-! # Reading TOML

The table that a TOML text denotes. Arrays and inline tables may stand inside one another at most
`nestingLimit` deep, and a dotted key has at most that many parts. Reading a list of something goes
on as long as there is text left, so the length of the text bounds it. -/

namespace PipelineLint.Toml

/-- The number of arrays and inline tables that may stand inside one another. -/
def nestingLimit : Nat := 79

/-- Text without the spaces it starts with. -/
def skipSpaces (text : List Char) : List Char :=
  text.dropWhile isSpace

/-- Text without the spaces, line ends and comments it starts with. -/
def skipFiller (inComment : Bool) : List Char → List Char
  | [] => []
  | '\r' :: '\n' :: rest => skipFiller false rest
  | c :: rest =>
    if c == '\n' then skipFiller false rest
    else if inComment then if isPrintable c then skipFiller true rest else c :: rest
    else if isSpace c then skipFiller false rest
    else if c == '#' then skipFiller true rest
    else c :: rest

/-- What follows the end of a statement: spaces, an optional comment, and the end of the line or of
    the text. -/
def afterStatement? (text : List Char) : Option (List Char) :=
  let text := match skipSpaces text with
    | '#' :: rest => rest.dropWhile isPrintable
    | rest => rest
  if text.isEmpty then some [] else afterLineEnd? text

/-! ## Keys -/

/-- Whether a character may stand in a key without quotes. -/
def isBareKeyChar (c : Char) : Bool :=
  c.isAlphanum || c == '_' || c == '-'

/-- One part of a key. -/
def keyPart? (text : List Char) : Option (String × List Char) :=
  match lineText? text with
  | some (part, rest) => some (String.ofList part, rest)
  | none =>
    match text.span isBareKeyChar with
    | ([], _) => none
    | (part, rest) => some (String.ofList part, rest)

/-- The parts of a key, with dots between them; there are at most `fuel` parts. -/
def keyParts? : (fuel : Nat) → List Char → Option (List String × List Char)
  | 0, _ => none
  | fuel + 1, text => do
    let (part, rest) ← keyPart? (skipSpaces text)
    match skipSpaces rest with
    | '.' :: rest => do
      let (parts, rest) ← keyParts? fuel rest
      return (part :: parts, rest)
    | rest => return ([part], rest)

/-- A key, given as the path of tables it goes through and its last part. -/
def key? (text : List Char) : Option (List String × String × List Char) := do
  let (parts, rest) ← keyParts? nestingLimit text
  return (parts.dropLast, ← parts.getLast?, rest)

/-! ## Values -/

/-- A value that is neither an array nor an inline table. -/
def scalar? (text : List Char) : Option (Toml × List Char) :=
  match text with
  | 't' :: 'r' :: 'u' :: 'e' :: rest => some (.boolean true, rest)
  | 'f' :: 'a' :: 'l' :: 's' :: 'e' :: rest => some (.boolean false, rest)
  | '"' :: _ | '\'' :: _ => (text? text).map fun (content, rest) =>
    (.string (String.ofList content), rest)
  | text =>
    match dateTime? text with
    | some rest => some (.dateTime, rest)
    | none => (float? text <|> integer? text).map (.number, ·)

/-- The items of an array, after its opening bracket or a comma in it. A comma may stand before the
    closing bracket. -/
def items? (value? : List Char → Option (Toml × List Char)) :
    (fuel : Nat) → List Char → Option (List Toml × List Char)
  | 0, _ => none
  | fuel + 1, text =>
    match skipFiller false text with
    | ']' :: rest => some ([], rest)
    | text => do
      let (item, rest) ← value? text
      match skipFiller false rest with
      | ']' :: rest => return ([item], rest)
      | ',' :: rest => do
        let (items, rest) ← items? value? fuel rest
        return (item :: items, rest)
      | _ => none

/-- The assignments in an inline table, after its opening brace or a comma in it. No comma may
    stand before the closing brace. -/
def pairs? (value? : List Char → Option (Toml × List Char)) :
    (fuel : Nat) → (entries : Entries) → List Char → Option (Entries × List Char)
  | 0, _, _ => none
  | fuel + 1, entries, text => do
    let (path, key, rest) ← key? text
    let (value, rest) ← value? (skipSpaces (← after? '=' rest))
    let entries ← assign path key value entries
    match skipSpaces rest with
    | '\x7d' :: rest => return (entries, rest)
    | ',' :: rest => pairs? value? fuel entries rest
    | _ => none

/-- A value, in which at most `room` arrays and inline tables stand inside one another. -/
def value? : (room : Nat) → List Char → Option (Toml × List Char)
  | 0, '[' :: _ => none
  | 0, '\x7b' :: _ => none
  | room + 1, '[' :: rest => do
    let (items, rest) ← items? (value? room) (rest.length + 1) rest
    return (.array items, rest)
  | room + 1, '\x7b' :: rest =>
    match skipSpaces rest with
    | '\x7d' :: rest => some (.table .inline [], rest)
    | rest => do
      let (entries, rest) ← pairs? (value? room) (rest.length + 1) [] rest
      return (.table .inline entries, rest)
  | _, text => scalar? text

/-! ## Statements -/

/-- A statement and the text after it, where the text does not start with a space. -/
def statement? : List Char → Option (Statement × List Char)
  | '[' :: '[' :: rest => do
    let (path, key, rest) ← key? rest
    let rest ← after? ']' (← after? ']' rest)
    return (.furtherHeader path key, ← afterStatement? rest)
  | '[' :: rest => do
    let (path, key, rest) ← key? rest
    return (.header path key, ← afterStatement? (← after? ']' rest))
  | text => do
    let (path, key, rest) ← key? text
    let (value, rest) ← value? nestingLimit (skipSpaces (← after? '=' rest))
    return (.assignment path key value, ← afterStatement? rest)

/-- The statements of a text. -/
def statements? : (fuel : Nat) → List Char → Option (List Statement)
  | 0, _ => none
  | fuel + 1, text =>
    match skipSpaces text with
    | [] => some []
    | '#' :: rest => do statements? fuel (← afterStatement? ('#' :: rest))
    | text =>
      match afterLineEnd? text with
      | some rest => statements? fuel rest
      | none => do
        let (statement, rest) ← statement? text
        return statement :: (← statements? fuel rest)

/-- The table that a text denotes; a byte order mark at its start is skipped. -/
def parse? (text : String) : Option Entries := do
  let text := match text.toList with
    | '\ufeff' :: rest => rest
    | text => text
  ofStatements? (← statements? (text.length + 1) text)

end PipelineLint.Toml
