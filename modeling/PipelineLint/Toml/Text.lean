import PipelineLint.Text.Digits
import PipelineLint.Toml.Basic

set_option autoImplicit false

/-! # TOML strings

The four forms of strings: in double quotes, where a backslash starts an escape, or in single
quotes, where every character stands for itself; and each of them in one or in three quotes, where
the latter may go over several lines. Every function here gets the text after the opening quotes
and returns the content and the text after the closing quotes. -/

namespace PipelineLint.Toml

/-- Whether a character may stand in a comment: no control character but the tab. -/
def isPrintable (c : Char) : Bool :=
  c == '\t' || (c.toNat ≥ 0x20 && c.toNat ≠ 0x7F)

/-- The space and the tab, which may stand between any two tokens. -/
def isSpace (c : Char) : Bool :=
  c == ' ' || c == '\t'

/-- What follows a line end at the start of a text; a carriage return ends a line only together
    with a line feed. -/
def afterLineEnd? : List Char → Option (List Char)
  | '\n' :: rest => some rest
  | '\r' :: '\n' :: rest => some rest
  | _ => none

/-- The character whose code point hexadecimal digits spell. -/
def ofCodePoint? (digits : List Char) : Option Char := do
  guard (digits.all (Text.isDigitIn 16))
  let n := Text.ofDigits 16 digits
  if n.isValidChar then some (Char.ofNat n) else none

/-- The character that a one-letter escape stands for. -/
def escapeLetter? : Char → Option Char
  | 'b' => some '\x08'
  | 't' => some '\t'
  | 'n' => some '\n'
  | 'f' => some '\x0c'
  | 'r' => some '\r'
  | '"' => some '"'
  | '\\' => some '\\'
  | _ => none

/-- The end of a string in three quotes, where one quote has just been read. Up to two quotes
    directly before the closing ones belong to the content. The result has their number and the
    text after the closing quotes. -/
def closing? (quote : Char) : List Char → Option (Nat × List Char)
  | a :: b :: rest =>
    if a == quote && b == quote then
      match rest with
      | c :: d :: rest' =>
        if c == quote && d == quote then some (2, rest')
        else if c == quote then some (1, d :: rest')
        else some (0, rest)
      | [c] => if c == quote then some (1, []) else some (0, rest)
      | [] => some (0, [])
    else none
  | _ => none

/-- Read a string in double quotes, in three of them if `multiline`. `done` holds what has been
    read, the last character first. While `skipping`, spaces and line ends are dropped; that is so
    after a backslash at the end of a line. -/
def basicText (multiline skipping : Bool) (done : List Char) :
    List Char → Option (List Char × List Char)
  | [] => none
  | '\\' :: 'u' :: a :: b :: c :: d :: rest =>
    match ofCodePoint? [a, b, c, d] with
    | some char => basicText multiline false (char :: done) rest
    | none => none
  | '\\' :: 'U' :: a :: b :: c :: d :: e :: f :: g :: h :: rest =>
    match ofCodePoint? [a, b, c, d, e, f, g, h] with
    | some char => basicText multiline false (char :: done) rest
    | none => none
  | '\\' :: letter :: rest =>
    match escapeLetter? letter with
    | some char => basicText multiline false (char :: done) rest
    | none =>
      if multiline && (afterLineEnd? ((letter :: rest).dropWhile isSpace)).isSome then
        basicText multiline true done rest
      else none
  | '\r' :: '\n' :: rest =>
    if multiline then basicText multiline skipping (if skipping then done else '\n' :: done) rest
    else none
  | c :: rest =>
    if c == '"' then
      if multiline then
        match closing? '"' rest with
        | some (quotes, rest) => some ((List.replicate quotes '"' ++ done).reverse, rest)
        | none => basicText multiline false ('"' :: done) rest
      else some (done.reverse, rest)
    else if skipping && (isSpace c || c == '\n') then basicText multiline true done rest
    else if (isPrintable c && c != '\\') || (multiline && c == '\n') then
      basicText multiline false (c :: done) rest
    else none

/-- Read a string in single quotes, in three of them if `multiline`. -/
def literalText (multiline : Bool) (done : List Char) : List Char → Option (List Char × List Char)
  | [] => none
  | '\r' :: '\n' :: rest =>
    if multiline then literalText multiline ('\n' :: done) rest else none
  | c :: rest =>
    if c == '\'' then
      if multiline then
        match closing? '\'' rest with
        | some (quotes, rest) => some ((List.replicate quotes '\'' ++ done).reverse, rest)
        | none => literalText multiline ('\'' :: done) rest
      else some (done.reverse, rest)
    else if isPrintable c || (multiline && c == '\n') then literalText multiline (c :: done) rest
    else none

/-- Read a string in one quote of either sort. -/
def lineText? : List Char → Option (List Char × List Char)
  | '"' :: rest => basicText false false [] rest
  | '\'' :: rest => literalText false [] rest
  | _ => none

/-- Read a string of any form. A line end directly after three opening quotes is dropped. -/
def text? : List Char → Option (List Char × List Char)
  | '"' :: '"' :: '"' :: rest => basicText true false [] ((afterLineEnd? rest).getD rest)
  | '\'' :: '\'' :: '\'' :: rest => literalText true [] ((afterLineEnd? rest).getD rest)
  | text => lineText? text

end PipelineLint.Toml
