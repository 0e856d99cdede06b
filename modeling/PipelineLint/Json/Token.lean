import PipelineLint.Json.Numeral

set_option autoImplicit false

/-! # JSON tokens

Cutting a JSON text into tokens, one character at a time. `Lexer.step` is the transition for one
character, so the tokens of a text are a fold over its characters.

A numeral or a word ends at the first character that cannot belong to it, and that character then
starts the next token; no blank is needed between tokens. Inside a string every character from
U+0020 on stands for itself, a backslash starts an escape, and two escapes that spell a surrogate
pair stand for one character. -/

namespace PipelineLint.Json

/-- A piece of a JSON text. -/
inductive Token where
  | openArray
  | closeArray
  | openObject
  | closeObject
  | colon
  | comma
  /-- A string; `none` if it holds half of a surrogate pair. -/
  | text (value : Option String)
  /-- Any other scalar. -/
  | scalar (value : Json)
deriving Inhabited

/-! ## Strings -/

/-- What has been read of a string. -/
structure PartialText where
  /-- The characters so far, the last one first. -/
  characters : List Char := []
  /-- The first half of a surrogate pair, if it was the last thing read. -/
  half : Option Nat := none
  /-- Whether a half of a pair has been left alone. -/
  broken : Bool := false
deriving Inhabited

namespace PartialText

/-- Append a character. -/
def push (text : PartialText) (c : Char) : PartialText :=
  { characters := c :: text.characters, broken := text.broken || text.half.isSome }

/-- Append what an escape with the number of a code unit stands for. -/
def pushUnit (text : PartialText) (unit : Nat) : PartialText :=
  if 0xD800 ≤ unit && unit < 0xDC00 then
    { text with half := some unit, broken := text.broken || text.half.isSome }
  else if 0xDC00 ≤ unit && unit < 0xE000 then
    match text.half with
    | some first =>
      { text with
        characters := Char.ofNat (0x10000 + (first - 0xD800) * 0x400 + (unit - 0xDC00))
          :: text.characters
        half := none }
    | none => { text with broken := true }
  else text.push (Char.ofNat unit)

/-- The finished string, if all of its escapes denote characters. -/
def finish (text : PartialText) : Option String :=
  if text.broken || text.half.isSome then none
  else some (String.ofList text.characters.reverse)

end PartialText

/-! ## The transitions -/

/-- What is being read. -/
inductive Mode where
  | between
  /-- A word such as `true`, its last letter first. -/
  | word (letters : List Char)
  /-- A numeral, its last character first. -/
  | numeral (characters : List Char)
  | text (content : PartialText)
  /-- Just after the character that starts an escape. -/
  | escape (content : PartialText)
  /-- Inside an escape that gives a code unit, so far `unit`, with `left` digits to come. -/
  | unit (content : PartialText) (unit left : Nat)
deriving Inhabited

/-- The state between two characters: the mode and the finished tokens, the last one first. -/
structure Lexer where
  mode : Mode := .between
  tokens : List Token := []
deriving Inhabited

/-- The character that a one-letter escape stands for. -/
def escaped? : Char → Option Char
  | '"' => some '"'
  | '\\' => some '\\'
  | '/' => some '/'
  | 'b' => some '\x08'
  | 'f' => some '\x0c'
  | 'n' => some '\n'
  | 'r' => some '\r'
  | 't' => some '\t'
  | _ => none

/-- The scalar that a word spells. -/
def ofWord? (letters : List Char) : Option Json :=
  match String.ofList letters with
  | "null" => some .null
  | "true" => some (.bool true)
  | "false" => some (.bool false)
  | _ => none

namespace Lexer

/-- Whether a character can stand in a numeral. -/
def isNumeralChar (c : Char) : Bool :=
  c.isDigit || c == '-' || c == '+' || c == '.' || c == 'e' || c == 'E'

/-- Read a character that starts a token or stands between tokens. -/
def start (tokens : List Token) (c : Char) : Option Lexer :=
  match c with
  | ' ' | '\t' | '\n' | '\r' => some { tokens }
  | '[' => some { tokens := .openArray :: tokens }
  | ']' => some { tokens := .closeArray :: tokens }
  | '\x7b' => some { tokens := .openObject :: tokens }
  | '\x7d' => some { tokens := .closeObject :: tokens }
  | ':' => some { tokens := .colon :: tokens }
  | ',' => some { tokens := .comma :: tokens }
  | '"' => some { mode := .text {}, tokens }
  | c =>
    if c.isDigit || c == '-' then some { mode := .numeral [c], tokens }
    else if c.isLower then some { mode := .word [c], tokens }
    else none

/-- End the numeral or word that is being read. -/
def flush? (lexer : Lexer) : Option (List Token) :=
  match lexer.mode with
  | .between => some lexer.tokens
  | .word letters => do return .scalar (← ofWord? letters.reverse) :: lexer.tokens
  | .numeral characters => do
    return .scalar (← Numeral.ofList? characters.reverse).value :: lexer.tokens
  | _ => none

/-- Read one character. -/
def step (lexer : Lexer) (c : Char) : Option Lexer :=
  match lexer.mode with
  | .between => start lexer.tokens c
  | .word letters =>
    if c.isLower then some { lexer with mode := .word (c :: letters) }
    else do start (← lexer.flush?) c
  | .numeral characters =>
    if isNumeralChar c then some { lexer with mode := .numeral (c :: characters) }
    else do start (← lexer.flush?) c
  | .text content =>
    if c == '"' then some { tokens := .text content.finish :: lexer.tokens }
    else if c == '\\' then some { lexer with mode := .escape content }
    else if c.toNat < 0x20 then none
    else some { lexer with mode := .text (content.push c) }
  | .escape content =>
    if c == 'u' then some { lexer with mode := .unit content 0 4 }
    else do return { lexer with mode := .text (content.push (← escaped? c)) }
  | .unit content unit left => do
    let unit := 16 * unit + (← Text.hexDigit? c)
    if left ≤ 1 then return { lexer with mode := .text (content.pushUnit unit) }
    else return { lexer with mode := .unit content unit (left - 1) }

end Lexer

/-- The tokens of a text. -/
def tokens? (text : List Char) : Option (List Token) := do
  let lexer ← text.foldlM Lexer.step {}
  return (← lexer.flush?).reverse

end PipelineLint.Json
