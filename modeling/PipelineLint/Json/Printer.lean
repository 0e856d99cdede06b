import PipelineLint.Json.Basic

set_option autoImplicit false

/-! # Writing JSON

The text of a JSON value, either on one line or with one item to a line. A number that is no
integer and an undefined literal have no text of their own and are written as `null`; this library
writes neither. -/

namespace PipelineLint.Json

/-- How the items of arrays and objects are laid out. -/
inductive Layout where
  /-- All on one line, without blanks. -/
  | compact
  /-- One to a line, each level indented by two blanks more. -/
  | indented
deriving DecidableEq, Inhabited

/-- A code point below 256 in four hexadecimal digits. -/
def hexUnit (n : Nat) : List Char :=
  ['0', '0', Nat.digitChar (n / 16), Nat.digitChar (n % 16)]

/-- A character as it stands in a string: quote, backslash and control characters are escaped. -/
def escapeChar (c : Char) : List Char :=
  match c with
  | '"' => ['\\', '"']
  | '\\' => ['\\', '\\']
  | '\x08' => ['\\', 'b']
  | '\x0c' => ['\\', 'f']
  | '\n' => ['\\', 'n']
  | '\r' => ['\\', 'r']
  | '\t' => ['\\', 't']
  | c => if c.toNat < 0x20 then '\\' :: 'u' :: hexUnit c.toNat else [c]

/-- A string with its quotes. -/
def quote (text : String) : String :=
  String.ofList ('"' :: text.toList.flatMap escapeChar ++ ['"'])

namespace Layout

/-- What stands before an item at this depth of nesting. -/
def lineBreak (layout : Layout) (depth : Nat) : String :=
  match layout with
  | compact => ""
  | indented => "\n" ++ String.ofList (List.replicate (2 * depth) ' ')

/-- What stands between the name of a member and its value. -/
def colon : Layout → String
  | compact => ":"
  | indented => ": "

/-- Put brackets around items. -/
def enclose (layout : Layout) (depth : Nat) (opening closing : String) (items : List String) :
    String :=
  if items.isEmpty then opening ++ closing
  else
    opening ++ String.intercalate "," (items.map (layout.lineBreak (depth + 1) ++ ·))
      ++ layout.lineBreak depth ++ closing

end Layout

mutual

/-- The text of a value at this depth of nesting. -/
def renderAt (layout : Layout) (depth : Nat) : Json → String
  | .null | .real | .undefined => "null"
  | .bool true => "true"
  | .bool false => "false"
  | .integer n => Int.repr n
  | .string text => quote text
  | .array items => layout.enclose depth "[" "]" (renderItems layout (depth + 1) items)
  | .object members =>
    layout.enclose depth "\x7b" "\x7d" (renderMembers layout (depth + 1) members)

/-- The texts of the items of an array. -/
def renderItems (layout : Layout) (depth : Nat) : List Json → List String
  | [] => []
  | item :: rest => renderAt layout depth item :: renderItems layout depth rest

/-- The texts of the members of an object. -/
def renderMembers (layout : Layout) (depth : Nat) : List (String × Json) → List String
  | [] => []
  | (name, value) :: rest =>
    (quote name ++ layout.colon ++ renderAt layout depth value)
      :: renderMembers layout depth rest

end

/-- The text of a value. -/
def render (layout : Layout) (value : Json) : String :=
  renderAt layout 0 value

end PipelineLint.Json
