import PipelineLint.Position
import PipelineLint.Text.Bytes

set_option autoImplicit false

/-! # Cursors

A cursor stands between two characters of a text. It knows the text, what is still to be read, how
many bytes it has read and at which position it stands. It reads one character at a time and never
moves back. -/

namespace PipelineLint

/-- A place of reading in a text. -/
structure Cursor where
  /-- The whole text. -/
  source : List Char
  /-- The part that is still to be read. -/
  rest : List Char
  /-- The number of bytes read. -/
  offset : Nat := 0
  /-- Where the next character stands. -/
  position : Position := {}

namespace Cursor

/-- The cursor at the start of a text. -/
def ofList (text : List Char) : Cursor where
  source := text
  rest := text

/-- The cursor at the start of a text. -/
def ofString (text : String) : Cursor :=
  ofList text.toList

/-- The next character, which is not read by this. -/
def peek? (cursor : Cursor) : Option Char :=
  cursor.rest.head?

/-- The character after the next one. -/
def peekSecond? (cursor : Cursor) : Option Char :=
  cursor.rest.tail.head?

/-- Whether the next two characters are `first`, then `second`. -/
def atPair (cursor : Cursor) (first second : Char) : Bool :=
  cursor.peek? == some first && cursor.peekSecond? == some second

/-- Whether the text is read to its end. -/
def isAtEnd (cursor : Cursor) : Bool :=
  cursor.peek?.isNone

/-- Read one character. At the end of the text nothing is read and nothing changes. -/
def advance (cursor : Cursor) : Option Char × Cursor :=
  match cursor.rest with
  | [] => (none, cursor)
  | c :: rest =>
    (some c,
      { cursor with
        rest := rest
        offset := cursor.offset + c.utf8Size
        position := cursor.position.advance c })

/-- Read `n` times; the character is the one of the last time. -/
def advanceTimes : Nat → Cursor → Option Char × Cursor
  | 0, cursor => (none, cursor)
  | 1, cursor => cursor.advance
  | n + 2, cursor => advanceTimes (n + 1) cursor.advance.2

/-- The part that has been read. -/
def consumed (cursor : Cursor) : List Char :=
  cursor.source.take (cursor.source.length - cursor.rest.length)

/-- What was read since the byte offset `start`; nothing if the cursor has not come so far or the
    offset lies inside a character. -/
def sliceFrom? (cursor : Cursor) (start : Nat) : Option (List Char) :=
  Text.sliceBytes? cursor.source start cursor.offset

end Cursor

end PipelineLint
