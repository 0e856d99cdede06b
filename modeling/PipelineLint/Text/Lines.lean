import PipelineLint.Position
import PipelineLint.Text.Blank
import PipelineLint.Text.Bytes

set_option autoImplicit false

/-! # Lines of a source text

Going from positions to byte offsets in a source text, and from offsets to lines as people see
them.

For positions a line ends with its line feed. The content of a line is what stands before the run
of carriage returns and the line feed at its end. A position past the content of its line means the
end of the content, and one on a line that does not exist means the end of the text. There is no
line after a final line feed. -/

namespace PipelineLint.Text

/-! ## From positions to offsets -/

/-- The text from the start of a line on, and the number of bytes before it; `passed` bytes have
    been passed already. Nothing if the line does not exist. -/
def lineStart? : (line passed : Nat) → List Char → Option (Nat × List Char)
  | _, _, [] => none
  | 0, passed, text => some (passed, text)
  | line + 1, passed, c :: rest =>
    if c = '\n' then lineStart? line (passed + c.utf8Size) rest
    else lineStart? (line + 1) (passed + c.utf8Size) rest

/-- The content of the line that a text starts with. -/
def lineContent (text : List Char) : List Char :=
  dropEndWhile (· == '\r') (text.takeWhile (· != '\n'))

/-- The byte offset of a position in a source text. -/
def byteOffset (source : List Char) (p : Position) : Nat :=
  match lineStart? p.line.toNat 0 source with
  | some (start, text) => start + byteLength ((lineContent text).take p.character.toNat)
  | none => byteLength source

/-! ## From offsets to lines -/

/-- Whether a character ends a line as people see it. -/
def isLineEnd (c : Char) : Bool :=
  ['\n', '\r', '\x0b', '\x0c', '\u0085', '\u2028', '\u2029'].contains c

/-- The line and column, counted from one, of the place after `offset` more characters, where the
    text goes on at `line` and `column`. A carriage return and a line feed end one line together,
    and there is no line after the last line end. -/
def locateFrom? : (offset line column : Nat) → List Char → Option (Nat × Nat)
  | 0, line, column, _ => some (line, column)
  | _ + 1, _, _, [] => none
  | offset + 1, line, column, c :: rest =>
    if isLineEnd c && !rest.isEmpty && !(c == '\r' && rest.head? == some '\n') then
      locateFrom? offset (line + 1) 1 rest
    else locateFrom? offset line (column + 1) rest

/-- The line and column, counted from one, of the place after `offset` characters of a text. A text
    without characters has no lines, and so no places. -/
def locate? (offset : Nat) (text : List Char) : Option (Nat × Nat) :=
  if text.isEmpty then none else locateFrom? offset 1 1 text

end PipelineLint.Text
