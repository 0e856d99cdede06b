import PipelineLint.Diagnostic
import PipelineLint.Json.Basic
import PipelineLint.Text.Lines

set_option autoImplicit false

/-! # Writing diagnostics

The two forms in which diagnostics are shown: as JSON, and as lines for people. The lines say what
is wrong and, if that place can be shown in the source text, where and what to do about it. -/

namespace PipelineLint

/-! ## JSON -/

/-- A position as JSON. -/
def Position.toJson (p : Position) : Json :=
  .object [("line", .integer p.line.toNat), ("character", .integer p.character.toNat)]

/-- A range as JSON. -/
def Range.toJson (range : Range) : Json :=
  .object [("start", range.start.toJson), ("end", range.stop.toJson)]

/-- A diagnostic as JSON; what it does not have is left out. -/
def Diagnostic.toJson (diagnostic : Diagnostic) : Json :=
  .object
    ([("severity", .string diagnostic.severity.name), ("message", .string diagnostic.message)]
      ++ (diagnostic.range.map fun range => ("range", range.toJson)).toList
      ++ (diagnostic.suggestion.map fun text => ("suggestion", .string text)).toList)

/-! ## Lines -/

/-- The title of a severity in front of a message. -/
def Severity.title : Severity → String
  | error => "Error"
  | warning => "Warning"

/-- The place in a source text where a range starts, as `[file:line:column]`. The range is taken to
    hold one character at least; it has a place only if its first and its last one are places of the
    text, and an empty text has none. -/
def Range.location? (range : Range) (source : List Char) (file : String) : Option String := do
  let first := Text.byteOffset source range.start
  let stop := max (Text.byteOffset source range.stop) (first + 1)
  let (line, column) ← Text.locate? first source
  let _ ← Text.locate? (stop - 1) source
  return "[" ++ file ++ ":" ++ line.repr ++ ":" ++ column.repr ++ "]"

/-- A diagnostic about a file with a source text, in lines. The suggestion goes with the place: if
    that cannot be shown, neither is. A diagnostic about no range is written plainly. -/
def Diagnostic.lines (diagnostic : Diagnostic) (source : List Char) (file : String) :
    List String :=
  match diagnostic.range with
  | some range =>
    let title := diagnostic.severity.title ++ ": " ++ diagnostic.message
    match range.location? source file with
    | some place => title :: place :: (diagnostic.suggestion.map ("Help: " ++ ·)).toList
    | none => [title]
  | none =>
    let title := diagnostic.severity.name ++ ": " ++ diagnostic.message
    title :: (diagnostic.suggestion.map ("   = help: " ++ ·)).toList ++ [""]

end PipelineLint
