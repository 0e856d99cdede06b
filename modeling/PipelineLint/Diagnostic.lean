import PipelineLint.Position

set_option autoImplicit false

/-! # Diagnostics and reports

A diagnostic is one complaint about a document, an error or a warning. A report is the list of all
complaints in the order in which they were found; it only grows at its end. -/

namespace PipelineLint

/-- How bad a complaint is. -/
inductive Severity where
  | error
  | warning
deriving DecidableEq, Inhabited

/-- The name of a severity. -/
def Severity.name : Severity → String
  | error => "error"
  | warning => "warning"

/-- A complaint about a document. -/
structure Diagnostic where
  severity : Severity
  message : String
  /-- The place it is about. -/
  range : Option Range := none
  /-- What to do about it. -/
  suggestion : Option String := none
deriving DecidableEq, Inhabited

namespace Diagnostic

/-- Whether the complaint is an error. -/
def isError (diagnostic : Diagnostic) : Bool :=
  diagnostic.severity == .error

/-- The complaint in one or two lines; the suggestion is left out. There is none if the range
    cannot be written. -/
def display? (diagnostic : Diagnostic) : Option String := do
  let headline := diagnostic.severity.name ++ ": " ++ diagnostic.message
  match diagnostic.range with
  | none => return headline
  | some range => return headline ++ "\n  --> " ++ (← range.display?)

end Diagnostic

/-- All complaints about a document, in the order in which they were found. -/
structure Report where
  diagnostics : List Diagnostic := []
deriving DecidableEq, Inhabited

namespace Report

/-- Add a complaint at the end. -/
def add (report : Report) (diagnostic : Diagnostic) : Report :=
  ⟨report.diagnostics ++ [diagnostic]⟩

/-- Add an error at a place. -/
def addError (report : Report) (message : String) (range : Range) : Report :=
  report.add { severity := .error, message := message, range := some range }

/-- Add all complaints of another report at the end. -/
def append (report other : Report) : Report :=
  ⟨report.diagnostics ++ other.diagnostics⟩

/-- Whether there is an error among the complaints. -/
def hasErrors (report : Report) : Bool :=
  report.diagnostics.any (·.isError)

/-- Whether there is a warning among the complaints. -/
def hasWarnings (report : Report) : Bool :=
  report.diagnostics.any (!·.isError)

/-- The number of complaints. -/
def size (report : Report) : Nat :=
  report.diagnostics.length

/-- Whether there are no complaints. -/
def isEmpty (report : Report) : Bool :=
  report.diagnostics.isEmpty

end Report

end PipelineLint
