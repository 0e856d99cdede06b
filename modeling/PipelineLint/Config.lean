import PipelineLint.Text.Blank
import PipelineLint.Toml.Reader

set_option autoImplicit false

/-! # Configuration

The settings of a run, written as a TOML document with the sections `check` and `executors`. Both
sections and all settings may be missing, and anything else in the document is ignored. A section
may also be an array with the values of its settings in order, or a time, which has no settings. -/

namespace PipelineLint

/-- The settings of a run. -/
structure Config where
  /-- Whether warnings make a run fail. -/
  warningsAsErrors : Bool := false
  /-- The executors that are provided from outside the document. -/
  external : List String := []
deriving DecidableEq, Inhabited

namespace Config

/-- The name of a configuration file. -/
def fileName : String := "pipecheck.toml"

/-- Why a text is no configuration. -/
inductive Problem where
  /-- It is not TOML, or a setting has a value of another type. -/
  | invalid
  /-- The name of an executor is empty or blank; the first such entry is given. -/
  | blankExecutor (index : Nat)
deriving DecidableEq, Inhabited

/-- The value of the only setting of a section; `some none` if it is not set. -/
def setting? (name : String) : Option Toml → Option (Option Toml)
  | none => some none
  | some (.table _ entries) => some (entries.lookup name)
  | some (.array items) => some items.head?
  | some (.tables all) => some (all.head?.map (.table .header))
  | some .dateTime => some none
  | some _ => none

/-- The value of a setting that is on or off. -/
def switch? : Option Toml → Option Bool
  | none => some false
  | some (.boolean value) => some value
  | some _ => none

/-- The text of a string. -/
def text? : Toml → Option String
  | .string text => some text
  | _ => none

/-- The value of a setting that is a list of names. -/
def names? : Option Toml → Option (List String)
  | none => some []
  | some (.array items) => items.mapM text?
  | some _ => none

/-- Read the settings from a TOML table. -/
def ofEntries? (entries : Toml.Entries) : Option Config := do
  let warningsAsErrors ← switch? (← setting? "warnings_as_errors" (entries.lookup "check"))
  let external ← names? (← setting? "external" (entries.lookup "executors"))
  return { warningsAsErrors, external }

/-- Whether the name of an executor is empty or blank. -/
def isBlankName (name : String) : Bool :=
  (Text.trim name.toList).isEmpty

/-- Read a configuration. -/
def parse (text : String) : Except Problem Config :=
  match (Toml.parse? text).bind ofEntries? with
  | none => .error .invalid
  | some config =>
    match config.external.findIdx? isBlankName with
    | some index => .error (.blankExecutor index)
    | none => .ok config

end Config

end PipelineLint
