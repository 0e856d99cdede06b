import PipelineLint.Finding
import PipelineLint.Scopes

set_option autoImplicit false

/-! # Checking a value

Whether a value that a call supplies fits the parameter it is supplied for. A string that is
nothing but a reference stands for the parameter it names, so only the kinds are compared; that the
parameter exists is the concern of the check of references. A name with a substitution in it is not
known before the pipeline runs and is left alone. -/

namespace PipelineLint

/-- What a value is checked against: the document, the executors that are provided from outside,
    and the parameters that the place of the call sees. -/
structure Site where
  document : Document
  external : List String
  scopes : Scopes
  visible : Dict Parameter
deriving Inhabited

/-- The site at a place of a document. -/
def Site.atPosition (document : Document) (external : List String) (scopes : Scopes) (p : Position) :
    Site where
  document := document
  external := external
  scopes := scopes
  visible := scopes.visibleAt p

namespace Check

/-- Whether a text holds the start of a substitution. -/
def opensSubstitution : List Char → Bool
  | '<' :: '<' :: _ => true
  | _ :: rest => opensSubstitution rest
  | [] => false

/-- The finding that a value is not of the type it should have. -/
def wrongType (declared : Parameter) (expected : ParamKind) (entity : String) (range : Range) :
    Finding :=
  { cause := .wrongType declared.name expected entity, range := range }

/-- The kind of parameter that takes any value of this sort, for scalars. -/
def scalarKind? : ValueTag → Option ParamKind
  | .string => some .string
  | .boolean => some .boolean
  | .integer => some .integer
  | .map | .sequence => none

/-- Check a value against a string, boolean or integer parameter. -/
def scalar (value : Value) (declared : Parameter) (entity : String) : List Finding :=
  if scalarKind? value.tag = some declared.kind then []
  else [wrongType declared declared.kind entity value.range]

/-- Check a value against an enumeration. A value that is no string is reported as such. -/
def enumeration (value : Value) (declared : Parameter) (allowed : List String) (entity : String) :
    List Finding :=
  match value.text? with
  | none => [wrongType declared .string entity value.range]
  | some text =>
    if allowed.contains text then []
    else [{ cause := .notAllowed text declared.name allowed, range := value.range }]

/-- Check that something provides the executor with a name that is written at `range`. -/
def namedExecutor (document : Document) (external : List String) (name : String) (range : Range) :
    List Finding :=
  if document.knowsExecutor external name then []
  else [{ cause := .unknownExecutor name, range := range }]

/-- Check the name of an executor, written at `range`, that a value gives. -/
def executorName (site : Site) (value : Value) (name : String) (range : Range) : List Finding :=
  if name.isEmpty then [{ cause := .noExecutorName, range := value.range }]
  else if opensSubstitution name.toList then []
  else namedExecutor site.document site.external name range

/-- Check a value against an executor parameter: a name, or a map with a name under `name`. -/
def executor (site : Site) (value : Value) (declared : Parameter) (entity : String) :
    List Finding :=
  match value.payload with
  | .string name => executorName site value name value.range
  | .map entries =>
    match (entries.lookup "name").bind fun entry => entry.text?.map (·, entry.range) with
    | some (name, range) => executorName site value name range
    | none => [{ cause := .noExecutorName, range := value.range }]
  | _ => [wrongType declared .executor entity value.range]

/-- Check one step of a list of steps. Maps and lists are steps that are spelled out. -/
def step (document : Document) (declared : Parameter) (entity : String) (step : Value) :
    List Finding :=
  match step.payload with
  | .string command =>
    if opensSubstitution command.toList || document.knowsCommand command then []
    else [{ cause := .unknownCommand command, range := step.range }]
  | .map _ | .sequence _ => []
  | .boolean _ | .integer _ => [wrongType declared .steps entity step.range]

/-- Check a value against a parameter that takes steps. -/
def steps (document : Document) (value : Value) (declared : Parameter) (entity : String) :
    List Finding :=
  match value.payload with
  | .sequence items => items.flatMap (step document declared entity)
  | _ => [wrongType declared .steps entity value.range]

/-- Check a value against a parameter that takes the name of an environment variable. -/
def envVarName (value : Value) (declared : Parameter) (entity : String) : List Finding :=
  match value.tag with
  | .string | .integer => []
  | _ => [wrongType declared .envVarName entity value.range]

/-- Check a value that is written out, by the type of the parameter. -/
def literal (site : Site) (value : Value) (declared : Parameter) (entity : String) :
    List Finding :=
  match declared.type with
  | .string | .boolean | .integer => scalar value declared entity
  | .enum allowed => enumeration value declared allowed entity
  | .executor => executor site value declared entity
  | .steps => steps site.document value declared entity
  | .envVarName => envVarName value declared entity

/-- Check a reference that stands for a whole value: the parameter it names, if there is one, must
    be of the declared kind. -/
def forwarded (site : Site) (reference : Reference) (value : Value) (declared : Parameter)
    (entity : String) : List Finding :=
  match site.scopes.resolve? site.visible reference with
  | some resolved =>
    if resolved.kind = declared.kind then []
    else [wrongType declared declared.kind entity value.range]
  | none => []

/-- Check a value that a call of `entity` supplies for a declared parameter. -/
def value (site : Site) (value : Value) (declared : Parameter) (entity : String) : List Finding :=
  match value.text?.bind fun text => loneReference? text.toList with
  | some reference => forwarded site reference value declared entity
  | none => literal site value declared entity

end Check

/-- Check a value that a call of `entity` supplies, and add what is found to a report. -/
def Report.checkValue (report : Report) (site : Site) (value : Value) (declared : Parameter)
    (entity : String) : Report :=
  report.addFindings (Check.value site value declared entity)

end PipelineLint
