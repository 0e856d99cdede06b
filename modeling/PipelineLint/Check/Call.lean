import PipelineLint.Check.Value

set_option autoImplicit false

/-! # Checking calls

Whether a call supplies what the thing it calls declares. The declared parameters come first, in
the order of the names they are stored under; an argument is found under the name written in the
declaration. Then come the arguments for which nothing is declared. -/

namespace PipelineLint.Check

/-- An enumeration has to allow some value. -/
def allowedValues (declared : Parameter) : List Finding :=
  match declared.allowed? with
  | some [] => [{ cause := .noAllowedValues declared.name, range := declared.range }]
  | _ => []

/-- Check what a call at `range` supplies for one declared parameter. -/
def parameter (site : Site) (arguments : Dict Value) (entity : String) (range : Range)
    (declared : Parameter) : List Finding :=
  allowedValues declared ++
    match arguments.get? declared.name with
    | some argument => value site argument declared entity
    | none =>
      if declared.optional then []
      else [{ cause := .missingArgument declared.name entity, range := range }]

/-- Check the arguments of a call against the declared parameters. -/
def arguments (site : Site) (arguments : Dict Value) (entity : String) (range : Range)
    (declared : Dict Parameter) : List Finding :=
  declared.values.flatMap (parameter site arguments entity range) ++
    arguments.entries.filterMap fun argument =>
      if declared.contains argument.1 then none
      else some { cause := .undeclaredArgument argument.1 entity, range := argument.2.range }

/-- Check a call. Nothing is known about a call of something that the document does not define. -/
def invocation (document : Document) (external : List String) (scopes : Scopes)
    (call : Invocation) : List Finding :=
  match document.definition? call.target call.entity with
  | some definition =>
    arguments (Site.atPosition document external scopes call.range.start) call.arguments call.entity
      call.range definition.parameters
  | none => []

/-- Check all calls of a document. -/
def invocations (document : Document) (external : List String) : List Finding :=
  let scopes := Scopes.ofDocument document
  document.invocations.flatMap (invocation document external scopes)

end PipelineLint.Check
