import PipelineLint.Dict
import PipelineLint.Parameter
import PipelineLint.Value

set_option autoImplicit false

/-! # Documents

A pipeline configuration as far as parameters go: the parameters of the whole pipeline, the
commands, jobs and executors it defines with parameters of their own, the aliases under which it
imports orbs, and the places where something it may have defined is called.

A definition or parameter is found by the name it is stored under; the name written inside it need
not be the same. -/

namespace PipelineLint

/-! ## Definitions and calls -/

/-- The sorts of things that a document defines and calls. -/
inductive EntityKind where
  | command
  | job
  | executor
deriving DecidableEq, Inhabited

namespace EntityKind

/-- All sorts. -/
def all : List EntityKind := [command, job, executor]

/-- The name of a sort in documents. -/
def name : EntityKind → String
  | command => "command"
  | job => "job"
  | executor => "executor"

/-- The sort with a name. -/
def ofName? (name : String) : Option EntityKind :=
  all.find? (·.name == name)

end EntityKind

/-- A command, job or executor that a document defines. -/
structure Definition where
  name : String
  /-- The place of the whole definition; its parameters are visible inside. -/
  range : Range
  parameters : Dict Parameter := .empty
deriving Inhabited

/-- Declare a parameter under its own name, in place of the one that stands there. -/
def Definition.withParameter (definition : Definition) (parameter : Parameter) : Definition :=
  { definition with parameters := definition.parameters.insert parameter.name parameter }

/-- A call of a command, job or executor. -/
structure Invocation where
  /-- The name of what is called. -/
  entity : String
  target : EntityKind
  range : Range
  arguments : Dict Value := .empty
deriving Inhabited

/-! ## Documents -/

/-- A pipeline configuration. -/
structure Document where
  /-- The name of the file that the configuration was read from. -/
  file : String := ""
  /-- The parameters of the whole pipeline. -/
  pipelineParameters : Dict Parameter := .empty
  /-- The place of the block that declares them, absent if there is no such block. -/
  pipelineRange : Range := {}
  commands : Dict Definition := .empty
  jobs : Dict Definition := .empty
  executors : Dict Definition := .empty
  /-- The aliases of the imported orbs. -/
  orbs : NameSet := .empty
  invocations : List Invocation := []
deriving Inhabited

/-- A definition's place and the parameters that are visible there. -/
structure Block where
  range : Range
  parameters : Dict Parameter
deriving Inhabited

namespace Document

/-- The definitions of one sort. -/
def definitions (document : Document) : EntityKind → Dict Definition
  | .command => document.commands
  | .job => document.jobs
  | .executor => document.executors

/-- The definition of one sort under a name. -/
def definition? (document : Document) (kind : EntityKind) (name : String) : Option Definition :=
  (document.definitions kind).get? name

/-- The document with other definitions of one sort. -/
def withDefinitions (document : Document) (kind : EntityKind) (definitions : Dict Definition) :
    Document :=
  match kind with
  | .command => { document with commands := definitions }
  | .job => { document with jobs := definitions }
  | .executor => { document with executors := definitions }

/-- Store a definition under its own name, in place of the one that stands there. -/
def define (document : Document) (kind : EntityKind) (definition : Definition) : Document :=
  document.withDefinitions kind ((document.definitions kind).insert definition.name definition)

/-- The blocks of all definitions: commands, then jobs, then executors, each by name. -/
def blocks (document : Document) : List Block :=
  (document.commands.values ++ document.jobs.values ++ document.executors.values).map
    fun definition => { range := definition.range, parameters := definition.parameters }

/-- Whether the document defines a command under this name. -/
def hasCommand (document : Document) (name : String) : Bool :=
  document.commands.contains name

/-! ## What names stand for -/

/-- Whether a name has the form `alias/rest` with the alias of an imported orb and a rest that is
    not empty. Only the first slash divides. -/
def imports (document : Document) (name : String) : Bool :=
  match name.toList.span (· != '/') with
  | (orb, _ :: rest) => !rest.isEmpty && document.orbs.contains (String.ofList orb)
  | (_, []) => false

/-- Whether a name is that of an executor: one of the document, one of those provided from
    outside, or one of an imported orb. -/
def knowsExecutor (document : Document) (external : List String) (name : String) : Bool :=
  document.executors.contains name || external.contains name || document.imports name

/-- Whether a name is that of a command: one of the document or one of an imported orb. -/
def knowsCommand (document : Document) (name : String) : Bool :=
  document.hasCommand name || document.imports name

end Document

end PipelineLint
