import PipelineLint.Position

set_option autoImplicit false

/-! # Declared parameters

What a document says about a parameter: its name, the type of the values it takes, whether a call
may leave it out, and where it is declared. -/

namespace PipelineLint

/-- The type of the values that a parameter takes. -/
inductive ParamType where
  | string
  | boolean
  | integer
  /-- One of the listed strings. -/
  | enum (allowed : List String)
  /-- The name of an executor, alone or in a map. -/
  | executor
  /-- A list of steps, each of which runs a command. -/
  | steps
  /-- The name of an environment variable. -/
  | envVarName
deriving DecidableEq, Inhabited

/-- A parameter type without the values that an enumeration allows. -/
inductive ParamKind where
  | string
  | boolean
  | integer
  | enum
  | executor
  | steps
  | envVarName
deriving DecidableEq, Inhabited

namespace ParamKind

/-- All kinds, in the order in which documents number them. -/
def all : List ParamKind :=
  [string, boolean, integer, enum, executor, steps, envVarName]

/-- The name of a kind in documents and messages. -/
def name : ParamKind → String
  | string => "string"
  | boolean => "boolean"
  | integer => "integer"
  | enum => "enum"
  | executor => "executor"
  | steps => "steps"
  | envVarName => "env_var_name"

/-- The kind with a name. -/
def ofName? (name : String) : Option ParamKind :=
  all.find? (·.name == name)

end ParamKind

namespace ParamType

/-- The kind of a type. -/
def kind : ParamType → ParamKind
  | string => .string
  | boolean => .boolean
  | integer => .integer
  | enum _ => .enum
  | executor => .executor
  | steps => .steps
  | envVarName => .envVarName

/-- Only enumerations of one kind can differ. -/
theorem eq_of_kind_eq {type other : ParamType} (h : type.kind = other.kind)
    (hkind : type.kind ≠ .enum) : type = other := by
  cases type with
  | enum allowed => exact absurd rfl hkind
  | _ => cases other <;> first | rfl | exact nomatch h

/-- The values that an enumeration allows. -/
def allowed? : ParamType → Option (List String)
  | enum allowed => some allowed
  | _ => none

/-- The type of a kind, with the values that it allows if it is an enumeration. -/
def ofKind (allowed : List String) : ParamKind → ParamType
  | .string => string
  | .boolean => boolean
  | .integer => integer
  | .enum => enum allowed
  | .executor => executor
  | .steps => steps
  | .envVarName => envVarName

end ParamType

/-- A declared parameter. -/
structure Parameter where
  name : String
  type : ParamType
  /-- Whether a call may leave it out. -/
  optional : Bool := false
  /-- Where it is declared. -/
  range : Range := {}
deriving DecidableEq, Inhabited

namespace Parameter

/-- The kind of values that the parameter takes. -/
def kind (parameter : Parameter) : ParamKind :=
  parameter.type.kind

/-- The values that the parameter allows, if it is an enumeration. -/
def allowed? (parameter : Parameter) : Option (List String) :=
  parameter.type.allowed?

end Parameter

end PipelineLint
