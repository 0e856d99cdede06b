import PipelineLint.Position

set_option autoImplicit false

/-! # Values

What a call supplies for a parameter: a scalar, a map or a sequence, with the place where it is
written. The entries of a map are in ascending order of their names. -/

namespace PipelineLint

/-- The content of a value whose parts are of type `α`. -/
inductive Payload (α : Type) where
  | string (text : String)
  | boolean (value : Bool)
  | integer (value : Int64)
  | map (entries : List (String × α))
  | sequence (items : List α)
deriving Inhabited

/-- A value with its name, if it has one, and the place where it is written. -/
structure Value where
  name : String := ""
  payload : Payload Value
  range : Range

instance : Inhabited Value := ⟨{ payload := .string "", range := {} }⟩

/-- The sort of content a value has. -/
inductive ValueTag where
  | string
  | boolean
  | integer
  | map
  | sequence
deriving DecidableEq, Inhabited

/-- The name of a tag in documents. -/
def ValueTag.name : ValueTag → String
  | string => "string"
  | boolean => "boolean"
  | integer => "integer"
  | map => "map"
  | sequence => "sequence"

/-- The sort of a content. -/
def Payload.tag {α : Type} : Payload α → ValueTag
  | string _ => .string
  | boolean _ => .boolean
  | integer _ => .integer
  | map _ => .map
  | sequence _ => .sequence

namespace Value

/-- The sort of content a value has. -/
def tag (value : Value) : ValueTag :=
  value.payload.tag

/-- The text of a string. -/
def text? (value : Value) : Option String :=
  match value.payload with
  | .string text => some text
  | _ => none

end Value

end PipelineLint
