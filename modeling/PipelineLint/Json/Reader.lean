import PipelineLint.Json.Token

set_option autoImplicit false

/-! # Reading JSON

The value of a JSON text. The reader is a machine with a stack of the arrays and objects that are
still open; it takes one token at a time, so reading is a fold over the tokens and nesting may be
as deep as the text makes it. -/

namespace PipelineLint.Json

/-- An array or object that is still open. -/
inductive Frame where
  /-- An array with the items so far, the last one first. -/
  | array (items : List Json)
  /-- An object with the members so far, the last one first, and the name of the member whose
      value is being read. -/
  | object (members : List (Option String × Json)) (name : Option String)

/-- What the machine waits for. -/
inductive Reader where
  /-- A value, or the end of an array that has just been opened. -/
  | value (stack : List Frame) (orClose : Bool)
  /-- The name of a member, or the end of an object that has just been opened. -/
  | name (stack : List Frame) (members : List (Option String × Json)) (orClose : Bool)
  /-- The colon after a name. -/
  | colon (stack : List Frame) (members : List (Option String × Json)) (name : Option String)
  /-- What follows a complete value. -/
  | after (stack : List Frame) (value : Json)

/-- The object with these members, given with the last one first. It is undefined if one of its
    names is. -/
def ofMembers (members : List (Option String × Json)) : Json :=
  match members.reverse.mapM fun member => member.1.map (·, member.2) with
  | some members => .object members
  | none => .undefined

namespace Reader

/-- Take one token. -/
def step : Reader → Token → Option Reader
  | value stack _, .openArray => some (value (.array [] :: stack) true)
  | value stack _, .openObject => some (name stack [] true)
  | value stack _, .text (some text) => some (after stack (.string text))
  | value stack _, .text none => some (after stack .undefined)
  | value stack _, .scalar scalar => some (after stack scalar)
  | value (.array items :: stack) true, .closeArray => some (after stack (.array items.reverse))
  | name stack members _, .text text => some (colon stack members text)
  | name stack members true, .closeObject => some (after stack (ofMembers members))
  | colon stack members key, .colon => some (value (.object members key :: stack) false)
  | after (.array items :: stack) last, .comma => some (value (.array (last :: items) :: stack) false)
  | after (.array items :: stack) last, .closeArray =>
    some (after stack (.array (last :: items).reverse))
  | after (.object members key :: stack) last, .comma =>
    some (name stack ((key, last) :: members) false)
  | after (.object members key :: stack) last, .closeObject =>
    some (after stack (ofMembers ((key, last) :: members)))
  | _, _ => none

end Reader

/-- The value of a text; nothing if the text is not JSON. -/
def parse? (text : String) : Option Json := do
  let tokens ← tokens? text.toList
  match ← tokens.foldlM Reader.step (.value [] false) with
  | .after [] value => some value
  | _ => none

end PipelineLint.Json
