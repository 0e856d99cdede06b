import PipelineLint.Json.Basic

set_option autoImplicit false

/-! # Taking JSON values apart

The rules by which the records of this library are read from JSON values.

A record is an object or an array. In an object its fields are members, in any order; a field must
not occur twice, and members that are no fields are skipped unread. In an array its fields are the
items, in their order; fields at the end may be missing and there must be no further items. Both
forms come down to a list of optional values, one for each field (`fields?`).

A record may not stand inside more than `nestingLimit` arrays and objects. A decoder therefore
gets the number of arrays and objects it may still enter, which also bounds its recursion. -/

namespace PipelineLint.Json

/-- The number of arrays and objects that may stand inside one another. -/
def nestingLimit : Nat := 127

/-! ## Scalars -/

/-- The text of a string. -/
def string? : Json → Option String
  | .string text => some text
  | _ => none

/-- The value of a boolean. -/
def bool? : Json → Option Bool
  | .bool value => some value
  | _ => none

/-- The value of an integer that fits into 32 bits without sign. -/
def uint32? : Json → Option UInt32
  | .integer n => if 0 ≤ n ∧ n < UInt32.size then some (UInt32.ofNat n.toNat) else none
  | _ => none

/-- The value of an integer that fits into 64 bits with sign. -/
def int64? : Json → Option Int64
  | .integer n =>
    if Int64.minValue.toInt ≤ n ∧ n ≤ Int64.maxValue.toInt then some (Int64.ofInt n) else none
  | _ => none

/-! ## Arrays, objects and records -/

/-- The items of an array. -/
def items? : Json → Option (List Json)
  | .array items => some items
  | _ => none

/-- The members of an object. -/
def members? : Json → Option (List (String × Json))
  | .object members => some members
  | _ => none

/-- The value of the member with this name, `some none` if there is no such member; nothing if
    there are several. -/
def field? (members : List (String × Json)) (name : String) : Option (Option Json) :=
  match members.filter (·.1 == name) with
  | [] => some none
  | [member] => some (some member.2)
  | _ => none

/-- The values of the fields with these names in a record, in the order of the names. -/
def fields? (names : List String) : Json → Option (List (Option Json))
  | .object members => names.mapM (field? members)
  | .array items =>
    if items.length ≤ names.length then
      some (items.map some ++ List.replicate (names.length - items.length) none)
    else none
  | _ => none

/-- The value of a field, or the default of a field that is missing. -/
def orDefault {α : Type} (default : α) (read : Json → Option α) : Option Json → Option α
  | none => some default
  | some value => read value

/-- The value of a field that must not be missing. -/
def required {α : Type} (read : Json → Option α) (field : Option Json) : Option α :=
  field.bind read

end PipelineLint.Json
