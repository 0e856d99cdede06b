set_option autoImplicit false

/-! # JSON values

The values a JSON text denotes, as far as this library looks at them. Of numbers only the integers
of 64 bits are kept, since no field holds any other number. Objects keep their members in the order
in which they are written, repeated names included, because whether a repetition is an error
depends on what is read from the object.

The grammar also admits literals that denote nothing: a string with half of a surrogate pair, a
number beyond the range of double precision, an object with such a string for a name. They read as
`undefined`: a reader that skips a value never notices them, one that needs the value fails. -/

namespace PipelineLint

/-- A JSON value. -/
inductive Json where
  | null
  | bool (value : Bool)
  /-- A number written without fraction and exponent, from `-2^63` up to `2^64 - 1`; the numeral
      `-0` is not one. -/
  | integer (value : Int)
  /-- Any other number. -/
  | real
  | string (text : String)
  | array (items : List Json)
  | object (members : List (String × Json))
  /-- A literal that the grammar admits and that denotes no value. -/
  | undefined
deriving Inhabited

namespace Json

/-- Whether every literal in the value denotes something and no array or object in it stands
    inside `room` others. -/
def isSound : (room : Nat) → Json → Bool
  | _, .undefined => false
  | 0, .array _ => false
  | 0, .object _ => false
  | room + 1, .array items => items.all (isSound room)
  | room + 1, .object members => members.all fun member => isSound room member.2
  | _, _ => true

end Json

end PipelineLint
