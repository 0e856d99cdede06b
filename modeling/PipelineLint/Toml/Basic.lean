set_option autoImplicit false

/-! # TOML values

The values of a TOML document. Numbers and times are checked where they are read, but no setting of
this library holds one, so only that they are there is kept. A table knows how it came about,
because that decides what may still be added to it. -/

namespace PipelineLint

/-- How a table came about. -/
inductive TableStyle where
  /-- Written between braces, and complete. -/
  | inline
  /-- By a header of its own. -/
  | header
  /-- As a part of the path in the header of another table. -/
  | implied
  /-- As a part of a dotted key. -/
  | dotted
deriving DecidableEq, Inhabited

/-- A TOML value. -/
inductive Toml where
  | string (text : String)
  | boolean (value : Bool)
  | number
  | dateTime
  | array (items : List Toml)
  | table (style : TableStyle) (entries : List (String × Toml))
  /-- Tables under headers in double brackets, in the order of the headers. -/
  | tables (all : List (List (String × Toml)))
deriving Inhabited

end PipelineLint
