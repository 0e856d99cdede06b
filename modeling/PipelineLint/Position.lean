set_option autoImplicit false

/-! # Positions and ranges

A place in a document is a line and a character in it, both counted from zero and held in 32 bits,
the width in which the tools around a document exchange them. Positions are ordered by line, then
by character. A range holds the positions from its start up to, but not including, its end; the
range of all zeros stands for "not written in the document".

Coordinates add up without wrapping (`saturatingAdd`), and the printed form counts from one, so the
largest coordinate has no printed form (`Position.display?`). -/

namespace PipelineLint

/-! ## Coordinates -/

/-- The sum of two coordinates, cut off at the largest coordinate. -/
def saturatingAdd (a b : UInt32) : UInt32 :=
  UInt32.ofNat (min (a.toNat + b.toNat) (UInt32.size - 1))

theorem toNat_saturatingAdd (a b : UInt32) :
    (saturatingAdd a b).toNat = min (a.toNat + b.toNat) (UInt32.size - 1) := by
  rw [saturatingAdd, UInt32.toNat_ofNat_of_lt']
  have : 0 < UInt32.size := by decide
  omega

/-- The number of a line or character as people count it, from one. The largest coordinate has
    none, for want of a coordinate above it. -/
def ordinal? (coordinate : UInt32) : Option Nat :=
  if coordinate.toNat + 1 < UInt32.size then some (coordinate.toNat + 1) else none

/-! ## Positions -/

/-- A line and a character in it, counted from zero. -/
structure Position where
  line : UInt32 := 0
  character : UInt32 := 0
deriving DecidableEq, Inhabited

namespace Position

/-- The start of a text. -/
def origin : Position := {}

instance : LT Position where
  lt p q := p.line < q.line ∨ (p.line = q.line ∧ p.character < q.character)

instance : LE Position where
  le p q := p.line < q.line ∨ (p.line = q.line ∧ p.character ≤ q.character)

instance (p q : Position) : Decidable (p < q) :=
  inferInstanceAs (Decidable (p.line < q.line ∨ (p.line = q.line ∧ p.character < q.character)))

instance (p q : Position) : Decidable (p ≤ q) :=
  inferInstanceAs (Decidable (p.line < q.line ∨ (p.line = q.line ∧ p.character ≤ q.character)))

/-- Where the next character stands, after `c` at `p`. Only a line feed starts a new line. -/
def advance (p : Position) (c : Char) : Position :=
  if c = '\n' then { line := p.line + 1, character := 0 }
  else { line := p.line, character := p.character + 1 }

/-- Where the next character stands, after the whole of `text` from `p` on. -/
def advanceBy (p : Position) (text : List Char) : Position :=
  text.foldl advance p

@[simp] theorem advanceBy_nil (p : Position) : p.advanceBy [] = p := rfl

@[simp] theorem advanceBy_cons (p : Position) (c : Char) (text : List Char) :
    p.advanceBy (c :: text) = (p.advance c).advanceBy text := rfl

@[simp] theorem advanceBy_append (p : Position) (text more : List Char) :
    p.advanceBy (text ++ more) = (p.advanceBy text).advanceBy more :=
  List.foldl_append

/-- Move a position by so many lines and characters, each sum cut off at the largest coordinate. -/
def shift (p : Position) (lines characters : UInt32) : Position where
  line := saturatingAdd p.line lines
  character := saturatingAdd p.character characters

/-- The positions in ascending order; equal ones keep their order. -/
def sort (positions : List Position) : List Position :=
  positions.mergeSort (fun p q => decide (p ≤ q))

/-- A position as people write it, `line:character`, both counted from one. -/
def display? (p : Position) : Option String := do
  let line ← ordinal? p.line
  let character ← ordinal? p.character
  return line.repr ++ ":" ++ character.repr

end Position

/-! ## Ranges -/

/-- The positions from `start` up to, but not including, `stop`. -/
structure Range where
  start : Position := {}
  stop : Position := {}
deriving DecidableEq, Inhabited

namespace Range

/-- The range of a part that the document does not have. -/
def absent : Range := {}

/-- Whether this is the range of a part that the document does not have. -/
def isAbsent (range : Range) : Bool :=
  range == absent

/-- Whether the position lies in the range. -/
def contains (range : Range) (p : Position) : Bool :=
  decide (range.start ≤ p) && decide (p < range.stop)

/-- A range as people write it: its two positions with a dash between them. -/
def display? (range : Range) : Option String := do
  let start ← range.start.display?
  let stop ← range.stop.display?
  return start ++ "-" ++ stop

end Range

end PipelineLint
