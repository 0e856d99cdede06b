set_option autoImplicit false

/-! # The range of double precision

Numbers are not computed with here, but a text may hold one that is too large to be read in double
precision. Whether it is, is decided on natural numbers. -/

namespace PipelineLint.Double

/-- The nearest number with at most 53 significant bits, a tie going to the even one. -/
def round (n : Nat) : Nat :=
  let unit := Nat.pow 2 ((Nat.log2 n + 1) - 53)
  let quotient := n / unit
  let remainder := n % unit
  let up := 2 * remainder > unit || (2 * remainder == unit && quotient % 2 == 1)
  (if up then quotient + 1 else quotient) * unit

/-- The least number that rounds to infinity. -/
def limit : Nat :=
  Nat.pow 2 1024 - Nat.pow 2 970

/-- The exponent of the largest power of ten below infinity. -/
def largestPowerOfTen : Nat := 308

end PipelineLint.Double
