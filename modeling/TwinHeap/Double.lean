/-!
Double precision, as far as the ranks of quantiles need it.

Only magnitudes occur, and none is too large or too small to be held. A fraction is kept as the number
of 2⁻⁵³ in it. What an operation keeps of its exact result is the nearest number of at most 53 binary
digits, and of two that are equally near the even one.
-/

namespace TwinHeap.Double

/-- How many 2⁻⁵³ make one. -/
def one : Nat := 1 <<< 53

/-- The distance from `x` to the next number that can be held. -/
def gap (x : Nat) : Nat := 1 <<< (x.log2 - 52)

/-- The nearest number that can be held. -/
def round (x : Nat) : Nat :=
  let kept := x / gap x
  let rest := x % gap x
  if gap x < 2 * rest ∨ (2 * rest = gap x ∧ kept % 2 = 1) then (kept + 1) * gap x else kept * gap x

/-- The number nearest to a fraction from one half to one. -/
def ofFraction (num den : Nat) : Nat := (2 * (num * one) + den) / (2 * den)

/-- A count times such a fraction, cut off to a whole number. -/
def portion (count fraction : Nat) : Nat := round (round count * fraction) / one

end TwinHeap.Double
