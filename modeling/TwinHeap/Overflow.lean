/-!
Sums and products of counts that live in 64 bits.

The library computes with natural numbers and checks each result against the width that the count
is stored in; `checkedAdd` and `checkedMul` succeed exactly when the exact result fits.
-/

namespace TwinHeap

/-- One more than the largest 64-bit count. -/
def wordModulus : Nat := 0x10000000000000000

/-- An arithmetic result that its type cannot hold. -/
inductive Overflow
  | addition
  | multiplication
  | durationSum
  | capacity
deriving DecidableEq, Repr

namespace Overflow

def message : Overflow → String
  | addition => "attempt to add with overflow"
  | multiplication => "attempt to multiply with overflow"
  | durationSum => "overflow in iter::sum over durations"
  | capacity => "capacity overflow"

end Overflow

/-- The sum, if it fits in 64 bits. -/
def checkedAdd (a b : Nat) : Except Overflow Nat :=
  if a + b < wordModulus then .ok (a + b) else .error .addition

/-- The product, if it fits in 64 bits. -/
def checkedMul (a b : Nat) : Except Overflow Nat :=
  if a * b < wordModulus then .ok (a * b) else .error .multiplication

theorem checkedAdd_eq_ok_iff {a b n : Nat} :
    checkedAdd a b = .ok n ↔ a + b < wordModulus ∧ n = a + b := by
  unfold checkedAdd
  by_cases h : a + b < wordModulus <;> simp [h, eq_comm]

theorem checkedMul_eq_ok_iff {a b n : Nat} :
    checkedMul a b = .ok n ↔ a * b < wordModulus ∧ n = a * b := by
  unfold checkedMul
  by_cases h : a * b < wordModulus <;> simp [h, eq_comm]

end TwinHeap
