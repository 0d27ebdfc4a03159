/-!
Classes of characters as lists of runs.

A run is the pair of its first and its last character. The runs of a table ascend with a gap before
each, which `ascending` checks, so a class has one table.
-/

namespace TwinHeap.Text

/-- Whether a character lies in one of the runs. -/
def inRuns (runs : List (Nat × Nat)) (c : Char) : Bool :=
  runs.any fun run => run.1 ≤ c.toNat && c.toNat ≤ run.2

/-- Whether the runs ascend from `low` on, with a gap before all but the first. -/
def ascending (low : Nat) : List (Nat × Nat) → Bool
  | [] => true
  | run :: rest => low ≤ run.1 && run.1 ≤ run.2 && ascending (run.2 + 2) rest

/-- A character of a listed run is in the class. -/
theorem inRuns_of_mem {runs : List (Nat × Nat)} {c : Char} {run : Nat × Nat} (h : run ∈ runs)
    (low : run.1 ≤ c.toNat) (high : c.toNat ≤ run.2) : inRuns runs c = true :=
  List.any_eq_true.2 ⟨run, h, by simp [low, high]⟩

@[simp] theorem inRuns_append (a b : List (Nat × Nat)) (c : Char) :
    inRuns (a ++ b) c = (inRuns a c || inRuns b c) := by
  simp [inRuns]

end TwinHeap.Text
