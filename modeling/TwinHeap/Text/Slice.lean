/-!
Parts of a text between two positions.

A position is the number of UTF-8 octets before it. It can lie inside of a character, and then no
part starts or ends there.
-/

namespace TwinHeap.Text

/-- A position inside of a character, with the position of that character. -/
structure Inside where
  position : Nat
  character : Char
  start : Nat
deriving DecidableEq, Repr

/-- The text before and behind a position; `start` is the position of the text. -/
def cutFrom (start position : Nat) : List Char → Except Inside (List Char × List Char)
  | [] => .ok ([], [])
  | c :: s =>
    if position ≤ start then .ok ([], c :: s)
    else if position < start + c.utf8Size then .error ⟨position, c, start⟩
    else (cutFrom (start + c.utf8Size) position s).map fun (front, rest) => (c :: front, rest)

/-- The text before and behind a position. -/
def cut (position : Nat) (s : List Char) : Except Inside (List Char × List Char) :=
  cutFrom 0 position s

theorem append_of_cutFrom {start position : Nat} {s front rest : List Char}
    (h : cutFrom start position s = .ok (front, rest)) : front ++ rest = s := by
  induction s generalizing start front rest with
  | nil =>
    simp only [cutFrom, Except.ok.injEq, Prod.mk.injEq] at h
    simp [← h.1, ← h.2]
  | cons c s ih =>
    rw [cutFrom] at h
    split at h
    · simp only [Except.ok.injEq, Prod.mk.injEq] at h
      simp [← h.1, ← h.2]
    · split at h
      · simp at h
      · cases hs : cutFrom (start + c.utf8Size) position s with
        | error e => simp [hs, Except.map] at h
        | ok r =>
          simp only [hs, Except.map, Except.ok.injEq, Prod.mk.injEq] at h
          rw [← h.1, ← h.2, List.cons_append, ih hs]

/-- Nothing is lost in a cut. -/
theorem append_of_cut {position : Nat} {s front rest : List Char}
    (h : cut position s = .ok (front, rest)) : front ++ rest = s :=
  append_of_cutFrom h

example : cut 3 ['é', 'a', 'b'] = .ok (['é', 'a'], ['b']) ∧
    cut 1 ['é', 'a', 'b'] = .error ⟨1, 'é', 0⟩ := ⟨rfl, rfl⟩

end TwinHeap.Text
