/-!
Cutting a text at a character: at its first occurrence, at its last, or at every one.

Each cut loses the separator and nothing else, so joining the parts again gives the text back.
-/

namespace TwinHeap.Text

/-- The parts before and after the first `c`. -/
def cutFirst (c : Char) : List Char → Option (List Char × List Char)
  | [] => none
  | x :: rest =>
    if x = c then some ([], rest)
    else (cutFirst c rest).map fun (before, after) => (x :: before, after)

/-- The parts before and after the last `c`. -/
def cutLast (c : Char) : List Char → Option (List Char × List Char)
  | [] => none
  | x :: rest =>
    match cutLast c rest with
    | some (before, after) => some (x :: before, after)
    | none => if x = c then some ([], rest) else none

/-- The pieces between the occurrences of `c`; there is always at least one. -/
def pieces (c : Char) : List Char → List (List Char)
  | [] => [[]]
  | x :: rest =>
    if x = c then [] :: pieces c rest
    else
      match pieces c rest with
      | [] => [[x]]
      | p :: ps => (x :: p) :: ps

/-- The text before a final `c`. -/
def dropFinal (c : Char) (s : List Char) : Option (List Char) :=
  match s.getLast? with
  | some x => if x = c then some s.dropLast else none
  | none => none

/-- The pieces with `c` between them. -/
def joinWith (c : Char) : List (List Char) → List Char
  | [] => []
  | [p] => p
  | p :: ps => p ++ c :: joinWith c ps

theorem eq_append_of_cutFirst {c : Char} {s a b : List Char} (h : cutFirst c s = some (a, b)) :
    s = a ++ c :: b ∧ c ∉ a := by
  induction s generalizing a b with
  | nil => simp [cutFirst] at h
  | cons x rest ih =>
    by_cases hx : x = c
    · simp [cutFirst, hx] at h
      simp [h, hx]
    · simp only [cutFirst, hx, if_false, Option.map_eq_some_iff, Prod.mk.injEq, Prod.exists] at h
      obtain ⟨a', b', hc, rfl, rfl⟩ := h
      obtain ⟨rfl, hn⟩ := ih hc
      exact ⟨rfl, by simp [hn, Ne.symm hx]⟩

theorem cutFirst_eq_none_iff {c : Char} {s : List Char} : cutFirst c s = none ↔ c ∉ s := by
  induction s with
  | nil => simp [cutFirst]
  | cons x rest ih =>
    by_cases hx : x = c
    · simp [cutFirst, hx]
    · simp [cutFirst, hx, ih, Ne.symm hx]

theorem cutFirst_append {c : Char} {a b : List Char} (h : c ∉ a) :
    cutFirst c (a ++ c :: b) = some (a, b) := by
  induction a with
  | nil => simp [cutFirst]
  | cons x rest ih =>
    simp only [List.mem_cons, not_or] at h
    simp [cutFirst, Ne.symm h.1, ih h.2]

theorem cutLast_eq_none_iff {c : Char} {s : List Char} : cutLast c s = none ↔ c ∉ s := by
  induction s with
  | nil => simp [cutLast]
  | cons x rest ih =>
    cases hr : cutLast c rest with
    | some cut =>
      have hm : c ∈ rest := Decidable.of_not_not fun hn => by simp [ih.2 hn] at hr
      simp [cutLast, hr, hm]
    | none =>
      have hn : c ∉ rest := ih.1 hr
      by_cases hx : x = c
      · simp [cutLast, hr, hx]
      · simp [cutLast, hr, hx, hn, Ne.symm hx]

theorem eq_append_of_cutLast {c : Char} {s a b : List Char} (h : cutLast c s = some (a, b)) :
    s = a ++ c :: b ∧ c ∉ b := by
  induction s generalizing a b with
  | nil => simp [cutLast] at h
  | cons x rest ih =>
    cases hr : cutLast c rest with
    | some cut =>
      obtain ⟨a', b'⟩ := cut
      simp only [cutLast, hr, Option.some.injEq, Prod.mk.injEq] at h
      obtain ⟨rfl, rfl⟩ := h
      obtain ⟨rfl, hn⟩ := ih hr
      exact ⟨rfl, hn⟩
    | none =>
      have hn : c ∉ rest := cutLast_eq_none_iff.1 hr
      by_cases hx : x = c
      · simp only [cutLast, hr, hx, if_true, Option.some.injEq, Prod.mk.injEq] at h
        obtain ⟨rfl, rfl⟩ := h
        exact ⟨by simp [hx], hn⟩
      · simp [cutLast, hr, hx] at h

theorem pieces_ne_nil (c : Char) (s : List Char) : pieces c s ≠ [] := by
  cases s with
  | nil => simp [pieces]
  | cons x rest =>
    unfold pieces
    split
    · simp
    · split <;> simp

/-- The pieces joined again are the text. -/
theorem joinWith_pieces (c : Char) (s : List Char) : joinWith c (pieces c s) = s := by
  induction s with
  | nil => rfl
  | cons x rest ih =>
    obtain ⟨p, ps, hp⟩ := List.exists_cons_of_ne_nil (pieces_ne_nil c rest)
    rw [hp] at ih
    by_cases hx : x = c
    · simp [pieces, hx, hp, joinWith, ih]
    · cases ps with
      | nil => simpa [pieces, hx, hp, joinWith] using ih
      | cons q qs => simpa [pieces, hx, hp, joinWith] using ih

end TwinHeap.Text
