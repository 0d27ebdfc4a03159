import TwinHeap.Log.Pattern.Atom

/-!
Sets of characters, which stand between square brackets.

A set has members, ranges, named classes and other sets, and between them operators on sets. What a
set holds is not kept, only how deep sets are nested in it.
-/

namespace TwinHeap.Log.Pattern

/-- The depth of parts side by side: a part alone is itself, several are one level more. -/
def nesting : List Nat → Nat
  | [] => 0
  | [d] => d
  | ds => ds.foldl max 0 + 1

theorem start_le_foldl_max (ds : List Nat) (m : Nat) : m ≤ ds.foldl max m := by
  induction ds generalizing m with
  | nil => exact Nat.le_refl m
  | cons d ds ih => exact Nat.le_trans (Nat.le_max_left m d) (ih (max m d))

theorem le_foldl_max {d : Nat} {ds : List Nat} (m : Nat) (h : d ∈ ds) : d ≤ ds.foldl max m := by
  induction ds generalizing m with
  | nil => simp at h
  | cons e ds ih =>
    rcases List.mem_cons.1 h with rfl | h
    · exact Nat.le_trans (Nat.le_max_right m d) (start_le_foldl_max ds (max m d))
    · exact ih (max m e) h

/-- A part is not deeper than the parts together. -/
theorem le_nesting {d : Nat} {ds : List Nat} (h : d ∈ ds) : d ≤ nesting ds := by
  match ds, h with
  | [e], h => exact Nat.le_of_eq (List.mem_singleton.1 h)
  | d₁ :: d₂ :: ds, h => exact Nat.le_succ_of_le (le_foldl_max 0 h)

namespace CharSet

/-- The classes of ASCII characters that have names. -/
def classNames : List String :=
  ["alnum", "alpha", "ascii", "blank", "cntrl", "digit", "graph", "lower", "print", "punct",
    "space", "upper", "word", "xdigit"]

/-- Reads `:name:]` behind an opening bracket, the name perhaps behind a circumflex, which negates
it. Anything else is the start of a set. -/
def readClass? : List Char → Option (Bool × List Char)
  | ':' :: s =>
    let (negated, s) := match s with
      | '^' :: rest => (true, rest)
      | _ => (false, s)
    match s.span (· != ':') with
    | (name, ':' :: ']' :: rest) =>
      if classNames.contains (String.ofList name) then some (negated, rest) else none
    | _ => none
  | _ => none

/-- Whether a named class can be a member of a set. -/
def allowsClass (f : Flags) (negated : Bool) : Bool := if f.unicode then !f.ignoreCase else !negated

/-- Reads what stands behind an opening bracket: a circumflex, which negates the set, and the minus
signs and the closing bracket that stand for themselves there. Gives the depths of these members. -/
def readOpening (f : Flags) (s : List Char) : Option (List Nat × List Char) :=
  let (negated, s) := match f.skip s with
    | '^' :: rest => (true, f.skip rest)
    | s => (false, s)
  let (signs, rest) := f.gather (· = '-') none s
  let (members, rest) := match signs, rest with
    | [], ']' :: rest => ([']'], rest)
    | _, _ => (signs, rest)
  if (negated && !f.unicode) || !members.all fun c => (Atom.char c false).isMember f then none
  else some (members.map fun _ => 0, rest)

/-- Reads a member or a range of characters in order. A minus sign means no range before a closing
bracket or another minus sign. -/
def readMember (f : Flags) (s : List Char) : Option (List Char) := do
  let (a, rest) ← Atom.read? f s
  if !a.isMember f then none
  match f.skip rest with
  | '-' :: behind =>
    if f.ahead? behind = some ']' || f.ahead? behind = some '-' then some ('-' :: behind)
    else do
      let (b, rest) ← Atom.read? f (f.skip behind)
      match a, b with
      | .char low _, .char high _ => if b.isMember f && low ≤ high then some rest else none
      | _, _ => none
  | rest => some rest

/-- The text behind a doubled character that is an operator. -/
def operator? : List Char → Option (List Char)
  | '&' :: '&' :: rest => some rest
  | '-' :: '-' :: rest => some rest
  | '~' :: '~' :: rest => some rest
  | _ => none

/-- Reads up to the closing bracket of a set; `left` is the depth of what stands before the last
operator, and `members` are the depths of the members behind it. Gives the depth of the content. -/
def readContent (f : Flags) : Nat → Option Nat → List Nat → List Char → Option (Nat × List Char)
  | 0, _, _, _ => none
  | fuel + 1, left, members, s =>
    let right := nesting members
    let whole := left.elim right fun l => max l right + 1
    match f.skip s with
    | [] => none
    | ']' :: rest => some (whole, rest)
    | '[' :: inner =>
      match readClass? inner with
      | some (negated, rest) =>
        if allowsClass f negated then readContent f fuel left (0 :: members) rest else none
      | none => do
        let (opening, rest) ← readOpening f inner
        let (depth, rest) ← readContent f fuel none opening rest
        readContent f fuel left ((depth + 1) :: members) rest
    | s =>
      match operator? s with
      | some rest => readContent f fuel (some whole) [] rest
      | none => do readContent f fuel left (0 :: members) (← readMember f s)

/-- Reads a set behind its opening bracket and gives its depth. -/
def read? (f : Flags) (s : List Char) : Option (Nat × List Char) := do
  let (opening, rest) ← readOpening f s
  let (depth, rest) ← readContent f (rest.length + 1) none opening rest
  return (depth + 1, rest)

end CharSet

end TwinHeap.Log.Pattern
