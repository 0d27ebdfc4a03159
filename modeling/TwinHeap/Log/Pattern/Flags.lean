import TwinHeap.Text.Blank

/-!
The flags of a pattern, and what stands between its parts.

A flag is in force from where it is set up to the end of its group. Three of them decide what a
pattern may hold: letters in either case, characters instead of octets, and blanks and comments
between the parts.
-/

namespace TwinHeap.Log.Pattern

/-- The flags in force. -/
structure Flags where
  /-- A letter stands for both of its cases. -/
  ignoreCase : Bool
  /-- A part stands for characters, not for octets. -/
  unicode : Bool
  /-- Blanks and comments between the parts mean nothing. -/
  spaced : Bool
deriving DecidableEq, Repr

namespace Flags

/-- The flags at the start of a pattern. -/
def initial : Flags := ⟨false, true, false⟩

/-- The letters of all flags. -/
def letters : List Char := ['i', 'm', 's', 'U', 'u', 'x', 'R']

/-- Switches the flag of a letter. -/
def switch (f : Flags) (letter : Char) (on : Bool) : Flags :=
  match letter with
  | 'i' => { f with ignoreCase := on }
  | 'u' => { f with unicode := on }
  | 'x' => { f with spaced := on }
  | _ => f

/-- Reads the letters of flags up to the mark behind them; those behind a minus sign are switched
off. No letter comes twice, nor does the sign, which a letter follows. Gives what was read, last
first, and the text from the mark on. -/
def read? (f : Flags) (seen : List Char) : List Char → Option (Flags × List Char × List Char)
  | [] => none
  | c :: s =>
    if c = ':' || c = ')' then if seen.head? = some '-' then none else some (f, seen, c :: s)
    else if seen.contains c then none
    else if c = '-' then read? f (c :: seen) s
    else if letters.contains c then read? (f.switch c (!seen.contains '-')) (c :: seen) s
    else none

/-- The text behind blanks and comments, which may start inside of a comment. A comment goes from
`#` to the end of its line. -/
def skipFrom (comment : Bool) : List Char → List Char
  | [] => []
  | c :: s =>
    if comment then skipFrom (c != '\n') s
    else if Text.isBlank c then skipFrom false s
    else if c = '#' then skipFrom true s
    else c :: s

/-- The text from the next part on. -/
def skip (f : Flags) (s : List Char) : List Char := if f.spaced then skipFrom false s else s

/-- Reads the characters of a class that has neither blanks nor `#`, perhaps at most so many of them,
passing over what means nothing. -/
def gatherFrom (f : Flags) (p : Char → Bool) (comment : Bool) :
    Option Nat → List Char → List Char × List Char
  | _, [] => ([], [])
  | some 0, s => ([], s)
  | limit, c :: s =>
    if comment then gatherFrom f p (c != '\n') limit s
    else if p c then
      let (cs, rest) := gatherFrom f p false (limit.map (· - 1)) s
      (c :: cs, rest)
    else if f.spaced && Text.isBlank c then gatherFrom f p false limit s
    else if f.spaced && c = '#' then gatherFrom f p true limit s
    else ([], c :: s)

def gather (f : Flags) (p : Char → Bool) (limit : Option Nat) (s : List Char) :
    List Char × List Char :=
  gatherFrom f p false limit s

/-- The character that decides what a minus sign before it means: the next one that is no blank.
One `#` is passed over with the blanks, but no comment is. -/
def ahead? (f : Flags) (s : List Char) : Option Char :=
  if f.spaced then
    match s.dropWhile Text.isBlank with
    | '#' :: rest => (rest.dropWhile Text.isBlank).head?.or s.head?
    | rest => rest.head?.or s.head?
  else s.head?

@[simp] theorem skip_of_not_spaced {f : Flags} (h : f.spaced = false) (s : List Char) :
    f.skip s = s := by
  simp [skip, h]

theorem skipFrom_suffix (comment : Bool) (s : List Char) : skipFrom comment s <:+ s := by
  induction s generalizing comment with
  | nil => exact List.suffix_refl _
  | cons c s ih =>
    have tail (b : Bool) : skipFrom b s <:+ c :: s := (ih b).trans (List.suffix_cons c s)
    rw [skipFrom]
    split
    · exact tail _
    · split
      · exact tail _
      · split
        · exact tail _
        · exact List.suffix_refl _

/-- Only the front of a text is skipped. -/
theorem skip_suffix (f : Flags) (s : List Char) : f.skip s <:+ s := by
  unfold skip
  split
  · exact skipFrom_suffix false s
  · exact List.suffix_refl s

end Flags

end TwinHeap.Log.Pattern
