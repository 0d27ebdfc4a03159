import TwinHeap.Log.Pattern.Flags
import TwinHeap.Text.Hexadecimal

/-!
The atoms of a pattern: single characters, the classes that a backslash and a letter name, and the
edges of texts and words.

Two things are refused whatever the flags: references to groups, and properties of characters. There
are no tables of characters to a pattern, so by characters it neither ignores case nor knows digits,
blanks and words; by octets it does, but then it must not match an octet that is no ASCII character
by itself.
-/

namespace TwinHeap.Log.Pattern

inductive Atom
  /-- A character; when it was given by two hexadecimal digits, it can stand for an octet. -/
  | char (c : Char) (octet : Bool)
  /-- The digits, blanks or characters of words, or all the others. -/
  | kind (negated : Bool)
  /-- A place between characters. -/
  | edge (ofWord : Bool)
deriving DecidableEq, Repr

namespace Atom

/-- Whether an atom can be matched outside of sets. -/
def isAllowed (f : Flags) : Atom → Bool
  | .char c octet => if f.unicode then !f.ignoreCase else !octet || c.toNat < 0x80
  | .kind negated => !f.unicode && !negated
  | .edge _ => true

/-- Whether an atom can be a member of a set. In a set of octets there are ASCII characters only. -/
def isMember (f : Flags) : Atom → Bool
  | .char c _ => if f.unicode then !f.ignoreCase else c.toNat < 0x80
  | .kind negated => !f.unicode && !negated
  | .edge _ => false

/-- What is allowed in a set is allowed outside of one. -/
theorem isAllowed_of_isMember {f : Flags} {a : Atom} (h : a.isMember f = true) :
    a.isAllowed f = true := by
  cases a with
  | char c octet =>
    by_cases u : f.unicode
    · simpa [isAllowed, isMember, u] using h
    · simp only [isMember, u] at h
      simp [isAllowed, u, of_decide_eq_true h]
  | kind negated => exact h
  | edge ofWord => rfl

/-- Reads the number of a character: so many hexadecimal digits, or any number between braces. -/
def readHex (f : Flags) (width : Nat) (s : List Char) : Option (Atom × List Char) :=
  match f.skip s with
  | '\x7b' :: s =>
    match f.gather Text.isHexDigit none s with
    | ([], _) => none
    | (digits, '\x7d' :: rest) => (Text.characterOfHex? digits).map fun c => (char c false, rest)
    | _ => none
  | s =>
    let (digits, rest) := f.gather Text.isHexDigit (some width) s
    if digits.length = width then
      (Text.characterOfHex? digits).map fun c => (char c (width = 2), rest)
    else none

/-- The names of the edges of words that `\b` takes between braces. -/
def edgeNames : List String := ["start", "end", "start-half", "end-half"]

/-- The text behind the name of an edge of words, if there is one: braces with anything but a name
in them count repetitions. -/
def readEdge (f : Flags) : List Char → Option (List Char)
  | '\x7b' :: s =>
    let isNameChar (c : Char) : Bool := c.isAlpha || c = '-'
    match f.skip s with
    | [] => none
    | c :: rest =>
      if isNameChar c then
        match f.gather isNameChar none (c :: rest) with
        | (name, '\x7d' :: rest) =>
          if edgeNames.contains (String.ofList name) then some rest else none
        | _ => none
      else some ('\x7b' :: s)
  | s => some s

/-- The letters that stand for control characters behind a backslash. -/
def controls : List (Char × Char) :=
  [('a', '\x07'), ('t', '\t'), ('n', '\n'), ('v', '\x0b'), ('f', '\x0c'), ('r', '\r')]

/-- Reads what is behind a backslash. ASCII characters other than letters, digits and angle brackets
stand for themselves. -/
def readEscape (f : Flags) : List Char → Option (Atom × List Char)
  | [] => none
  | c :: s =>
    match c with
    | 'x' => readHex f 2 s
    | 'u' => readHex f 4 s
    | 'U' => readHex f 8 s
    | 'd' | 's' | 'w' => some (kind false, s)
    | 'D' | 'S' | 'W' => some (kind true, s)
    | 'A' | 'z' => some (edge false, s)
    | 'B' | '<' | '>' => some (edge true, s)
    | 'b' => (readEdge f s).map fun rest => (edge true, rest)
    | c =>
      match controls.find? fun entry => entry.1 = c with
      | some (_, control) => some (char control false, s)
      | none => if c.isAlphanum || 0x80 ≤ c.toNat then none else some (char c false, s)

/-- Reads a character or an escape. -/
def read? (f : Flags) : List Char → Option (Atom × List Char)
  | [] => none
  | '\\' :: s => readEscape f s
  | c :: s => some (char c false, s)

end Atom

end TwinHeap.Log.Pattern
