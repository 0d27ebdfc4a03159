import TwinHeap.Log.Pattern.CharSet
import TwinHeap.Text.Alphabetic
import TwinHeap.Text.Numeral

/-!
Patterns: the regular expressions that the value of a field can be compared with.

`Pattern.isValid` says which texts are patterns. What a pattern matches is not needed, because only
spans are compared with patterns and this library opens none, so just the shape of a pattern is
kept: how deep its parts are nested, and whether it asks for the edges of words of characters, which
cannot be found.
-/

namespace TwinHeap.Log.Pattern

/-- What is kept of a part. -/
structure Shape where
  depth : Nat
  /-- Whether the edges of words, by characters, are asked for. -/
  words : Bool
deriving DecidableEq, Repr

namespace Shape

/-- A part that has no parts. -/
def leaf : Shape := ⟨0, false⟩

/-- Parts side by side, or the choice between them. -/
def together (parts : List Shape) : Shape :=
  ⟨nesting (parts.map depth), parts.any words⟩

/-- The part in a group. -/
def grouped (s : Shape) : Shape := { s with depth := s.depth + 1 }

/-- The part repeated; repeated no times it asks for nothing. -/
def repeated (s : Shape) (never : Bool) : Shape := ⟨s.depth + 1, s.words && !never⟩

/-- Nothing is asked for that no part asks for. -/
theorem words_together (parts : List Shape) :
    (together parts).words = true ↔ ∃ p ∈ parts, p.words = true := by
  simp [together]

/-- No part is nested deeper than all the parts together. -/
theorem depth_le_together {p : Shape} {parts : List Shape} (h : p ∈ parts) :
    p.depth ≤ (together parts).depth :=
  le_nesting (List.mem_map_of_mem h)

end Shape

/-- A part of a sequence: flags that are set on the way cannot be repeated. -/
inductive Part
  | flags
  | shape (s : Shape)
deriving DecidableEq, Repr

def Part.toShape : Part → Shape
  | flags => .leaf
  | shape s => s

/-- The parts read since the start of a group, the last first, with the choices before them. -/
structure Branch where
  parts : List Part
  choices : List Shape
deriving DecidableEq, Repr

namespace Branch

def empty : Branch := ⟨[], []⟩

def push (b : Branch) (p : Part) : Branch := { b with parts := p :: b.parts }

def sequence (b : Branch) : Shape := .together (b.parts.map Part.toShape)

/-- Begins another choice. -/
def alternate (b : Branch) : Branch := ⟨[], b.sequence :: b.choices⟩

def whole (b : Branch) : Shape := .together (b.sequence :: b.choices)

/-- Repeats the last part, if there is one that can be. -/
def repeatLast (b : Branch) (never : Bool) : Option Branch :=
  match b.parts with
  | .shape s :: rest => some { b with parts := .shape (s.repeated never) :: rest }
  | _ => none

end Branch

/-- A group that is open: what came before it, and the flags to go back to. -/
structure OpenGroup where
  before : Branch
  flags : Flags
deriving DecidableEq, Repr

/-- A pattern that is being read. -/
structure Reading where
  flags : Flags
  branch : Branch
  groups : List OpenGroup
  /-- The names given to groups. -/
  names : List (List Char)
deriving DecidableEq, Repr

namespace Reading

def start : Reading := ⟨.initial, .empty, [], []⟩

def push (r : Reading) (s : Shape) : Reading := { r with branch := r.branch.push (.shape s) }

def openGroup (r : Reading) (inner : Flags) : Reading :=
  { r with flags := inner, branch := .empty, groups := ⟨r.branch, r.flags⟩ :: r.groups }

/-- Closes the innermost group, if one is open. -/
def closeGroup (r : Reading) : Option Reading :=
  match r.groups with
  | [] => none
  | g :: groups =>
    let part := Part.shape r.branch.whole.grouped
    some { r with flags := g.flags, branch := g.before.push part, groups }

/-- Whether a name can be given to a group. -/
def isName : List Char → Bool
  | [] => false
  | c :: cs =>
    (c = '_' || Text.isAlphabetic c) &&
      cs.all fun c => ['_', '.', '[', ']'].contains c || Text.isAlphanumeric c

/-- Opens a group behind the bracket that its name stands in. No name is given twice. -/
def openNamed (r : Reading) (s : List Char) : Option (Reading × List Char) :=
  match s.span (· != '>') with
  | (name, _ :: rest) =>
    if isName name && !r.names.contains name then
      some ({ r.openGroup r.flags with names := name :: r.names }, rest)
    else none
  | _ => none

/-- Reads what is behind an opening parenthesis: a name or flags of the group, or flags for the
rest of the group around. -/
def readGroup (r : Reading) (s : List Char) : Option (Reading × List Char) :=
  match r.flags.skip s with
  | '?' :: 'P' :: '<' :: s => r.openNamed s
  | '?' :: '<' :: s => r.openNamed s
  | '?' :: s =>
    match r.flags.read? [] s with
    | some (flags, _, ':' :: rest) => some (r.openGroup flags, rest)
    | some (flags, _ :: _, _ :: rest) =>
      some ({ r with flags, branch := r.branch.push .flags }, rest)
    | _ => none
  | s => some (r.openGroup r.flags, s)

/-- The largest number of repetitions. -/
def maxCount : Nat := 0xFFFFFFFF

/-- Reads a number of repetitions, between any blanks. -/
def readNumber (f : Flags) (s : List Char) : Option (Nat × List Char) :=
  let s := s.dropWhile Text.isBlank
  let (digits, rest) := f.gather Char.isDigit none s
  let n := digits.foldl (fun n c => 10 * n + (c.toNat - '0'.toNat)) 0
  if digits.isEmpty || n > maxCount then none else some (n, rest.dropWhile Text.isBlank)

/-- Reads the numbers of repetitions behind an opening brace: just so many, at least so many, or a
range. Says whether they forbid the part. -/
def readCount (f : Flags) (s : List Char) : Option (Bool × List Char) := do
  let (least, rest) ← readNumber f (f.skip s)
  match rest with
  | '\x7d' :: rest => some (least = 0, rest)
  | ',' :: rest =>
    match f.skip rest with
    | '\x7d' :: rest => some (false, rest)
    | rest => do
      match ← readNumber f rest with
      | (most, '\x7d' :: rest) => if least ≤ most then some (most = 0, rest) else none
      | _ => none
  | _ => none

/-- The text behind a question mark, which makes a repetition prefer to be short. -/
def dropLazy : List Char → List Char
  | '?' :: s => s
  | s => s

/-- Repeats the last part. -/
def repeatLast (r : Reading) (never : Bool) (rest : List Char) : Option (Reading × List Char) :=
  (r.branch.repeatLast never).map fun branch => ({ r with branch }, dropLazy rest)

/-- Reads a character or an escape outside of sets. -/
def readAtom (r : Reading) (s : List Char) : Option (Reading × List Char) := do
  let (a, rest) ← Atom.read? r.flags s
  if a.isAllowed r.flags then some (r.push ⟨0, a = .edge true && r.flags.unicode⟩, rest) else none

/-- Reads the part or the mark at the front of a text that is not empty. Any character is not any
octet, so a dot stands for characters only. -/
def step (r : Reading) (c : Char) (s : List Char) : Option (Reading × List Char) :=
  match c with
  | '(' => r.readGroup s
  | ')' => r.closeGroup.map fun r => (r, s)
  | '|' => some ({ r with branch := r.branch.alternate }, s)
  | '[' => (CharSet.read? r.flags s).map fun (depth, rest) => (r.push ⟨depth, false⟩, rest)
  | '*' | '+' | '?' => r.repeatLast false s
  | '\x7b' => do
    let (never, rest) ← readCount r.flags s
    r.repeatLast never (r.flags.skip rest)
  | '^' | '$' => some (r.push .leaf, s)
  | '.' => if r.flags.unicode then some (r.push .leaf, s) else none
  | c => r.readAtom (c :: s)

/-- Reads to the end of the text. -/
def run : Nat → Reading → List Char → Option Reading
  | 0, _, _ => none
  | fuel + 1, r, s =>
    match r.flags.skip s with
    | [] => some r
    | c :: s =>
      match r.step c s with
      | some (r, rest) => run fuel r rest
      | none => none

end Reading

/-- Reads a pattern, which leaves no group open. -/
def shape? (s : List Char) : Option Shape := do
  let r ← Reading.start.run (s.length + 1) s
  if r.groups.isEmpty then some r.branch.whole else none

/-- How deep the parts of a pattern can be nested. -/
def maxDepth : Nat := 250

/-- Whether a text is a pattern. -/
def isValid (s : List Char) : Bool :=
  match shape? s with
  | some shape => shape.depth ≤ maxDepth && !shape.words
  | none => false

/-- A group is closed as often as it is opened. -/
example : isValid "a(b|c)*[^]x]".toList = true ∧ isValid "(a".toList = false ∧
    isValid "a)".toList = false := by decide +kernel

/-- A repetition needs something to repeat. -/
example : isValid "*".toList = false ∧ isValid "a|+".toList = false ∧
    isValid "a**".toList = true := by decide +kernel

/-- A minus sign between two members of a set makes a range, which is in order. -/
example : isValid "[a-z&&[^m-p]]".toList = true ∧ isValid "[z-a]".toList = false ∧
    isValid "[-a-]".toList = true := by decide +kernel

/-- Digits are known among octets only. -/
example : isValid "(?-u)\\d".toList = true ∧ isValid "\\d".toList = false := by decide +kernel

end TwinHeap.Log.Pattern
