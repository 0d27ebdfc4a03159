import TwinHeap.Text.Hexadecimal

/-!
The lexemes of TOML: blanks, comments, line ends, keys and the four kinds of string.

A reader takes the text and gives what it read and the rest, or nothing if the text does not start
with what it reads.
-/

namespace TwinHeap.Toml

/-- Reads something from the front of a text. -/
abbrev Reader (α : Type) := List Char → Option (α × List Char)

/-- Whether a character may stand for itself in a comment or a string: no control character but the
tab may. Quotes and escapes are not seen to here. -/
def isTextChar (c : Char) : Bool := c == '\t' || (0x20 ≤ c.toNat && c.toNat != 0x7F)

def isBlank (c : Char) : Bool := c == ' ' || c == '\t'

def skipBlanks (s : List Char) : List Char := s.dropWhile isBlank

/-- One line end, if the text starts with it. -/
def lineEnd? : List Char → Option (List Char)
  | '\n' :: rest => some rest
  | '\r' :: '\n' :: rest => some rest
  | _ => none

/-- The text behind any blanks and line ends; a carriage return is a line end only together with the
line feed behind it. -/
def skipSpace : List Char → List Char
  | '\r' :: '\n' :: rest => skipSpace rest
  | c :: rest => if isBlank c || c == '\n' then skipSpace rest else c :: rest
  | [] => []

/-- The text behind a comment, if one starts here. -/
def skipComment : List Char → List Char
  | '#' :: rest => rest.dropWhile isTextChar
  | s => s

/-- The next line, if nothing but blanks and a comment is left on this one. -/
def nextLine (s : List Char) : Option (List Char) :=
  match skipComment (skipBlanks s) with
  | [] => some []
  | rest => lineEnd? rest

/-- The text behind any blanks, line ends and comments. -/
def skipLines : Nat → List Char → Option (List Char)
  | 0, s => some s
  | fuel + 1, s =>
    match skipBlanks s with
    | '#' :: rest => (lineEnd? (rest.dropWhile isTextChar)).bind (skipLines fuel)
    | rest =>
      match lineEnd? rest with
      | some rest => skipLines fuel rest
      | none => some rest

/-- The character named by exactly `n` hexadecimal digits. -/
def codePoint (n : Nat) (s : List Char) : Option (Char × List Char) :=
  let digits := s.take n
  if digits.length = n then (Text.characterOfHex? digits).map fun c => (c, s.drop n) else none

/-- The character of an escape, the backslash being read already. -/
def escape : Reader Char
  | 'b' :: rest => some ('\x08', rest)
  | 't' :: rest => some ('\t', rest)
  | 'n' :: rest => some ('\n', rest)
  | 'f' :: rest => some ('\x0c', rest)
  | 'r' :: rest => some ('\r', rest)
  | '"' :: rest => some ('"', rest)
  | '\\' :: rest => some ('\\', rest)
  | 'u' :: rest => codePoint 4 rest
  | 'U' :: rest => codePoint 8 rest
  | _ => none

/-- The rest of a basic string, up to its closing quote. -/
def basicRest : Nat → Reader (List Char)
  | 0, _ => none
  | fuel + 1, s =>
    match s with
    | '"' :: rest => some ([], rest)
    | '\\' :: rest => do
      let (c, rest) ← escape rest
      let (cs, rest) ← basicRest fuel rest
      return (c :: cs, rest)
    | c :: rest =>
      if isTextChar c then (basicRest fuel rest).map fun (cs, rest) => (c :: cs, rest) else none
    | [] => none

/-- The rest of a literal string, up to its closing quote. -/
def literalRest : Reader (List Char)
  | [] => none
  | c :: rest =>
    if c = '\'' then some ([], rest)
    else if isTextChar c then (literalRest rest).map fun (cs, rest) => (c :: cs, rest)
    else none

/-- How many of `q` the text starts with, at most five counted. -/
def quoteRun (q : Char) (s : List Char) : Nat := ((s.take 5).takeWhile (· == q)).length

/-- The rest of a string over several lines, up to its three closing quotes; up to two more quotes
in front of those belong to the string. With `escapes` a backslash starts an escape, and at the end
of a line it joins the line to the next text. -/
def multilineRest (q : Char) (escapes : Bool) : Nat → Reader (List Char)
  | 0, _ => none
  | fuel + 1, s =>
    match s with
    | [] => none
    | c :: rest =>
      if c = q then
        let n := quoteRun q s
        if n < 3 then
          (multilineRest q escapes fuel (s.drop n)).map fun (cs, rest) =>
            (List.replicate n q ++ cs, rest)
        else some (List.replicate (n - 3) q, s.drop n)
      else if escapes && c = '\\' then
        match lineEnd? (skipBlanks rest) with
        | some rest => multilineRest q escapes fuel (skipSpace rest)
        | none => do
          let (c, rest) ← escape rest
          let (cs, rest) ← multilineRest q escapes fuel rest
          return (c :: cs, rest)
      else
        match lineEnd? s with
        | some rest =>
          (multilineRest q escapes fuel rest).map fun (cs, rest) => ('\n' :: cs, rest)
        | none =>
          if isTextChar c then
            (multilineRest q escapes fuel rest).map fun (cs, rest) => (c :: cs, rest)
          else none

/-- A string over several lines, its opening quotes being read already; a line end right behind
them is not part of it. -/
def multiline (q : Char) (escapes : Bool) (s : List Char) : Option (List Char × List Char) :=
  multilineRest q escapes (s.length + 1) ((lineEnd? s).getD s)

/-- A string on one line, if one starts here. -/
def lineString : Reader String
  | '"' :: rest => (basicRest (rest.length + 1) rest).map fun (cs, r) => (String.ofList cs, r)
  | '\'' :: rest => (literalRest rest).map fun (cs, r) => (String.ofList cs, r)
  | _ => none

/-- Any string. -/
def string : Reader String
  | '"' :: '"' :: '"' :: rest =>
    (multiline '"' true rest).map fun (cs, r) => (String.ofList cs, r)
  | '\'' :: '\'' :: '\'' :: rest =>
    (multiline '\'' false rest).map fun (cs, r) => (String.ofList cs, r)
  | s => lineString s

/-- Whether a character may stand in a bare key. -/
def isBareChar (c : Char) : Bool := c.isAlphanum || c == '_' || c == '-'

/-- One part of a key. -/
def simpleKey (s : List Char) : Option (String × List Char) :=
  match s with
  | '"' :: _ | '\'' :: _ => lineString s
  | _ =>
    match s.span isBareChar with
    | ([], _) => none
    | (cs, rest) => some (String.ofList cs, rest)

/-- How deep a document may nest, in keys and in values. -/
def nestingLimit : Nat := 80

/-- A key of one or more parts, with the blanks around it. -/
def key : Nat → Reader (List String)
  | 0, _ => none
  | fuel + 1, s => do
    let (part, rest) ← simpleKey (skipBlanks s)
    match skipBlanks rest with
    | '.' :: rest => do
      let (parts, rest) ← key fuel rest
      return (part :: parts, rest)
    | rest => return ([part], rest)

end TwinHeap.Toml
