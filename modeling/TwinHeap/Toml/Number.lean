import TwinHeap.Toml.Node
import TwinHeap.Toml.Lexeme

/-!
The numbers and dates of TOML.

An integer must fit in 64 bits, and a float must not round to positive infinity; one that rounds to
negative infinity is let through. Which of the two a text is, or whether it is a date, is seen from
how it goes on.
-/

namespace TwinHeap.Toml

/-- Digits of which each further one may follow an underscore. -/
def digits (isDigit : Char → Bool) : List Char → Option (List Char × List Char)
  | [] => none
  | c :: rest => if isDigit c then some (more [c] rest) else none
where
  more (read : List Char) : List Char → List Char × List Char
    | '_' :: c :: rest =>
      if isDigit c then more (read ++ [c]) rest else (read, '_' :: c :: rest)
    | c :: rest => if isDigit c then more (read ++ [c]) rest else (read, c :: rest)
    | [] => (read, [])

/-- The number that the digits stand for. -/
def ofDigits (base : Nat) (ds : List Char) : Nat :=
  ds.foldl (fun v d => v * base + (Text.hexDigit? d).getD 0) 0

/-- A sign, if the text starts with one: whether it is a minus. -/
def sign : List Char → Bool × List Char
  | '+' :: rest => (false, rest)
  | '-' :: rest => (true, rest)
  | s => (false, s)

/-- The decimal digits of an integer, without leading zeros. -/
def wholeDigits (s : List Char) : Option (List Char × List Char) :=
  match s with
  | '0' :: rest => some (['0'], rest)
  | _ => digits Char.isDigit s

/-- Whether an integer fits in 64 bits. -/
def fitsInt64 (v : Int) : Bool := -0x8000000000000000 ≤ v && v < 0x8000000000000000

/-- Digits of another base behind their mark. -/
def basedInteger (base : Nat) (isDigit : Char → Bool) (s : List Char) :
    Option (Node × List Char) := do
  let (ds, rest) ← digits isDigit s
  let v : Int := ofDigits base ds
  if fitsInt64 v then some (.integer v, rest) else none

def integer (s : List Char) : Option (Node × List Char) :=
  match s with
  | '0' :: 'x' :: rest => basedInteger 16 Text.isHexDigit rest
  | '0' :: 'o' :: rest => basedInteger 8 (fun c => '0' ≤ c && c ≤ '7') rest
  | '0' :: 'b' :: rest => basedInteger 2 (fun c => c == '0' || c == '1') rest
  | _ => do
    let (negative, rest) := sign s
    let (ds, rest) ← wholeDigits rest
    let n : Int := ofDigits 10 ds
    let v := if negative then -n else n
    if fitsInt64 v then some (.integer v, rest) else none

/-- Whether the mantissa, moved by `exponent` decimal places, rounds to a finite double: it stays
below the midpoint between the largest one and the next power of two. -/
def isFinite (mantissa : Nat) (exponent : Int) : Bool :=
  let magnitude := (Nat.toDigits 10 mantissa).length + exponent
  if mantissa = 0 || magnitude < 300 then true
  else if 400 < magnitude then false
  else
    let bound := Nat.pow 2 1024 - Nat.pow 2 970
    if 0 ≤ exponent then mantissa * Nat.pow 10 exponent.toNat < bound
    else mantissa < bound * Nat.pow 10 exponent.natAbs

/-- The exponent of a float, if one starts here. -/
def exponent (s : List Char) : Option (Int × List Char) :=
  match s with
  | c :: rest =>
    if c = 'e' || c = 'E' then do
      let (negative, rest) := sign rest
      let (ds, rest) ← digits Char.isDigit rest
      let n : Int := ofDigits 10 ds
      return (if negative then -n else n, rest)
    else none
  | [] => none

/-- A float: a fraction, an exponent or both must be there, or a name. -/
def float (s : List Char) : Option (Node × List Char) :=
  let (negative, unsigned) := sign s
  match unsigned with
  | 'i' :: 'n' :: 'f' :: rest => some (.float, rest)
  | 'n' :: 'a' :: 'n' :: rest => some (.float, rest)
  | _ => do
    let (whole, rest) ← wholeDigits unsigned
    let (fraction, rest, hasFraction) ← match rest with
      | '.' :: after => do
        let (ds, after) ← digits Char.isDigit after
        pure (ds, after, true)
      | _ => pure ([], rest, false)
    let (power, rest, hasExponent) ← match rest with
      | 'e' :: _ | 'E' :: _ => do
        let (n, rest) ← exponent rest
        pure (n, rest, true)
      | _ => pure (0, rest, false)
    if hasFraction || hasExponent then
      let mantissa := ofDigits 10 (whole ++ fraction)
      if negative || isFinite mantissa (power - fraction.length) then some (.float, rest)
      else none
    else none

/-- A number of exactly `n` digits within bounds. -/
def fixedDigits (n low high : Nat) (s : List Char) : Option (Nat × List Char) :=
  let ds := s.take n
  let v := ofDigits 10 ds
  if ds.length = n && ds.all Char.isDigit && low ≤ v && v ≤ high then some (v, s.drop n) else none

def expect (c : Char) : List Char → Option (List Char)
  | x :: rest => if x = c then some rest else none
  | [] => none

def isLeapYear (y : Nat) : Bool := (y % 4 == 0 && y % 100 != 0) || y % 400 == 0

def daysInMonth (y m : Nat) : Nat :=
  if m = 2 then if isLeapYear y then 29 else 28
  else if m = 4 || m = 6 || m = 9 || m = 11 then 30
  else 31

/-- A day of the calendar. -/
def date (s : List Char) : Option (List Char) := do
  let (y, rest) ← fixedDigits 4 0 9999 s
  let rest ← expect '-' rest
  let (m, rest) ← fixedDigits 2 1 12 rest
  let rest ← expect '-' rest
  let (_, rest) ← fixedDigits 2 1 (daysInMonth y m) rest
  return rest

/-- A time of day; the seconds go up to a leap second. -/
def time (s : List Char) : Option (List Char) := do
  let (_, rest) ← fixedDigits 2 0 23 s
  let rest ← expect ':' rest
  let (_, rest) ← fixedDigits 2 0 59 rest
  let rest ← expect ':' rest
  let (_, rest) ← fixedDigits 2 0 60 rest
  match rest with
  | '.' :: after =>
    match after.span Char.isDigit with
    | ([], _) => none
    | (_, rest) => return rest
  | _ => return rest

/-- An offset from universal time, if one starts here. -/
def offset (s : List Char) : Option (List Char) :=
  match s with
  | 'Z' :: rest | 'z' :: rest => some rest
  | '+' :: rest | '-' :: rest => do
    let (_, rest) ← fixedDigits 2 0 23 rest
    let rest ← expect ':' rest
    let (_, rest) ← fixedDigits 2 0 59 rest
    return rest
  | _ => some s

/-- Whether the text goes on like a date. -/
def looksLikeDate (s : List Char) : Bool :=
  (s.take 4).length == 4 && (s.take 4).all Char.isDigit && (s.drop 4).head? == some '-'

/-- Whether the text goes on like a time of day. -/
def looksLikeTime (s : List Char) : Bool :=
  (s.take 2).length == 2 && (s.take 2).all Char.isDigit && (s.drop 2).head? == some ':'

/-- A date, a time, or a date with a time behind it. -/
def dateTime (s : List Char) : Option (Node × List Char) :=
  if looksLikeTime s then (time s).map fun rest => (.dateTime, rest)
  else do
    let rest ← date s
    match rest with
    | c :: after =>
      if c = 'T' || c = 't' || (c = ' ' && looksLikeTime after) then do
        let rest ← time after
        let rest ← offset rest
        return (.dateTime, rest)
      else return (.dateTime, rest)
    | [] => return (.dateTime, [])

/-- A number or a date. -/
def number (s : List Char) : Option (Node × List Char) :=
  if looksLikeDate s || looksLikeTime s then dateTime s
  else
    match float s with
    | some r => some r
    | none => integer s

end TwinHeap.Toml
