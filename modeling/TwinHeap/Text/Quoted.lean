import TwinHeap.Text.Hidden

/-!
Text between quotes.

Quotes and backslashes are escaped, and so is every character that would not be seen by itself
between the quotes.
-/

namespace TwinHeap.Text

/-- The form of a character inside quotes. -/
def escapeChar (c : Char) : List Char :=
  if c = '"' then ['\\', '"']
  else if c = '\\' then ['\\', '\\']
  else if c = '\n' then ['\\', 'n']
  else if c = '\r' then ['\\', 'r']
  else if c = '\t' then ['\\', 't']
  else if c = Char.ofNat 0 then ['\\', '0']
  else if isHidden c then ['\\', 'u', '\x7b'] ++ Nat.toDigits 16 c.toNat ++ ['\x7d']
  else [c]

/-- The character between single quotes. Inside of them those are escaped, and double ones are
not. -/
def quoteChar (c : Char) : String :=
  let inner := if c = '\'' then ['\\', c] else if c = '"' then [c] else escapeChar c
  String.ofList ('\'' :: (inner ++ ['\'']))

/-- The text between quotes. -/
def quote (s : String) : String :=
  String.ofList ('"' :: (s.toList.flatMap escapeChar ++ ['"']))

end TwinHeap.Text
