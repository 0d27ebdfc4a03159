import TwinHeap.Address

/-!
The values that a scenario is written with and answered in.
-/

namespace TwinHeap.Scenario

/-- A value of a scenario. -/
inductive Datum
  | null
  | bool (b : Bool)
  | number (n : Int)
  | text (s : String)
  | list (items : List Datum)
  | record (fields : List (String × Datum))
deriving BEq, Repr, Inhabited

namespace Datum

def nat (n : Nat) : Datum := number n

/-- A number written out, for counts that may not fit a reader's numbers. -/
def digits (n : Int) : Datum := text (toString n)

def ofOption {α : Type} (f : α → Datum) : Option α → Datum
  | none => null
  | some a => f a

def isNull : Datum → Bool
  | null => true
  | _ => false

/-- The number of a datum that is one or is one written out. -/
def toInt? : Datum → Option Int
  | number n => some n
  | text s => s.toInt?
  | _ => none

def toNat? (d : Datum) : Option Nat := d.toInt?.map Int.toNat

def toText? : Datum → Option String
  | text s => some s
  | _ => none

/-- The text of a datum that is read as one. -/
def asText : Datum → String
  | text s => s
  | number n => toString n
  | _ => ""

def items : Datum → List Datum
  | list ds => ds
  | _ => []

/-- The field of a record, `null` if it is left out. -/
def field (d : Datum) (name : String) : Datum :=
  match d with
  | record fs => ((fs.find? fun f => f.1 == name).map Prod.snd).getD null
  | _ => null

end Datum

/-! Bytes, written as two hexadecimal digits each. -/

namespace Hex

def digit (n : Nat) : Char := Nat.digitChar (n % 16)

def ofByte (b : UInt8) : List Char := [digit (b.toNat / 16), digit b.toNat]

def encode (bytes : List UInt8) : String := String.ofList (bytes.flatMap ofByte)

def value? (c : Char) : Option Nat :=
  if c.isDigit then some (c.toNat - '0'.toNat)
  else if 'a' ≤ c ∧ c ≤ 'f' then some (c.toNat - 'a'.toNat + 10)
  else if 'A' ≤ c ∧ c ≤ 'F' then some (c.toNat - 'A'.toNat + 10)
  else none

def decodeChars : List Char → List UInt8
  | a :: b :: rest =>
    match value? a, value? b with
    | some x, some y => UInt8.ofNat (16 * x + y) :: decodeChars rest
    | _, _ => []
  | _ => []

/-- The bytes of a text, as far as it is made of pairs of digits. -/
def decode (s : String) : List UInt8 := decodeChars s.toList

end Hex

end TwinHeap.Scenario
