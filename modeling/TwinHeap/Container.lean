import TwinHeap.Address
import TwinHeap.Failure

/-!
Containers: the packed elements of an array, a set or a map.

A container knows its bytes and how many elements they are, but not the type of the elements, so
taking it apart checks that the bytes divide evenly.
-/

namespace TwinHeap

/-- Packed elements and their number. -/
structure Container where
  bytes : List UInt8
  len : Nat
deriving DecidableEq, Repr

namespace Container

def empty : Container := ⟨[], 0⟩

def isEmpty (c : Container) : Bool := c.len == 0

/-- The chunks of `size` bytes from the front; a shorter rest is dropped. -/
def chunks (size : Nat) : Nat → List UInt8 → List (List UInt8)
  | 0, _ => []
  | n + 1, bytes =>
    if bytes.length < size then [] else bytes.take size :: chunks size n (bytes.drop size)

/-- The elements of `size` bytes each. Elements of no size leave no trace in the bytes, so none
are found. -/
def elements (size : Nat) (c : Container) : Except Panic (List (List UInt8)) :=
  match checkedMul c.len size with
  | .error e => .error (.overflow e)
  | .ok total =>
    if c.bytes.length = total then .ok ((chunks (max size 1) c.bytes.length c.bytes).take c.len)
    else .error (.elementSize c.bytes.length total)

/-- The container of the given elements. -/
def ofElements (es : List (List UInt8)) : Container := ⟨es.flatten, es.length⟩

end Container

/-- The types of element that a container is read as. -/
inductive Element
  | int8
  | uint16
  | int32
  | uint64
  /-- The type with one value, which takes no space. -/
  | unit
deriving DecidableEq, Repr

namespace Element

def width : Element → Nat
  | int8 => 1
  | uint16 => 2
  | int32 => 4
  | uint64 => 8
  | unit => 0

def isSigned : Element → Bool
  | int8 | int32 => true
  | _ => false

/-- The packed form of a value; what does not fit the width is dropped. -/
def encode (e : Element) (v : Int) : List UInt8 :=
  littleEndian e.width (v % (octetRange e.width : Nat)).toNat

/-- The value packed in the bytes. -/
def decode (e : Element) (bytes : List UInt8) : Int :=
  let n : Nat := ofLittleEndian bytes
  if e.isSigned && 2 * n ≥ octetRange e.width then (n : Int) - (octetRange e.width : Nat) else n

end Element

namespace Container

/-- The container of the given values. -/
def ofValues (e : Element) (vs : List Int) : Container := ofElements (vs.map e.encode)

/-- The values, if the bytes divide evenly. -/
def values (e : Element) (c : Container) : Except Panic (List Int) :=
  (c.elements e.width).map fun es => es.map e.decode

end Container

end TwinHeap
