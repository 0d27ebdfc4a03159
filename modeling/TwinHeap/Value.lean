import TwinHeap.Container
import TwinHeap.Delegate
import TwinHeap.Host
import TwinHeap.Property.Descriptor

/-!
Values in storage, and what the host does with them: default, reset and assignment.

Plain values are octets. Assignment replaces them, except for a flag, which owns only the bits of
its mask and leaves its neighbours in the byte alone.
-/

namespace TwinHeap

/-- A value as it lies in storage. -/
inductive Value
  | plain (octets : List Octet)
  | string (text : String)
  | container (contents : Container)
  | delegate (binding : Delegate)
  | multicast (bindings : Multicast)
deriving DecidableEq, Repr

/-- How the host stores the values of a kind. -/
inductive Storage
  | plain
  | flag (mask : UInt8)
  | string
  | container
  | delegate
  | multicast
deriving DecidableEq, Repr

def Kind.storage : Kind → Storage
  | .bool mask => .flag mask
  | .string | .text | .softObject | .softClass => .string
  | .arrayOf _ | .setOf _ | .mapOf _ _ => .container
  | .delegate _ => .delegate
  | .multicast _ => .multicast
  | _ => .plain

namespace Octet

/-- The octet with the bits of `mask` taken from `src`. -/
def merge (mask : UInt8) (dest src : Octet) : Octet :=
  .value ((dest.byte &&& ~~~mask) ||| (src.byte &&& mask))

/-- The octet with the bits of `mask` all set or all cleared. -/
def setBits (mask : UInt8) (on : Bool) (o : Octet) : Octet :=
  .value (if on then o.byte ||| mask else o.byte &&& ~~~mask)

/-- Whether any bit of `mask` is set. -/
def anyBit (mask : UInt8) (o : Octet) : Bool := o.byte &&& mask != 0

end Octet

namespace Value

/-- The octets of a plain value. -/
def octets : Value → List Octet
  | plain os => os
  | _ => []

/-- The first `n` octets; memory that was never written reads as zero. -/
def read (v : Value) (n : Nat) : List Octet :=
  v.octets.take n ++ List.replicate (n - v.octets.length) .zero

def first (v : Value) : Octet := v.octets.headD .zero

/-- What lies `offset` octets behind the start; a value that is not octets has no inside. -/
def skip (v : Value) (offset : Nat) : Value :=
  match v with
  | plain os => plain (os.drop offset)
  | v => v

/-- The octets that lie before `offset`, filled up where there are fewer. -/
def front (old : List Octet) (offset : Nat) : List Octet :=
  old.take offset ++ List.replicate (offset - old.length) .zero

/-- The value with its octets from `offset` on replaced; a gap before them is cleared. -/
def splice (v : Value) (offset : Nat) (os : List Octet) : Value :=
  match v with
  | plain old => plain (front old offset ++ (os ++ old.drop (offset + os.length)))
  | v => v

/-- The value with its first octets replaced. -/
def write (v : Value) (os : List Octet) : Value := v.splice 0 os

/-- The value with another one put `offset` octets behind its start. Octets only take octets, and
any other value is replaced as a whole. -/
def put (v : Value) (offset : Nat) (new : Value) : Value :=
  match new, v with
  | plain os, v => v.splice offset os
  | _, plain old => plain old
  | new, _ => new

def text : Value → String
  | string s => s
  | _ => ""

def contents : Value → Container
  | container c => c
  | _ => .empty

/-- The default value of a property. -/
def default (p : Property) : Value :=
  match p.kind.storage with
  | .plain | .flag _ => plain (List.replicate p.size .zero)
  | .string => string ""
  | .container => container .empty
  | .delegate => delegate .unbound
  | .multicast => multicast []

/-- The value after it was reset to the default of its property. -/
def reset (p : Property) (v : Value) : Value :=
  match p.kind.storage with
  | .flag mask => v.write [v.first.setBits mask false]
  | .plain => v.write (List.replicate p.size .zero)
  | _ => default p

/-- The value after `src` was assigned to it. -/
def assign (p : Property) (v src : Value) : Value :=
  match p.kind.storage with
  | .flag mask => v.write [Octet.merge mask v.first src.first]
  | .plain => v.write (src.read p.size)
  | _ => src

@[simp] theorem length_read (v : Value) (n : Nat) : (v.read n).length = n := by
  simp [read]
  omega

@[simp] theorem length_front (old : List Octet) (offset : Nat) :
    (front old offset).length = offset := by
  simp [front]
  omega

/-- What was put at an offset is read there. -/
theorem read_skip_splice (old os : List Octet) (offset : Nat) :
    ((splice (plain old) offset os).skip offset).read os.length = os := by
  have h : (front old offset ++ (os ++ old.drop (offset + os.length))).drop offset =
      os ++ old.drop (offset + os.length) :=
    List.drop_left' (length_front old offset)
  simp [splice, skip, h, read, octets]

/-- What was written is read. -/
theorem read_write (os old : List Octet) : (write (plain old) os).read os.length = os :=
  read_skip_splice old os 0

end Value

/-- A 32-bit count in memory. -/
def wordOctets (n : Nat) : List Octet := (littleEndian 4 n).map .value

/-- The 32-bit count at a place in memory. -/
def wordAt (os : List Octet) (offset : Nat) : Nat :=
  ofLittleEndian (((os.drop offset).take 4).map Octet.byte)

namespace HostName

/-- A name as the host stores it. -/
def octets (n : HostName) : List Octet :=
  wordOctets n.comparison ++ wordOctets n.display ++ wordOctets n.number

def ofOctets (os : List Octet) : HostName := ⟨wordAt os 0, wordAt os 4, wordAt os 8⟩

end HostName

/-- An interned name as the foreign side lays it out: the index it is compared by, and a number. -/
structure NameRecord where
  comparison : Nat
  number : Nat
deriving DecidableEq, Repr

namespace NameRecord

def octets (r : NameRecord) : List Octet := wordOctets r.comparison ++ wordOctets r.number

def ofOctets (os : List Octet) : NameRecord := ⟨wordAt os 0, wordAt os 4⟩

def ofHostName (n : HostName) : NameRecord := ⟨n.comparison, n.number⟩

/-- The host name of a record: it is shown as it is compared. -/
def toHostName (r : NameRecord) : HostName := ⟨r.comparison, r.comparison, r.number⟩

end NameRecord

end TwinHeap
