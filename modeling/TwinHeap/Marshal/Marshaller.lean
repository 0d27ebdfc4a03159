import TwinHeap.Property.Descriptor

/-!
Marshallers: the ways in which a value crosses.

Each argument of a call owns a region of the call's scratch memory: a pointer slot, followed by a
staging record if its marshaller needs one.
-/

namespace TwinHeap

/-- How a value crosses from one side to the other. -/
inductive Marshaller
  | bool
  | scalar
  | enumeration
  | name
  | text
  | string
  | object
  | classRef
  | softReference
  | struct
  | collection
deriving DecidableEq, Repr

namespace Marshaller

/-- The bytes of the staging record. -/
def scratchBytes : Marshaller → Nat
  | name | text | classRef => 8
  | _ => 0

/-- The bytes of the argument's region in the scratch memory, pointer slot included. -/
def slotSize (m : Marshaller) : Nat :=
  (addressSize + m.scratchBytes + 7) / 8 * 8

/-- Whether the foreign value is an object itself and not a pointer to data. -/
def isReference : Marshaller → Bool
  | string | object | softReference | collection => true
  | _ => false

/-- The marshaller of a kind of data; delegates are bound through functions and have none. -/
def ofTag : Kind.Tag → Option Marshaller
  | .bool => some bool
  | .scalar _ => some scalar
  | .enumeration => some enumeration
  | .string => some string
  | .name => some name
  | .text => some text
  | .object => some object
  | .classRef => some classRef
  | .softObject | .softClass => some softReference
  | .struct => some struct
  | .arrayOf | .setOf | .mapOf => some collection
  | .delegate | .multicast => none

theorem slotSize_eq (m : Marshaller) : m.slotSize = addressSize + m.scratchBytes := by
  cases m <;> rfl

theorem slotSize_pos (m : Marshaller) : 0 < m.slotSize := by
  cases m <;> decide

end Marshaller

end TwinHeap
