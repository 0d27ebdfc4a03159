/-!
The kinds of value that cross between the two sides.

A `Kind` says everything about a value's form: which bit of a byte a flag owns, how wide an
enumeration is, how large a struct is. Its `Tag` forgets those details and is what a registry is
keyed by. `Kind.plainLayout` is the layout of the kinds that every host stores alike.
-/

namespace TwinHeap

/-- Size and alignment of a stored value, in bytes. -/
structure Layout where
  size : Nat
  align : Nat
deriving DecidableEq, Repr

/-- The size of an address. -/
def addressSize : Nat := 8

/-- The numbers of fixed width. -/
inductive Scalar
  | int8 | int16 | int32 | int64
  | uint8 | uint16 | uint32 | uint64
  | float32 | float64
deriving DecidableEq, Repr

namespace Scalar

/-- The width in bytes. -/
def width : Scalar → Nat
  | int8 | uint8 => 1
  | int16 | uint16 => 2
  | int32 | uint32 | float32 => 4
  | int64 | uint64 | float64 => 8

def name : Scalar → String
  | int8 => "int8"
  | int16 => "int16"
  | int32 => "int32"
  | int64 => "int64"
  | uint8 => "uint8"
  | uint16 => "uint16"
  | uint32 => "uint32"
  | uint64 => "uint64"
  | float32 => "float32"
  | float64 => "float64"

/-- In the order of declaration. -/
def all : List Scalar :=
  [int8, int16, int32, int64, uint8, uint16, uint32, uint64, float32, float64]

end Scalar

/-- A value struct of the host and the foreign type that stands for it. -/
structure StructInfo where
  fullName : String
  assembly : String
  layout : Layout
deriving DecidableEq, Repr

/-- The kind of a value. -/
inductive Kind
  /-- A flag that owns the bits of `mask` in its byte. -/
  | bool (mask : UInt8)
  | scalar (type : Scalar)
  /-- An enumeration stored in `width` bytes. -/
  | enumeration (width : Nat)
  | string
  | name
  | text
  | object
  | classRef
  | softObject
  | softClass
  | struct (info : StructInfo)
  | arrayOf (element : Kind)
  | setOf (element : Kind)
  | mapOf (key value : Kind)
  | delegate (signature : String)
  | multicast (signature : String)
deriving DecidableEq, Repr

namespace Kind

/-- A kind without its details. -/
inductive Tag
  | bool
  | scalar (type : Scalar)
  | enumeration
  | string
  | name
  | text
  | object
  | classRef
  | softObject
  | softClass
  | struct
  | arrayOf
  | setOf
  | mapOf
  | delegate
  | multicast
deriving DecidableEq, Repr

namespace Tag

def label : Tag → String
  | bool => "bool"
  | scalar s => s.name
  | enumeration => "enum"
  | string => "string"
  | name => "name"
  | text => "text"
  | object => "object"
  | classRef => "class"
  | softObject => "soft object"
  | softClass => "soft class"
  | struct => "struct"
  | arrayOf => "array"
  | setOf => "set"
  | mapOf => "map"
  | delegate => "delegate"
  | multicast => "multicast delegate"

/-- Every tag, in the order of declaration. -/
def all : List Tag :=
  [bool] ++ Scalar.all.map scalar ++
    [enumeration, string, name, text, object, classRef, softObject, softClass, struct,
      arrayOf, setOf, mapOf, delegate, multicast]

theorem mem_all (t : Tag) : t ∈ all := by
  cases t with
  | scalar s => cases s <;> decide
  | _ => decide

end Tag

def tag : Kind → Tag
  | bool _ => .bool
  | scalar s => .scalar s
  | enumeration _ => .enumeration
  | string => .string
  | name => .name
  | text => .text
  | object => .object
  | classRef => .classRef
  | softObject => .softObject
  | softClass => .softClass
  | struct _ => .struct
  | arrayOf _ => .arrayOf
  | setOf _ => .setOf
  | mapOf _ _ => .mapOf
  | delegate _ => .delegate
  | multicast _ => .multicast

/-- The layout of the kinds whose representation does not depend on the host. -/
def plainLayout : Kind → Option Layout
  | bool _ => some ⟨1, 1⟩
  | scalar s => some ⟨s.width, s.width⟩
  | enumeration w => some ⟨w, w⟩
  | object | classRef => some ⟨addressSize, addressSize⟩
  | struct info => some info.layout
  | _ => none

/-- Whether a value is bytes alone, so that it can be copied and cleared without the host's help. -/
def isPlainData : Kind → Bool
  | bool _ | scalar _ | enumeration _ | object | classRef => true
  | _ => false

/-- How the host of this library lays a value out. -/
def hostLayout (k : Kind) : Layout :=
  match k with
  | string | text | softObject | softClass => ⟨24, 8⟩
  | name => ⟨12, 4⟩
  | arrayOf _ | setOf _ | mapOf _ _ => ⟨32, 8⟩
  | delegate _ => ⟨32, 8⟩
  | multicast _ => ⟨24, 8⟩
  | bool _ => ⟨1, 1⟩
  | scalar s => ⟨s.width, s.width⟩
  | enumeration w => ⟨w, w⟩
  | object | classRef => ⟨addressSize, addressSize⟩
  | struct info => info.layout

/-- The host lays a kind of fixed representation out in just that representation. -/
theorem hostLayout_of_plainLayout {k : Kind} {l : Layout} (h : k.plainLayout = some l) :
    k.hostLayout = l := by
  cases k with
  | string | name | text | softObject | softClass => cases h
  | arrayOf _ | setOf _ | mapOf _ _ | delegate _ | multicast _ => cases h
  | bool _ | scalar _ | enumeration _ | object | classRef | struct _ => exact Option.some.inj h

end Kind

end TwinHeap
