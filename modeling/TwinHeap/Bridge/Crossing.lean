import TwinHeap.Bridge.Identity

/-!
Crossing: how each marshaller passes a value to foreign code and copies one back.

A value that is data is passed as a pointer to it: to the host's own storage where both sides lay it
out alike, to a staging record otherwise. A value that is an object is passed as that object, or by
reference as a slot that holds it. The foreign objects that are made on the way have no hold on them
yet; whoever passes them on has to take one.
-/

namespace TwinHeap

namespace State

/-- The text at an address. -/
def textAt (s : State) (a : Address) : String := (s.valueAt a).text

/-- The name that the host stores at an address. -/
def nameAt (s : State) (a : Address) : HostName := .ofOctets (s.readAt a 12)

/-- The value at an address reset to the default of its property. -/
def resetAt (s : State) (p : Property) (a : Address) : State :=
  s.storeAt a ((s.valueAt a).reset p)

/-- The value at `dest` after the one at `src` was assigned to it. -/
def assignAt (s : State) (p : Property) (dest src : Address) : State :=
  s.storeAt dest ((s.valueAt dest).assign p (s.valueAt src))

/-- A new foreign string. -/
def newString (s : State) (text : String) : Address × State :=
  let (a, heap) := s.heap.allocate (.string text)
  (a, { s with foreign := { s.foreign with heap := heap } })

end State

/-- The bits that a flag owns. -/
def Property.flagMask (p : Property) : Except Panic UInt8 :=
  match p.kind with
  | .bool mask => .ok mask
  | _ => .error (.notBool p.name)

def Property.structInfo (p : Property) : Except Panic StructInfo :=
  match p.kind with
  | .struct info => .ok info
  | _ => .error (.notStruct p.name)

/-- The octets of an enumeration that is copied as a whole. -/
def Property.enumerationWidth (p : Property) : Except Panic Nat :=
  if [1, 2, 4, 8].contains p.size then .ok p.size else .error (.enumWidth p.size)

/-- A pointer to foreign data, which is never null. -/
def Property.data (p : Property) (foreign : Address) : Except Panic Address :=
  match foreign.nonNull with
  | some a => .ok a
  | none => .error (.nullAddress p.name)

/-- An object that a method returned where it may not return null. -/
def Property.returned (p : Property) (foreign : Address) : Except Panic Address :=
  match foreign.nonNull with
  | some a => .ok a
  | none => .error (.nullReturn p.name)

namespace Marshaller

open Act

variable {σ : Type}

/-- The foreign object that stands for a host address, null for null. -/
def proxyOrNull (host : Address) : Act σ Address :=
  match host.nonNull with
  | some a => Identity.proxyFor a
  | none => return .null

/-- The pointer that stands for the value at `host` in a call, and the foreign object that was made
for it. -/
def present (m : Marshaller) (p : Property) (host : Address) (slot : Slot) :
    Act σ (Address × Option Address) := do
  let s ← state
  let record (os : List Octet) : Act σ Address := do
    edit (·.writeAt slot.staging os)
    return slot.staging
  match m with
  | bool | scalar | enumeration => return (host, none)
  | name => return (← record (NameRecord.ofHostName (s.nameAt host)).octets, none)
  | text => do
    let string ← editGet (·.newString (s.textAt host))
    return (← record string.octets, some string)
  | string => do
    let string ← editGet (·.newString (s.textAt host))
    return (string, some string)
  | object => return (← proxyOrNull (s.addressAt host), none)
  | classRef => return (← record (s.readAt host addressSize), none)
  | softReference => do
    let soft ← Engine.createSoftReference p host
    return (soft.getD .null, soft)
  | struct => do
    let info ← ofPanic p.structInfo
    let factory ← ofLink (← Engine.structFactory info)
    match ← Engine.boxStruct factory host with
    | none => abandon (.boxedToNull info.fullName)
    | some box => do
      let payload ← ofPanic ((← state).unbox box)
      return (payload, some box)
  | collection => do
    let collection ← Engine.createCollection p host
    return (collection.getD .null, collection)

/-- `present`, with the pointer kept in the slot of an argument that is passed by reference. -/
def pass (m : Marshaller) (p : Property) (host : Address) (slot : Slot) (byRef : Bool) :
    Act σ (Address × Option Address) := do
  let (pointer, made) ← m.present p host slot
  if byRef then
    edit (·.writeAt slot.pointer pointer.octets)
    if m.isReference then return (slot.pointer, made)
  return (pointer, made)

/-- Passes one argument of a call. An argument that is passed by reference carries nothing in: its
value is reset first. -/
def stage (m : Marshaller) (p : Property) (host : Address) (slot : Slot) (byRef : Bool) :
    Act σ (Address × Option Address) := do
  if byRef then
    edit (·.resetAt p host)
  m.pass p host slot byRef

/-- Writes the foreign value at `foreign` to the host value at `host`. -/
def toHost (m : Marshaller) (p : Property) (host foreign : Address) : Act σ Unit := do
  match m with
  | bool => do
    let mask ← ofPanic p.flagMask
    let data ← ofPanic (p.data foreign)
    edit fun s =>
      let on := (s.readAt data 1).any Octet.isSet
      s.writeAt host ((s.readAt host 1).map (Octet.setBits mask on))
  | scalar => do
    let data ← ofPanic (p.data foreign)
    edit fun s => s.writeAt host (s.readAt data p.size)
  | enumeration => do
    let data ← ofPanic (p.data foreign)
    let width ← ofPanic p.enumerationWidth
    edit fun s => s.writeAt host (s.readAt data width)
  | name => do
    let data ← ofPanic (p.data foreign)
    edit fun s => s.writeAt host (NameRecord.ofOctets (s.readAt data 8)).toHostName.octets
  | text => do
    let data ← ofPanic (p.data foreign)
    edit fun s => s.storeAt host (.string (s.stringAt (s.addressAt data)))
  | string => edit fun s => s.storeAt host (.string (s.stringAt foreign))
  | object => do
    let native ← match foreign.nonNull with
      | some proxy => Identity.hostOf proxy
      | none => pure none
    edit fun s => s.writeAt host (native.getD .null).octets
  | classRef => do
    let data ← ofPanic (p.data foreign)
    edit fun s => s.writeAt host (s.readAt data addressSize)
  | softReference => Engine.writeSoftReference p host foreign.nonNull
  | struct => do
    let info ← ofPanic p.structInfo
    let factory ← ofLink (← Engine.structFactory info)
    let data ← ofPanic (p.data foreign)
    Engine.unboxStruct factory host data
  | collection => Engine.writeCollection p host foreign.nonNull

/-- Writes the host value at `host` to foreign memory at `foreign`. -/
def toForeign (m : Marshaller) (p : Property) (host foreign : Address) : Act σ Unit := do
  let dest ← ofPanic (p.data foreign)
  match m with
  | bool => do
    let mask ← ofPanic p.flagMask
    edit fun s =>
      let on := (s.readAt host 1).any (Octet.anyBit mask)
      s.writeAt dest [.value (if on then 1 else 0)]
  | scalar => edit fun s => s.writeAt dest (s.readAt host p.size)
  | enumeration => do
    let width ← ofPanic p.enumerationWidth
    edit fun s => s.writeAt dest (s.readAt host width)
  | name => edit fun s => s.writeAt dest (NameRecord.ofHostName (s.nameAt host)).octets
  | text | string => do
    let text := (← state).textAt host
    let string ← editGet (·.newString text)
    edit fun s => s.writeAt dest string.octets
  | object => do
    let proxy ← proxyOrNull ((← state).addressAt host)
    edit fun s => s.writeAt dest proxy.octets
  | classRef => edit fun s => s.writeAt dest (s.readAt host addressSize)
  | softReference | struct | collection => abandon (.notInPlace p.name p.kind.tag)

/-- The foreign value in what a method returned: an object itself, or the payload of a box. -/
def unwrap (m : Marshaller) (p : Property) (foreign : Address) : Act σ Address := do
  if m.isReference then return foreign
  let object ← ofPanic (p.returned foreign)
  let s ← state
  if s.heap.isBoxed object then ofPanic (s.unbox object)
  else if m = .classRef then abandon (.unboxedClass p.name)
  else return foreign

/-- Copies a value in one direction. -/
def copy (m : Marshaller) (p : Property) (host foreign : Address) (d : Direction) : Act σ Unit :=
  match d with
  | .hostToForeign => m.toForeign p host foreign
  | .foreignToHost => m.toHost p host foreign
  | .returnToHost => do m.toHost p host (← m.unwrap p foreign)

end Marshaller

end TwinHeap
