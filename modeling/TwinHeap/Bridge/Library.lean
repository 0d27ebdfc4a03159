import TwinHeap.Bridge.Code

/-!
Stock definitions: the engine library, and the classes and structs of a game.
-/

namespace TwinHeap.Library

open Code

variable {σ : Type}

/-- A method whose body is written as code. -/
def method (assembly key : String) (code : Invocation → Code σ (Option Address)) : MethodDef σ :=
  ⟨assembly, key, none, fun inv => (code inv).toProgram⟩

/-- Connects the receiver to the host address that is passed. -/
def connect (inv : Invocation) : Code σ (Option Address) := do
  let native ← pointerAt inv 0
  if let some proxy := inv.receiver then
    ask (.setNative proxy native)
  return none

/-- Makes the receiver forget its host address. -/
def disconnect (inv : Invocation) : Code σ (Option Address) := do
  if let some proxy := inv.receiver then
    ask (.setNative proxy .null)
  return none

/-- A box with the host address of the receiver. -/
def nativePtr (inv : Invocation) : Code σ (Option Address) := do
  let s ← state
  let native := (inv.receiver.bind s.heap.nativeOf).getD .null
  return some (← ask (.allocate (Heap.box native.octets)))

/-- A collection with the contents of a host container. -/
def createCollection (inv : Invocation) : Code σ (Option Address) := do
  let place ← pointerAt inv 1
  let contents := ((← state).valueAt place).contents
  return some (← ask (.allocate (.collection contents)))

/-- Replaces a host container by the contents of a collection, or by nothing. -/
def writeCollection (inv : Invocation) : Code σ (Option Address) := do
  let place ← pointerAt inv 1
  let object ← objectAt inv 2
  let contents := match object.bind (← state).heap.get? with
    | some (.collection c) => c
    | _ => .empty
  ask (.store place (.container contents))
  return none

/-- A soft reference to the path that the host stores. -/
def createSoftReference (inv : Invocation) : Code σ (Option Address) := do
  let place ← pointerAt inv 1
  return some (← ask (.allocate (.soft ((← state).textAt place))))

/-- Replaces the path that the host stores by that of a soft reference, or by the empty one. -/
def writeSoftReference (inv : Invocation) : Code σ (Option Address) := do
  let place ← pointerAt inv 0
  let object ← objectAt inv 1
  let path := match object.bind (← state).heap.get? with
    | some (.soft p) => p
    | _ => ""
  ask (.store place (.string path))
  return none

/-- The 32-bit offset that the pointer at an index points to. -/
def offsetAt (inv : Invocation) (i : Nat) : Code σ Nat := do
  let place ← ofPanic (inv.arg i)
  return wordAt ((← state).readAt place 4) 0

/-- A box with `size` octets of the host. -/
def boxStruct (size : Nat) (inv : Invocation) : Code σ (Option Address) := do
  let place ← pointerAt inv 0
  let offset ← offsetAt inv 1
  let octets := ((← state).readAt place (offset + size)).drop offset
  return some (← ask (.allocate (Heap.box octets)))

/-- Copies `size` octets to the host. -/
def unboxStruct (size : Nat) (inv : Invocation) : Code σ (Option Address) := do
  let place ← pointerAt inv 0
  let offset ← offsetAt inv 1
  let data ← ofPanic (inv.arg 2)
  let s ← state
  ask (.write place (s.readAt place offset ++ s.readAt data size))
  return none

/-- A class whose constructor is given the host address. -/
def proxyClass (assembly fullName : String) : Definitions σ where
  types := [(assembly, fullName)]
  methods := [method assembly s!"{fullName}:.ctor (intptr)" connect]

/-- A class of static functions, whose constructor is given nothing. -/
def staticClass (assembly fullName : String) : Definitions σ where
  types := [(assembly, fullName)]
  methods := [method assembly s!"{fullName}:.ctor ()" fun _ => return none]

/-- A struct of `size` octets with its boxing methods. -/
def structType (assembly fullName : String) (size : Nat) : Definitions σ where
  types := [(assembly, fullName)]
  methods := [
    method assembly s!"{fullName}:FromNative (intptr,int)" (boxStruct size),
    method assembly s!"{fullName}:ToNative (intptr,int,{fullName}&)" (unboxStruct size)]

/-- The methods that the bridge calls. -/
def engine (e : EngineBinding) : Definitions σ where
  types := [(e.assembly, object), (e.assembly, factory)]
  methods :=
    [lifecycle "DisconnectFromNative ()" disconnect,
      lifecycle "GetNativePtr ()" nativePtr,
      lifecycle "BeforeConstruct (intptr)" connect,
      lifecycle "AfterConstruct ()" fun _ => return none] ++
    ["Array", "Set", "Map"].flatMap (fun kind =>
      [making s!"Create{kind} (intptr,intptr)" createCollection,
        making s!"Write{kind} (intptr,intptr,System.Collections.IEnumerable)" writeCollection]) ++
    ["SoftObjectPtr", "SoftClassPtr"].flatMap fun kind =>
      [making s!"Create{kind} (intptr,intptr)" createSoftReference,
        making s!"Write{kind} (intptr,{e.nameSpace}.I{kind})" writeSoftReference]
where
  object := s!"{e.nameSpace}.{e.objectClass}"
  factory := s!"{e.nameSpace}.{e.factoryClass}"
  lifecycle (key : String) := method e.assembly s!"{object}:{key}"
  making (key : String) := method e.assembly s!"{factory}:{key}"

end TwinHeap.Library

namespace TwinHeap

/-- A bridge between a fresh host and a foreign runtime. The methods of the engine library have to
be there. -/
def World.connect {σ : Type} (config : Config) (registry : Registry) (side : ForeignSide σ)
    (memory : σ) : Except LinkError (World σ) := do
  let helpers ← Helpers.find side.foreign config.engine
  let bridge : Bridge :=
    { config, registry, helpers, factories := .empty, entries := .empty, bindings := .empty
      redirectors := .empty, frames := [], metrics := .empty }
  let state : State :=
    { host := .empty, foreign := side.foreign, memory := .empty, bridge, grips := .empty
      nextGrip := 0, journal := [.bridgeInit config.engine.assembly] }
  return ⟨state, side.bodies, memory⟩

end TwinHeap
