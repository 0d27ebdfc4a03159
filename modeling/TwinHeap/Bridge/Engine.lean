import TwinHeap.Bridge.Program

/-!
The engine library: the fixed foreign methods that the bridge works with.

A proxy is connected and disconnected by methods of the engine's object class; collections and soft
references are made and read by methods of its factory class. All of them are found once, when the
bridge is set up. The methods that box a struct are found when the struct is first met.
-/

namespace TwinHeap

namespace Foreign

/-- The method that a key finds, which has to be there. -/
def findMethod (f : Foreign) (assembly : String) (key : Signature) : Except LinkError Nat :=
  match f.lookupMethod assembly key with
  | some m => .ok m
  | none => .error (.missingMethod assembly key.render)

/-- The methods that box and unbox a struct. -/
def findFactory (f : Foreign) (info : StructInfo) : Except LinkError StructFactory := do
  let full := info.fullName
  let fromNative ← f.findMethod info.assembly (.ofClass full "FromNative" ["intptr", "int"])
  let toNative ←
    f.findMethod info.assembly (.ofClass full "ToNative" ["intptr", "int", full ++ "&"])
  return ⟨full, fromNative, toNative⟩

end Foreign

namespace Helpers

/-- Finds the methods of the engine library. -/
def find (f : Foreign) (engine : EngineBinding) : Except LinkError Helpers := do
  let space := engine.nameSpace
  let method (cls name : String) (params : List String) :=
    f.findMethod engine.assembly ⟨space, cls, name, some params⟩
  let object := method engine.objectClass
  let factory := method engine.factoryClass
  let create (name : String) := factory name ["intptr", "intptr"]
  let write (name : String) :=
    factory name ["intptr", "intptr", "System.Collections.IEnumerable"]
  let writeSoft (name interface : String) := factory name ["intptr", s!"{space}.{interface}"]
  return {
    disconnect := ← object "DisconnectFromNative" []
    nativePtr := ← object "GetNativePtr" []
    beforeConstruct := ← object "BeforeConstruct" ["intptr"]
    afterConstruct := ← object "AfterConstruct" []
    createArray := ← create "CreateArray"
    writeArray := ← write "WriteArray"
    createSet := ← create "CreateSet"
    writeSet := ← write "WriteSet"
    createMap := ← create "CreateMap"
    writeMap := ← write "WriteMap"
    createSoftObject := ← create "CreateSoftObjectPtr"
    writeSoftObject := ← writeSoft "WriteSoftObjectPtr" "ISoftObjectPtr"
    createSoftClass := ← create "CreateSoftClassPtr"
    writeSoftClass := ← writeSoft "WriteSoftClassPtr" "ISoftClassPtr"
  }

/-- The methods that make and read a collection of a kind. -/
def collection (h : Helpers) (p : Property) : Except Panic (Nat × Nat) :=
  match p.kind with
  | .arrayOf _ => .ok (h.createArray, h.writeArray)
  | .setOf _ => .ok (h.createSet, h.writeSet)
  | .mapOf _ _ => .ok (h.createMap, h.writeMap)
  | k => .error (.notCollection p.name k.tag)

/-- The methods that make and read a soft reference of a kind. -/
def softReference (h : Helpers) (p : Property) : Except Panic (Nat × Nat) :=
  match p.kind with
  | .softObject => .ok (h.createSoftObject, h.writeSoftObject)
  | .softClass => .ok (h.createSoftClass, h.writeSoftClass)
  | k => .error (.notSoftReference p.name k.tag)

end Helpers

/-- The payload of a boxed value. -/
def State.unbox (s : State) (a : Address) : Except Panic Address :=
  match a, s.heap.get? a with
  | .foreign i, some (.boxed _ _) => .ok (.payload i)
  | _, some _ => .error .unboxReference
  | _, none => .error (.unboxCollected a)

namespace Engine

open Act

variable {σ α : Type}

/-- A cell that holds an address as long as the action lasts. -/
def withPointer (a : Address) (act : Address → Act σ α) : Act σ α :=
  withCell (.plain a.octets) act

/-- Makes a proxy forget its host object; an exception is reported and ignored. -/
def disconnect (proxy : Address) : Act σ Unit := do
  match ← callMethod (← state).bridge.helpers.disconnect (some proxy) [] with
  | .ok _ => pure ()
  | .error x => report (.boundaryError "DisconnectFromNative" x.message)

/-- The host object that a proxy says it stands for. -/
def nativePtr (proxy : Address) : Act σ (Option Address) := do
  match ← callMethod (← state).bridge.helpers.nativePtr (some proxy) [] with
  | .ok (some boxed) => do
    let s ← state
    let payload ← ofPanic (s.unbox boxed)
    return (s.addressAt payload).nonNull
  | .ok none => return none
  | .error x => do
    report (.boundaryError "GetNativePtr" x.message)
    return none

def beforeConstruct (proxy host : Address) : Act σ Unit :=
  withPointer host fun native => do
    let method := (← state).bridge.helpers.beforeConstruct
    discard <| ofForeign (← callMethod method (some proxy) [native])

def afterConstruct (proxy : Address) : Act σ Unit := do
  let method := (← state).bridge.helpers.afterConstruct
  discard <| ofForeign (← callMethod method (some proxy) [])

/-- A foreign object made from the host value at `host` by a method of the factory. -/
def create (method : Nat) (host : Address) : Act σ (Option Address) :=
  withPointer .descriptor fun property => withPointer host fun buffer => do
    ofForeign (← callMethod method none [property, buffer])

/-- A foreign collection with the contents of the container at `host`. -/
def createCollection (p : Property) (host : Address) : Act σ (Option Address) := do
  let (make, _) ← ofPanic ((← state).bridge.helpers.collection p)
  create make host

/-- Replaces the container at `host` by the contents of a foreign collection. -/
def writeCollection (p : Property) (host : Address) (collection : Option Address) :
    Act σ Unit := do
  let (_, write) ← ofPanic ((← state).bridge.helpers.collection p)
  withPointer .descriptor fun property => withPointer host fun buffer => do
    discard <| ofForeign (← callMethod write none [property, buffer, collection.getD .null])

/-- A foreign soft reference to the path at `host`. -/
def createSoftReference (p : Property) (host : Address) : Act σ (Option Address) := do
  let (make, _) ← ofPanic ((← state).bridge.helpers.softReference p)
  create make host

/-- Replaces the path at `host` by that of a foreign soft reference. -/
def writeSoftReference (p : Property) (host : Address) (soft : Option Address) : Act σ Unit := do
  let (_, write) ← ofPanic ((← state).bridge.helpers.softReference p)
  withPointer host fun buffer => do
    discard <| ofForeign (← callMethod write none [buffer, soft.getD .null])

/-- The boxing methods of a struct, looked up when they are first asked for. A failure is not
remembered. -/
def structFactory (info : StructInfo) : Act σ (Except LinkError StructFactory) := do
  let s ← state
  match s.bridge.factories.get? info.fullName with
  | some factory => return .ok factory
  | none =>
    match s.foreign.findFactory info with
    | .error e => return .error e
    | .ok factory => do
      report (.structFactory info.fullName)
      edit fun s => { s with
        bridge := { s.bridge with factories := s.bridge.factories.insert info.fullName factory } }
      return .ok factory

/-- A cell that holds a 32-bit offset of zero as long as the action lasts. -/
def withOffset (act : Address → Act σ α) : Act σ α := withCell (.plain (wordOctets 0)) act

/-- A box with a copy of the struct at `host`. -/
def boxStruct (factory : StructFactory) (host : Address) : Act σ (Option Address) :=
  withPointer host fun buffer => withOffset fun offset => do
    ofForeign (← callMethod factory.fromNative none [buffer, offset])

/-- Writes the unboxed struct at `data` to the struct at `host`. -/
def unboxStruct (factory : StructFactory) (host data : Address) : Act σ Unit :=
  withPointer host fun buffer => withOffset fun offset => do
    discard <| ofForeign (← callMethod factory.toNative none [buffer, offset, data])

end Engine

end TwinHeap
