import TwinHeap.Config
import TwinHeap.Heap
import TwinHeap.Linkage
import TwinHeap.Metrics
import TwinHeap.Redirect.Stack
import TwinHeap.Value

/-!
The state of two runtimes and of the bridge between them.

`State` is plain data: the host, the foreign side without the bodies of its methods, the cells of
storage, the bridge and the journal of events. Everything that an operation of the bridge changes
is in it.
-/

namespace TwinHeap

/-- What is known of a foreign method apart from its body. -/
structure MethodInfo where
  assembly : String
  signature : Signature
  parameterCount : Nat
  /-- How often it was called. -/
  calls : Nat
deriving DecidableEq, Repr

/-- The foreign runtime. Types are numbered from one, methods from zero. -/
structure Foreign where
  heap : Heap
  types : Table (String × String) Nat
  methods : List MethodInfo
deriving DecidableEq, Repr

namespace Foreign

def empty : Foreign := ⟨.empty, .empty, []⟩

def lookupType (f : Foreign) (assembly fullName : String) : Option Nat :=
  f.types.get? (assembly, fullName)

/-- The first method of an assembly that a key finds. -/
def lookupMethod (f : Foreign) (assembly : String) (key : Signature) : Option Nat :=
  f.methods.findIdx? fun m => m.assembly == assembly && key.accepts m.signature

/-- The type of a name, which is defined if it is new. -/
def defineType (f : Foreign) (assembly fullName : String) : Nat × Foreign :=
  match f.lookupType assembly fullName with
  | some t => (t, f)
  | none =>
    let t := f.types.size + 1
    (t, { f with types := f.types.insert (assembly, fullName) t })

def isType (f : Foreign) (type : Nat) : Bool := f.types.values.contains type

end Foreign

/-- The methods of the engine library that the bridge calls. -/
structure Helpers where
  disconnect : Nat
  nativePtr : Nat
  beforeConstruct : Nat
  afterConstruct : Nat
  createArray : Nat
  writeArray : Nat
  createSet : Nat
  writeSet : Nat
  createMap : Nat
  writeMap : Nat
  createSoftObject : Nat
  writeSoftObject : Nat
  createSoftClass : Nat
  writeSoftClass : Nat
deriving DecidableEq, Repr

/-- The boxing methods of a struct type. -/
structure StructFactory where
  name : String
  fromNative : Nat
  toNative : Nat
deriving DecidableEq, Repr

/-- How proxies for the objects of a host class are made. -/
structure ProxyBinding where
  /-- The foreign class that is instantiated. -/
  proxyClass : String
  assembly : String
  constructor : Signature
  type : Nat
  method : Nat
  /-- Whether the constructor is given the host address. -/
  takesNative : Bool
deriving DecidableEq, Repr

/-- What became of linking a redirected function. -/
inductive Binding
  | unbound
  | linked (linkage : Linkage) (method : Nat)
  | failed (error : LinkError)
deriving DecidableEq, Repr

/-- A native function whose calls go to a foreign method. -/
structure Redirector where
  function : Function
  method : ForeignMethod
  binding : Binding
  /-- The calls of the function that have not ended. -/
  depth : Nat
deriving DecidableEq, Repr

namespace Redirector

/-- What a redirector is found by: the owner and the name of its function. -/
abbrev Key := String × String

/-- What can be seen of a redirector's life. -/
inductive Phase
  | unbound
  | linked
  /-- A call is running. -/
  | active
  | failed
deriving DecidableEq, Repr

def phase (r : Redirector) : Phase :=
  match r.binding with
  | .unbound => .unbound
  | .failed _ => .failed
  | .linked _ _ => if 0 < r.depth then .active else .linked

end Redirector

/-- A redirected call that has not ended. -/
structure CallFrame where
  function : Redirector.Key
  /-- The holds on the foreign objects that were staged for the call. -/
  roots : List Grip
  /-- The cells of the call's parameters and of its scratch memory. -/
  cells : List Nat
deriving DecidableEq, Repr

/-- The bridge. -/
structure Bridge where
  config : Config
  registry : Registry
  helpers : Helpers
  factories : Table String StructFactory
  /-- The identity table: the hold on the proxy of each host object that has one. -/
  entries : Table Address Grip
  bindings : Table Address ProxyBinding
  redirectors : Table Redirector.Key Redirector
  /-- The running calls, the innermost first. -/
  frames : List CallFrame
  metrics : Metrics
deriving DecidableEq, Repr

/-- The cells of storage: variables of the host, parameters of running calls, scratch memory. -/
structure Memory where
  cells : Table Nat Value
  next : Nat
deriving DecidableEq, Repr

namespace Memory

def empty : Memory := ⟨.empty, 0⟩

def allot (m : Memory) (v : Value) : Nat × Memory :=
  (m.next, ⟨m.cells.insert m.next v, m.next + 1⟩)

def discard (m : Memory) (cell : Nat) : Memory := { m with cells := m.cells.erase cell }

/-- The value in a cell; a cell that was discarded holds nothing. -/
def get (m : Memory) (cell : Nat) : Value := (m.cells.get? cell).getD (.plain [])

def modify (m : Memory) (cell : Nat) (f : Value → Value) : Memory :=
  { m with cells := m.cells.modify cell f }

end Memory

/-- Everything but the bodies of methods and the memory of their authors. -/
structure State where
  host : Host
  foreign : Foreign
  memory : Memory
  bridge : Bridge
  /-- Holds that foreign code or the host has taken for itself. -/
  grips : Table Nat Grip
  nextGrip : Nat
  /-- What happened, the latest first. -/
  journal : List Log.Event
deriving Repr

namespace State

def heap (s : State) : Heap := s.foreign.heap

/-- Adds an event to the journal. -/
def report (s : State) (e : Log.Event) : State := { s with journal := e :: s.journal }

/-- The first `n` octets at an address; where nothing can be read they are zero. -/
def readAt (s : State) (a : Address) (n : Nat) : List Octet :=
  match a with
  | .cell c offset => ((s.memory.get c).skip offset).read n
  | .payload i =>
    match s.heap.objects.get? i with
    | some (.boxed os _) => (Value.plain os).read n
    | _ => List.replicate n .zero
  | _ => List.replicate n .zero

/-- The address in the word at an address. -/
def addressAt (s : State) (a : Address) : Address := Address.ofOctets (s.readAt a addressSize)

/-- The value at an address. -/
def valueAt (s : State) (a : Address) : Value :=
  match a with
  | .cell c offset => (s.memory.get c).skip offset
  | _ => .plain []

/-- The text of the string at an address, or of none at the null address. -/
def stringAt (s : State) (a : Address) : String := s.heap.readString a

/-- Replaces the first octets at an address, if it can be written to. -/
def writeAt (s : State) (a : Address) (os : List Octet) : State :=
  match a with
  | .cell c offset => { s with memory := s.memory.modify c fun v => v.splice offset os }
  | .payload i =>
    let heap := s.heap.modify (.foreign i) fun
      | .boxed old len => .boxed (os ++ old.drop os.length) len
      | m => m
    { s with foreign := { s.foreign with heap := heap } }
  | _ => s

/-- Puts a value at an address. -/
def storeAt (s : State) (a : Address) (v : Value) : State :=
  match a with
  | .cell c offset => { s with memory := s.memory.modify c fun old => old.put offset v }
  | _ => s

/-- The live proxy of a host object. -/
def findProxy (s : State) (host : Address) : Option Address :=
  (s.bridge.entries.get? host).bind fun g => g.target? s.heap

end State

end TwinHeap
