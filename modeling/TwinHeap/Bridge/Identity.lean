import TwinHeap.Bridge.Engine

/-!
Identity: each host object has at most one proxy, made when it is first asked for.

The table keeps a hold on the proxy of each host object; the way back is asked of the proxy itself.
An entry is made before the proxy is constructed, so that a constructor that asks for the same
object finds it. Entries go when their object is no longer reachable, when a scope that owns it is
torn down, and when the bridge shuts down; whenever an entry goes, its proxy is disconnected and its
hold released.
-/

namespace TwinHeap

namespace Host

/-- What is known of a class that has to exist. -/
def classInfo (h : Host) (a : Address) : Except Panic ClassInfo :=
  match h.classAt a with
  | some c => .ok c.info
  | none => .error (.unknownClass a)

/-- The class of an object that has to exist. -/
def classOf (h : Host) (a : Address) : Except Panic Address :=
  match h.objectAt a with
  | some o => .ok o.classRef
  | none => .error (.unknownObject a)

/-- Whether a class of the chain was generated from a foreign one. -/
def anyForeign (h : Host) : List Address → Except Panic Bool
  | [] => .ok false
  | a :: rest => do
    let info ← h.classInfo a
    if info.origin = .foreign then return true else h.anyForeign rest

/-- The nearest class of a chain that can have a proxy class. A class made in the editor can, if the
bridge is told so, unless it inherits from a class that was generated from a foreign one. -/
def proxyClass (h : Host) (bindEditorClasses : Bool) :
    List Address → Except Panic (Option ClassInfo)
  | [] => .ok none
  | a :: rest => do
    let info ← h.classInfo a
    match info.origin with
    | .native | .foreign => return some info
    | .editor =>
      let bindable ← if bindEditorClasses then (!·) <$> h.anyForeign rest else pure false
      if bindable then return some info else h.proxyClass bindEditorClasses rest

end Host

namespace Foreign

/-- How the proxies of a class are made. -/
def findBinding (f : Foreign) (info : ClassInfo) : Except LinkError ProxyBinding := do
  let full := info.foreignName
  let some type := f.lookupType info.assembly full
    | throw (.missingType info.assembly full)
  let takesNative := !info.isLibrary
  let constructor := Signature.ofClass full ".ctor" (if takesNative then ["intptr"] else [])
  let method ← f.findMethod info.assembly constructor
  return ⟨full, info.assembly, constructor, type, method, takesNative⟩

end Foreign

/-- The binding that resolving a class afresh finds. -/
def State.resolveBinding (s : State) (classRef : Address) :
    Except Panic (Except LinkError ProxyBinding) := do
  let requested ← s.host.classInfo classRef
  match ← s.host.proxyClass s.bridge.config.bindEditorClasses (s.host.lineage classRef) with
  | none => return .error (.noProxyClass requested.name)
  | some info => return s.foreign.findBinding info

/-- The state without the entry of a host object, the hold of which is released. -/
def State.dropEntry (s : State) (host : Address) : State :=
  match s.bridge.entries.get? host with
  | none => s
  | some grip =>
    { s with
      foreign := { s.foreign with heap := (grip.release s.heap).2 }
      bridge := { s.bridge with entries := s.bridge.entries.erase host } }

/-- The state in which a host object has an entry that holds its proxy strongly. -/
def State.addEntry (s : State) (host proxy : Address) : State :=
  let (grip, heap) := Grip.make s.heap proxy .strong
  { s with
    foreign := { s.foreign with heap := heap }
    bridge := { s.bridge with entries := s.bridge.entries.insert host grip } }

/-- A new instance of a type, if it is one. -/
def State.instantiate (s : State) (type : Nat) : Option Address × State :=
  if s.foreign.isType type then
    let (a, heap) := s.heap.allocate (.object type .null)
    (some a, { s with foreign := { s.foreign with heap := heap } })
  else (none, s)

namespace Identity

open Act

variable {σ α : Type}

/-- How proxies for the objects of a class are made. An answer is remembered, a failure is not. -/
def bindingFor (classRef : Address) : Act σ (Except LinkError ProxyBinding) := do
  let s ← state
  match s.bridge.bindings.get? classRef with
  | some binding => return .ok binding
  | none => do
    let info ← ofPanic (s.host.classInfo classRef)
    match ← ofPanic (s.resolveBinding classRef) with
    | .error e => do
      report (.linkFailure info.name e.message)
      count Counter.linkFailures 1
      return .error e
    | .ok binding => do
      report (.proxyClassResolved info.name binding.proxyClass)
      edit fun s => { s with
        bridge := { s.bridge with bindings := s.bridge.bindings.insert classRef binding } }
      return .ok binding

/-- Connects a new proxy to its host object and runs its constructor. -/
def construct (binding : ProxyBinding) (proxy host : Address) : Act σ Unit := do
  Engine.beforeConstruct proxy host
  Engine.withPointer host fun native => do
    let args := if binding.takesNative then [native] else []
    discard <| ofForeign (← callMethod binding.method (some proxy) args)
  Engine.afterConstruct proxy

/-- The proxy of a host object, which is made if there is none alive. -/
def proxyFor (host : Address) : Act σ Address := do
  match (← state).findProxy host with
  | some proxy => return proxy
  | none => do
    edit (·.dropEntry host)
    let classRef ← ofPanic ((← state).host.classOf host)
    let binding ← ofLink (← bindingFor classRef)
    match ← editGet (·.instantiate binding.type) with
    | none => fail (.link (.allocationFailed binding.proxyClass))
    | some proxy => do
      edit (·.addEntry host proxy)
      match ← attempt (construct binding proxy host) with
      | .ok _ => do
        report (.proxyCreated host binding.proxyClass)
        count Counter.proxiesCreated 1
        return proxy
      | .error e => do
        Engine.disconnect proxy
        edit (·.dropEntry host)
        fail e

/-- The host object behind a proxy. -/
def hostOf (proxy : Address) : Act σ (Option Address) := Engine.nativePtr proxy

/-- Removes the entry of a host object and disconnects its proxy; how many entries there were. -/
def severOne (reason : String) (host : Address) : Act σ Nat := do
  let s ← state
  match s.bridge.entries.get? host with
  | none => return 0
  | some grip => do
    edit fun s => { s with
      bridge := { s.bridge with entries := s.bridge.entries.erase host } }
    ensuring (fun s => { s with foreign := { s.foreign with heap := (grip.release s.heap).2 } }) do
      match grip.target? s.heap with
      | some proxy => Engine.disconnect proxy
      | none => pure ()
    report (.proxySevered host reason)
    return 1

/-- Removes the entries of the given host objects; how many there were. -/
def sever (reason : String) (hosts : List Address) : Act σ Nat := do
  let severed := (← hosts.mapM (severOne reason)).foldl (· + ·) 0
  count Counter.proxiesSevered severed
  return severed

/-- Removes the entries of objects that the host no longer reaches, and collects. -/
def sweep : Act σ SweepReport :=
  ensuring (·.report (.operationCompleted "reachability_pass" 0)) do
    let s ← state
    let severed ← sever "unreachable" (s.bridge.entries.keys.filter fun a => !s.host.isReachable a)
    let full := (← state).bridge.config.fullCollection
    edit fun s => { s with foreign := { s.foreign with heap := s.heap.collect full } }
    report (.foreignCollection full 0)
    let remaining := (← state).bridge.entries.size
    count Counter.sweeps 1
    recordTiming Counter.sweepTime
    report (.sweepComplete severed remaining 0)
    return ⟨severed, remaining⟩

/-- Removes the entries of all objects that `root` owns, itself included. -/
def teardown (root : Address) : Act σ Nat := do
  let s ← state
  let owned := s.bridge.entries.keys.filter fun a => s.host.isInScope a root
  let severed ← sever "scope teardown" owned
  report (.scopeTeardown root severed)
  return severed

/-- Removes every entry. -/
def shutdown : Act σ Nat := do
  let severed ← sever "shutdown" (← state).bridge.entries.keys
  report (.bridgeShutdown severed)
  return severed

end Identity

/-- Makes the hold on the proxy of a host object strong or weak; whether the entry still has its
proxy. Without an entry nothing changes. -/
def State.setRooted (s : State) (host : Address) (rooted : Bool) : Bool × State :=
  match s.bridge.entries.get? host with
  | none => (false, s)
  | some old =>
    let strength := if rooted then Strength.strong else .weak
    if old.strength = strength then (true, s)
    else
      let (grip, heap) := old.setStrength s.heap strength
      (grip.strength != .released,
        { s with
          foreign := { s.foreign with heap := heap }
          bridge := { s.bridge with entries := s.bridge.entries.insert host grip }
          journal := .handleStrength host (!rooted) :: s.journal })

end TwinHeap
