import TwinHeap.Bridge.State
import TwinHeap.Marshal.Registry

/-!
Foreign code as data, and the actions it takes part in.

A `Program` is a tree: at each node foreign code looks at the state, remembers something, defines a
method or makes a `Request`, and goes on with the reply; at a leaf it returns, throws or breaks a
promise. Nothing else is assumed of it, so a law about every program is a law about every behaviour
of foreign code. A `World` is the state together with the bodies of the methods, and an `Act` is a
step of a run that may call those methods.
-/

namespace TwinHeap

/-- What a body is called with: the object it is called on, and the pointers passed. -/
structure Invocation where
  receiver : Option Address
  args : List Address
deriving DecidableEq, Repr

namespace Invocation

/-- The pointer passed at an index. -/
def arg (inv : Invocation) (i : Nat) : Except Panic Address :=
  match inv.args[i]? with
  | some a => .ok a
  | none => .error (.argumentOutOfRange i inv.args.length)

end Invocation

/-- Which way a value is copied. -/
inductive Direction
  | hostToForeign
  | foreignToHost
  /-- A value that a method returned, which may be boxed. -/
  | returnToHost
deriving DecidableEq, Repr

/-- The region of one argument in scratch memory: a pointer with a staging record behind it. -/
structure Slot where
  cell : Nat
  offset : Nat
deriving DecidableEq, Repr

namespace Slot

def pointer (s : Slot) : Address := .cell s.cell s.offset

def staging (s : Slot) : Address := .cell s.cell (s.offset + addressSize)

end Slot

/-- What a sweep did. -/
structure SweepReport where
  severed : Nat
  remaining : Nat
deriving DecidableEq, Repr

/-- What foreign code, or the host, can ask for. -/
inductive Request
  -- on the host
  | defineClass (info : ClassInfo) (super : Option Address)
  | spawn (classRef : Address) (owner : Option Address) (name : String)
  | setReachable (object : Address) (reachable : Bool)
  | intern (text : String) (number : Nat)
  -- in storage
  | allot (v : Value)
  | discard (cell : Nat)
  | store (place : Address) (v : Value)
  | write (place : Address) (octets : List Octet)
  -- on the foreign heap
  | defineType (assembly fullName : String)
  | allocate (contents : Managed)
  | instantiate (type : Nat)
  | setNative (object native : Address)
  | collect (full : Bool)
  | hold (target : Address) (strength : Strength)
  | regrip (grip : Nat) (strength : Strength)
  | letGo (grip : Nat)
  | call (method : Nat) (receiver : Option Address) (args : List Address)
  -- on the bridge
  | proxy (host : Address)
  | hostOf (object : Address)
  | setRooted (host : Address) (rooted : Bool)
  | sweep
  | teardown (root : Address)
  | shutdown
  | bind (classRef : Address)
  | structFactory (info : StructInfo)
  | redirect (function : Function) (method : ForeignMethod)
  | link (key : Redirector.Key)
  | invoke (key : Redirector.Key) (target : Option Address) (stack : ArgStack)
      (result : Option Address)
  | execute (binding : Delegate) (stack : ArgStack) (result : Option Address)
  | broadcast (bindings : Multicast) (supplied : List ArgStack)
  | pass (m : Marshaller) (p : Property) (host : Address) (slot : Slot) (byRef : Bool)
  | addArgument (m : Marshaller) (p : Property) (host : Address) (slot : Slot) (byRef : Bool)
  | copy (m : Marshaller) (p : Property) (host foreign : Address) (direction : Direction)

/-- What a request is answered with. -/
def Request.Reply : Request → Type
  | defineClass .. | spawn .. => Address
  | setReachable .. | discard .. | store .. | write .. => Unit
  | intern .. => HostName
  | allot .. | hold .. | defineType .. => Nat
  | allocate .. => Address
  | instantiate .. => Option Address
  | setNative .. | collect .. | regrip .. | letGo .. => Unit
  | call .. => Except ForeignException (Option Address)
  | proxy .. => Except BridgeError Address
  | hostOf .. => Option Address
  | setRooted .. => Bool
  | sweep => SweepReport
  | teardown .. | shutdown => Nat
  | bind .. => Except LinkError ProxyBinding
  | structFactory .. => Except LinkError StructFactory
  | redirect .. => Redirector
  | link .. => Option (Except LinkError Unit)
  | invoke .. => Option (Except BridgeError Unit × ArgStack)
  | execute .. => Except BridgeError Bool
  | broadcast .. => Except BridgeError Nat
  | pass .. => Except BridgeError Address
  | addArgument .. => Except BridgeError (Address × Option Nat)
  | copy .. => Except BridgeError Unit

/-- What foreign code does; `σ` is what its authors remember from one piece of code to another. -/
inductive Program (σ : Type)
  | done (result : Option Address)
  | throw (exception : ForeignException)
  | panic (cause : Panic)
  | observe (next : State → σ → Program σ)
  | remember (memory : σ) (next : Program σ)
  | define (info : MethodInfo) (body : Invocation → Program σ) (next : Nat → Program σ)
  | ask (request : Request) (next : request.Reply → Program σ)

/-- The state, the bodies of the foreign methods in their order, and what their authors remember. -/
structure World (σ : Type) where
  state : State
  bodies : List (Invocation → Program σ)
  memory : σ

/-- How a foreign method is called: with the outcome of its body, or an early end of the run. -/
abbrev Invoker (σ : Type) :=
  Nat → Invocation → EStateM Failure (World σ) (Except ForeignException (Option Address))

/-- A step of a run, given how foreign methods are called. What was done before a failure stays
done. -/
abbrev Act (σ : Type) := ReaderT (Invoker σ) (EStateM Failure (World σ))

namespace Act

variable {σ α β : Type}

def state : Act σ State := do return (← get).state

/-- Changes the state. -/
def edit (f : State → State) : Act σ Unit :=
  modify fun w => { w with state := f w.state }

/-- Changes the state and gives an answer. -/
def editGet (f : State → α × State) : Act σ α :=
  modifyGet fun w => ((f w.state).1, { w with state := (f w.state).2 })

/-- Ends the operation with an error. -/
def fail (e : BridgeError) : Act σ α := throw (.error e)

/-- Abandons the run. -/
def abandon (p : Panic) : Act σ α := throw (.panic p)

def ofPanic : Except Panic α → Act σ α
  | .ok a => pure a
  | .error p => abandon p

def ofOverflow : Except Overflow α → Act σ α
  | .ok a => pure a
  | .error o => abandon (.overflow o)

def ofLink : Except LinkError α → Act σ α
  | .ok a => pure a
  | .error e => fail (.link e)

def ofForeign : Except ForeignException α → Act σ α
  | .ok a => pure a
  | .error x => fail (.foreign x)

/-- The outcome of an action: its answer, or the error it ended with. -/
def attempt (act : Act σ α) : Act σ (Except BridgeError α) := fun call w =>
  match act call w with
  | .ok a w => .ok (.ok a) w
  | .error (.error e) w => .ok (.error e) w
  | .error f w => .error f w

/-- Runs an action and then `cleanup`, however the action ended. -/
def ensuring (cleanup : State → State) (act : Act σ α) : Act σ α := fun call w =>
  match act call w with
  | .ok a w => .ok a { w with state := cleanup w.state }
  | .error f w => .error f { w with state := cleanup w.state }

/-- Calls a foreign method. -/
def callMethod (method : Nat) (receiver : Option Address) (args : List Address) :
    Act σ (Except ForeignException (Option Address)) :=
  fun call => call method ⟨receiver, args⟩

def report (e : Log.Event) : Act σ Unit := edit (·.report e)

/-- Adds to a counter of the bridge. -/
def count (name : String) (n : Nat) : Act σ Unit := do
  let metrics ← ofOverflow ((← state).bridge.metrics.add name n)
  edit fun s => { s with bridge := { s.bridge with metrics := metrics } }

/-- Records a timing of the bridge. No time passes in a run. -/
def recordTiming (name : String) : Act σ Unit :=
  edit fun s => { s with bridge := { s.bridge with metrics := s.bridge.metrics.record name 0 } }

/-- A cell of storage that holds `v` as long as the action lasts. -/
def withCell (v : Value) (act : Address → Act σ α) : Act σ α := do
  let cell ← editGet fun s =>
    let (c, memory) := s.memory.allot v
    (c, { s with memory := memory })
  ensuring (fun s => { s with memory := s.memory.discard cell }) (act (.ofCell cell))

end Act

/-! What a bridge counts. -/

namespace Counter

def proxiesCreated : String := "proxies_created"
def proxiesSevered : String := "proxies_severed"
def sweeps : String := "sweeps"
def calls : String := "calls"
def foreignExceptions : String := "foreign_exceptions"
def linkFailures : String := "link_failures"
def sweepTime : String := "sweep"
def linkTime : String := "link"

end Counter

end TwinHeap
