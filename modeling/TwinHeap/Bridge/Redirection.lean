import TwinHeap.Bridge.Crossing
import TwinHeap.Frame

/-!
Redirection: calls of native functions that run foreign methods.

A call links its function on first use, loads its parameters in native order, stages those that the
foreign method takes in foreign order, calls the method, and writes the outputs back in native
order. Everything that the call has taken for itself is given back however it ends.
-/

namespace TwinHeap

/-- A parameter of a running call: where its value lies, and where an output goes to. -/
structure Parameter where
  property : Property
  place : Address
  output : Address
deriving DecidableEq, Repr

/-- An argument of the foreign method with its region of the scratch memory. -/
structure StagedArg where
  arg : LinkedArg
  slot : Slot
deriving DecidableEq, Repr

namespace Redirector

/-- The binding that linking afresh finds. -/
def resolve (registry : Registry) (f : Foreign) (r : Redirector) :
    Except LinkError (Linkage × Nat) := do
  let m ← f.findMethod r.method.assembly r.method.signature
  let expected := (f.methods[m]?).elim 0 MethodInfo.parameterCount
  let found := r.method.parameterCount
  if expected ≠ found then
    throw (.arityMismatch r.method.signature.render expected found)
  let linkage ← Linkage.link registry r.function r.method
  return (linkage, m)

def key (f : Function) : Key := (f.owner, f.name)

end Redirector

namespace State

def redirector? (s : State) (key : Redirector.Key) : Option Redirector :=
  s.bridge.redirectors.get? key

def modifyRedirector (s : State) (key : Redirector.Key) (f : Redirector → Redirector) : State :=
  { s with bridge := { s.bridge with redirectors := s.bridge.redirectors.modify key f } }

/-- The redirector of a function, which is registered unless there is one. -/
def redirect (s : State) (function : Function) (method : ForeignMethod) : Redirector × State :=
  let key := Redirector.key function
  match s.redirector? key with
  | some r => (r, s)
  | none =>
    let r : Redirector := ⟨function, method, .unbound, 0⟩
    (r, { s with bridge := { s.bridge with redirectors := s.bridge.redirectors.insert key r } })

/-- The state in which one more call of a function runs. -/
def enter (s : State) (key : Redirector.Key) : State :=
  let s := s.modifyRedirector key fun r => { r with depth := r.depth + 1 }
  { s with bridge := { s.bridge with frames := ⟨key, [], []⟩ :: s.bridge.frames } }

/-- The state without the innermost call: its holds are released and its cells discarded. -/
def leave (s : State) (key : Redirector.Key) : State :=
  let s := s.modifyRedirector key fun r => { r with depth := r.depth - 1 }
  match s.bridge.frames with
  | [] => s
  | frame :: frames =>
    { s with
      foreign := { s.foreign with
        heap := frame.roots.foldl (fun h (g : Grip) => (g.release h).2) s.heap }
      memory := frame.cells.foldl Memory.discard s.memory
      bridge := { s.bridge with frames := frames } }

/-- A cell that belongs to the innermost call. -/
def frameCell (s : State) (v : Value) : Nat × State :=
  let (cell, memory) := s.memory.allot v
  let frames := match s.bridge.frames with
    | [] => []
    | f :: fs => { f with cells := cell :: f.cells } :: fs
  (cell, { s with memory := memory, bridge := { s.bridge with frames := frames } })

/-- Holds a foreign object as long as the innermost call lasts. -/
def root (s : State) (a : Address) : State :=
  match s.bridge.frames with
  | [] => s
  | f :: fs =>
    let (grip, heap) := Grip.make s.heap a .strong
    { s with
      foreign := { s.foreign with heap := heap }
      bridge := { s.bridge with frames := { f with roots := grip :: f.roots } :: fs } }

end State

namespace Redirection

open Act

variable {σ : Type}

/-- The binding of a redirector, made when it is first asked for and kept for good, also if it
failed. -/
def linked (key : Redirector.Key) (r : Redirector) :
    Act σ (Except LinkError (Linkage × Nat)) := do
  match r.binding with
  | .linked linkage method => return .ok (linkage, method)
  | .failed e => return .error e
  | .unbound => do
    let s ← state
    let outcome := r.resolve s.bridge.registry s.foreign
    recordTiming Counter.linkTime
    match outcome with
    | .ok (linkage, method) =>
      report (.functionLinked r.function.qualifiedName r.method.signature.render
        linkage.args.length linkage.scratchSize)
      edit (·.modifyRedirector key fun r => { r with binding := .linked linkage method })
    | .error e =>
      report (.linkFailure r.function.qualifiedName e.message)
      count Counter.linkFailures 1
      edit (·.modifyRedirector key fun r => { r with binding := .failed e })
    return outcome

def link (key : Redirector.Key) (r : Redirector) : Act σ (Except LinkError Unit) := do
  return (← linked key r).map fun _ => ()

/-- The place of a parameter, which holds its default. Data lies in the block of the call, so what
is written past the end of one parameter reaches the next; a value that owns storage has a cell of
its own. -/
def paramPlace (block : Nat) (p : Property) : Act σ Address := do
  match p.kind.storage with
  | .plain | .flag _ => return .cell block p.offset
  | _ => return .ofCell (← editGet (·.frameCell (Value.default p)))

/-- Loads the parameters in native order: each but the return value takes the next argument of the
stack. -/
def loadParams (block : Nat) : List Property → ArgStack → Act σ (List Parameter × ArgStack)
  | [], stack => return ([], stack)
  | p :: ps, stack => do
    let place ← paramPlace block p
    if p.isReturn then
      let (rest, stack) ← loadParams block ps stack
      return (⟨p, place, place⟩ :: rest, stack)
    else
      let (arg, stack) ← ofPanic (stack.next p)
      let caller := Address.ofCell arg.cell
      edit (·.assignAt p place caller)
      let (rest, stack) ← loadParams block ps stack
      return (⟨p, place, if arg.byRef then caller else place⟩ :: rest, stack)

/-- Stages the arguments in foreign order: the pointers to pass, and where each argument lies. -/
def stageArgs (params : List Parameter) (scratch : Nat) :
    List LinkedArg → Act σ (List Address × List StagedArg)
  | [] => return ([], [])
  | a :: as =>
    match params[a.param]? with
    | none => stageArgs params scratch as
    | some param => do
      let slot : Slot := ⟨scratch, a.scratchOffset⟩
      let (pointer, made) ← a.marshaller.stage param.property param.place slot a.byRef
      match made with
      | some object => edit (·.root object)
      | none => pure ()
      let (pointers, staged) ← stageArgs params scratch as
      return (pointer :: pointers, ⟨a, slot⟩ :: staged)

/-- Copies the outputs back in native order. -/
def writeBack (staged : List StagedArg) : Nat → List Parameter → Act σ Unit
  | _, [] => return ()
  | i, param :: params => do
    match staged.find? fun t => t.arg.param == i with
    | some t =>
      if t.arg.byRef then
        let foreign := (← state).addressAt t.slot.pointer
        t.arg.marshaller.copy param.property param.output foreign .foreignToHost
    | none => pure ()
    writeBack staged (i + 1) params

/-- The property and the marshaller of the return value. -/
def returnOf (function : Function) (linkage : Linkage) : Option (Property × Marshaller) := do
  let ret ← linkage.result
  let p ← function.params[ret.param]?
  return (p, ret.marshaller)

/-- The part of a call that comes after its parameters were loaded. -/
def run (function : Function) (linkage : Linkage) (method : Nat) (target : Option Address)
    (params : List Parameter) (result : Option Address) : Act σ Unit := do
  let scratch ← editGet (·.frameCell (.plain []))
  let (pointers, staged) ← stageArgs params scratch linkage.args
  let receiver ← match target with
    | some object => if function.flags.static then pure none else some <$> Identity.proxyFor object
    | none => pure none
  match ← callMethod method receiver pointers with
  | .error x => do
    report (.foreignException function.qualifiedName x.message x.stackTrace)
    count Counter.foreignExceptions 1
    match returnOf function linkage, result with
    | some (p, _), some place => edit (·.resetAt p place)
    | _, _ => pure ()
    fail (.foreign x)
  | .ok returned => do
    writeBack staged 0 params
    match returnOf function linkage, returned, result with
    | some (p, m), some value, some place => m.copy p place value .returnToHost
    | _, _, _ => pure ()

/-- The memory of a call has to be of a size and an alignment that exist. -/
def checkFrame (size align : Nat) : Act σ Unit :=
  match Frame.make size align with
  | .ok _ => return ()
  | .error .alignment => abandon .frameAlignment
  | .error (.overflow o) => abandon (.overflow o)

/-- Calls a redirected function: how the call ended, and the stack as it left it. The value that the
method returns goes to `result`. -/
def invoke (key : Redirector.Key) (r : Redirector) (target : Option Address) (stack : ArgStack)
    (result : Option Address) : Act σ (Except BridgeError Unit × ArgStack) := do
  match ← linked key r with
  | .error e => return (.error (.link e), stack)
  | .ok (linkage, method) => do
    edit (·.enter key)
    ensuring (·.leave key) do
      let depth := ((← state).redirector? key).elim 0 Redirector.depth
      report (.redirectCall r.function.qualifiedName depth)
      count Counter.calls 1
      checkFrame r.function.block.size r.function.block.align
      checkFrame linkage.scratchSize addressSize
      let block ← editGet (·.frameCell (.plain []))
      let (params, stack) ← loadParams block r.function.params stack
      let outcome ← attempt (run r.function linkage method target params result)
      return (outcome, stack)

end Redirection

/-- The redirector that a bound delegate calls: that of the nearest class of its object which has
one for its function. -/
def State.resolveDelegate (s : State) (d : Delegate) :
    Except Panic (Option (Redirector.Key × Redirector)) := do
  match d.object with
  | none => return none
  | some object => nearest (s.host.lineage (← s.host.classOf object))
where
  nearest : List Address → Except Panic (Option (Redirector.Key × Redirector))
    | [] => .ok none
    | a :: rest => do
      let info ← s.host.classInfo a
      let key := (info.name, d.function)
      match s.redirector? key with
      | some r => return some (key, r)
      | none => nearest rest

namespace Delegate

open Act

variable {σ : Type}

/-- Calls what a delegate is bound to; whether there was anything to call. -/
def execute (d : Delegate) (stack : ArgStack) (result : Option Address) : Act σ Bool := do
  if !d.isBound then return false
  match ← ofPanic ((← state).resolveDelegate d) with
  | none => return false
  | some (key, r) =>
    match ← Redirection.invoke key r d.object stack result with
    | (.ok _, _) => return true
    | (.error e, _) => fail e

end Delegate

namespace Multicast

open Act

variable {σ : Type}

/-- Calls the bindings in order, each with a stack of its own, up to the first error; how many of
them had anything to call. -/
def broadcast : Multicast → List ArgStack → Act σ Nat
  | [], _ => return 0
  | d :: ds, supplied => do
    let called ← d.execute (supplied.headD (.ofArgs [])) none
    let rest ← broadcast ds supplied.tail
    return called.toNat + rest

end Multicast

end TwinHeap
