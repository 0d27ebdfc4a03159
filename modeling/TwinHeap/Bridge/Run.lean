import TwinHeap.Bridge.Redirection

/-!
Running foreign code.

`Program.run` walks down a program and performs its requests. A method body may call methods, so a
run is given how deep calls may nest: `callAt n` calls a method whose body may nest `n` calls more.
A run that would nest deeper is `exhausted`, and apart from that the bound cannot be observed.
-/

namespace TwinHeap

namespace State

def allot (s : State) (v : Value) : Nat × State :=
  let (cell, memory) := s.memory.allot v
  (cell, { s with memory := memory })

def discard (s : State) (cell : Nat) : State := { s with memory := s.memory.discard cell }

def withHost (s : State) (h : Host) : State := { s with host := h }

def withHeap (s : State) (h : Heap) : State := { s with foreign := { s.foreign with heap := h } }

/-- A hold on an object that somebody takes for themselves. -/
def hold (s : State) (target : Address) (strength : Strength) : Nat × State :=
  let (grip, heap) := Grip.make s.heap target strength
  (s.nextGrip,
    { s.withHeap heap with grips := s.grips.insert s.nextGrip grip, nextGrip := s.nextGrip + 1 })

/-- Changes how tightly a hold holds. -/
def regrip (s : State) (i : Nat) (strength : Strength) : State :=
  match s.grips.get? i with
  | none => s
  | some old =>
    let (grip, heap) := old.setStrength s.heap strength
    { s.withHeap heap with grips := s.grips.insert i grip }

/-- Gives a hold up. -/
def letGo (s : State) (i : Nat) : State :=
  match s.grips.get? i with
  | none => s
  | some old => { s.withHeap (old.release s.heap).2 with grips := s.grips.erase i }

end State

/-- What a request does and is answered. -/
def Request.perform {σ : Type} : (r : Request) → Act σ r.Reply
  | .defineClass info super => Act.editGet fun s =>
    let (a, h) := s.host.defineClass info super
    (a, s.withHost h)
  | .spawn classRef owner name => Act.editGet fun s =>
    let (a, h) := s.host.spawn classRef owner name
    (a, s.withHost h)
  | .setReachable object reachable =>
    Act.edit fun s => s.withHost (s.host.setReachable object reachable)
  | .intern text number => Act.editGet fun s =>
    let (n, h) := s.host.name text number
    (n, s.withHost h)
  | .allot v => Act.editGet (·.allot v)
  | .discard cell => Act.edit (·.discard cell)
  | .store place v => Act.edit (·.storeAt place v)
  | .write place octets => Act.edit (·.writeAt place octets)
  | .defineType assembly fullName => Act.editGet fun s =>
    let (t, f) := s.foreign.defineType assembly fullName
    (t, { s with foreign := f })
  | .allocate contents => Act.editGet fun s =>
    let (a, h) := s.heap.allocate contents
    (a, s.withHeap h)
  | .instantiate type => Act.editGet (·.instantiate type)
  | .setNative object native => Act.edit fun s => s.withHeap (s.heap.setNative object native)
  | .collect full => Act.edit fun s => s.withHeap (s.heap.collect full)
  | .hold target strength => Act.editGet (·.hold target strength)
  | .regrip grip strength => Act.edit (·.regrip grip strength)
  | .letGo grip => Act.edit (·.letGo grip)
  | .call method receiver args => Act.callMethod method receiver args
  | .proxy host => Act.attempt (Identity.proxyFor host)
  | .hostOf object => Identity.hostOf object
  | .setRooted host rooted => Act.editGet (·.setRooted host rooted)
  | .sweep => Identity.sweep
  | .teardown root => Identity.teardown root
  | .shutdown => Identity.shutdown
  | .bind classRef => Identity.bindingFor classRef
  | .structFactory info => Engine.structFactory info
  | .redirect function method => Act.editGet (·.redirect function method)
  | .link key => do
    match (← Act.state).redirector? key with
    | none => return none
    | some r => return some (← Redirection.link key r)
  | .invoke key target stack result => do
    match (← Act.state).redirector? key with
    | none => return none
    | some r => return some (← Redirection.invoke key r target stack result)
  | .execute binding stack result => Act.attempt (binding.execute stack result)
  | .broadcast bindings supplied => Act.attempt (Multicast.broadcast bindings supplied)
  | .pass m p host slot byRef => Act.attempt do
    return (← m.pass p host slot byRef).1
  | .addArgument m p host slot byRef => Act.attempt do
    let (pointer, made) ← m.stage p host slot byRef
    match made with
    | none => return (pointer, none)
    | some object => return (pointer, some (← Act.editGet (·.hold object .strong)))
  | .copy m p host foreign direction => Act.attempt (m.copy p host foreign direction)

/-- Runs a program to its end. -/
def Program.run {σ : Type} : Program σ → Act σ (Except ForeignException (Option Address))
  | .done result => return .ok result
  | .throw x => return .error x
  | .panic cause => Act.abandon cause
  | .observe next => do
    let w ← get
    (next w.state w.memory).run
  | .remember memory next => do
    modify fun w => { w with memory := memory }
    next.run
  | .define info body next => do
    let index ← modifyGet fun w =>
      (w.bodies.length, { w with
        state := { w.state with
          foreign := { w.state.foreign with methods := w.state.foreign.methods ++ [info] } }
        bodies := w.bodies ++ [body] })
    (next index).run
  | .ask request next => do
    let reply ← request.perform
    (next reply).run

/-- Counts one more call of a method. -/
def State.countCall (s : State) (method : Nat) : State :=
  { s with foreign := { s.foreign with
      methods := s.foreign.methods.modify method fun m => { m with calls := m.calls + 1 } } }

/-- Calls a foreign method, with calls nested at most so deep. -/
def callAt {σ : Type} : Nat → Invoker σ
  | 0 => fun _ _ => throw .exhausted
  | depth + 1 => fun method inv => do
    match (← get).bodies[method]? with
    | none => throw (.panic (.unknownMethod method))
    | some body => do
      modify fun w => { w with state := w.state.countCall method }
      (body inv).run (callAt depth)

end TwinHeap
