import TwinHeap.Bridge.Program
import TwinHeap.Scenario.Datum

/-!
Scenarios: scripts that drive a host, a foreign runtime and the bridge between them.

A scenario is a list of steps. Most steps are actions, which a host takes at the top level and
foreign code takes in the body of a method; others define a method, whose body is a list of steps
again, or end the body they stand in.
-/

namespace TwinHeap.Scenario

/-- A host object or class, as a scenario names it. -/
inductive HostRef
  | null
  /-- By the label of the step that made it, or by `#` and an address. -/
  | label (name : String)
  /-- The host object of the proxy that the running method was called on. -/
  | receiver
deriving Repr

/-- A value that is worked out when a step is taken. -/
inductive Expr
  | lit (d : Datum)
  | add (a b : Expr)
  | sub (a b : Expr)
  | mul (a b : Expr)
  | concat (parts : List Expr)
  /-- The text of the string passed at an index, directly or in a slot. -/
  | stringArg (i : Nat)
  | stringSlot (i : Nat)
  /-- The foreign data that the pointer at an index points to. -/
  | arg (i : Nat) (kind : Kind)

/-- A foreign object, as a scenario names or makes it. -/
inductive ForeignRef
  | null
  | named (name : String)
  | string (text : String)
  | soft (path : String)
  | collection (contents : Container)
  | box (kind : Kind) (value : Expr)
  /-- The proxy that a host object has already. -/
  | proxy (host : HostRef)
  /-- The object passed at an index, directly or in a slot. -/
  | arg (i : Nat)
  | slot (i : Nat)
  | receiver

/-- When a step is taken. -/
inductive Condition
  | less (a b : Expr)
  | equal (a b : Expr)
  /-- Fewer calls than `n` of a redirected function are running. -/
  | depthBelow (owner name : String) (n : Nat)

/-- How an argument is passed. -/
inductive Passing
  | value
  | reference
deriving DecidableEq, Repr

/-- An argument of a native call: storage of its own, or that of an earlier argument. -/
inductive Argument
  | fresh (kind : Kind) (value : Expr) (passing : Passing)
  | shared (index : Nat) (passing : Passing)

/-- Storage for a result, with what it holds before the call. -/
structure ResultSpec where
  kind : Kind
  before : Datum

/-- One read of an argument stack. -/
inductive StackRead
  | next (kind : Kind) (name : String) (before : Datum)
  | rewind

/-- A delegate: one that a step made, or one that is given. -/
inductive DelegateRef
  | named (id : String)
  | given (object : HostRef) (function : String)

inductive HandleAction
  | make (target : ForeignRef) (strength : Strength)
  | set (strength : Strength)
  | release
  | drop
  | observe

inductive DelegateAction
  | bind (object : HostRef) (function : String)
  | unbind
  | boundTo (object : HostRef)
  | resolve
  | observe

inductive MulticastAction
  | add (d : DelegateRef)
  | addUnique (d : DelegateRef)
  | remove (d : DelegateRef)
  | removeAll (object : HostRef)
  | contains (d : DelegateRef)
  | clear
  | observe

/-- What the foreign side of a copy is. -/
inductive CopyPlace
  /-- A pointer to foreign data. -/
  | data (value : Datum)
  /-- A pointer to bytes. -/
  | bytes (bytes : List UInt8)
  /-- An object itself. -/
  | object (value : ForeignRef)
  | null
  /-- A pointer to memory that was never written. -/
  | blank

/-- The property that is marshalled. -/
structure PropertySpec where
  kind : Kind
  name : String
  /-- A layout in place of the host's; the value is raw bytes then. -/
  layout : Option Layout
  /-- A marshaller in place of the registry's. -/
  marshaller : Option Marshaller

/-- What is done in a step. -/
inductive Action
  -- the host
  | boundClass (id fullName : String) (super : HostRef)
  | hostClass (id : String) (info : ClassInfo) (super : HostRef)
  | classInfo (classRef : HostRef)
  | spawn (id : String) (classRef owner : HostRef) (name : String)
  | mark (object : HostRef) (reachable : Bool)
  | objectInfo (object : HostRef)
  | inScope (object root : HostRef)
  | intern (text : String) (number : Nat)
  -- the foreign runtime
  | defineType (assembly fullName : String)
  | proxyType (assembly fullName : String)
  | staticType (assembly fullName : String)
  | structType (assembly fullName : String) (size : Nat)
  | lookupType (assembly fullName : String)
  | lookupMethod (assembly key : String)
  | methodInfo (method : Nat)
  | callMethod (method : Nat) (object : ForeignRef) (args : List ForeignRef)
  | instantiate (type : Nat) (givenName : Option String)
  | make (value : ForeignRef) (givenName : Option String)
  | inspect (object : ForeignRef) (bytes : Bool)
  | readString (object : ForeignRef)
  | unbox (object : ForeignRef)
  | setNative (object : ForeignRef) (native : HostRef)
  | collect (full : Bool)
  | handle (id : String) (action : HandleAction)
  -- the bridge
  | proxy (object : HostRef) (givenName : Option String)
  | hostOf (object : ForeignRef)
  | entry (object : HostRef)
  | setRooted (object : HostRef) (rooted : Bool)
  | sweep
  | teardown (root : HostRef)
  | shutdown
  | binding (classRef : HostRef)
  | structFactory (info : StructInfo)
  | status
  | describeForeign
  | describeBridge
  -- redirected functions and delegates
  | redirect (function : Except Overflow Function) (method : Except SignatureError ForeignMethod)
  | phase (key : Redirector.Key)
  | link (key : Redirector.Key)
  | invoke (key : Redirector.Key) (target : HostRef) (args : List Argument)
      (result : Option ResultSpec)
  | readStack (args : List Argument) (reads : List StackRead)
  | delegate (id : String) (action : DelegateAction)
  | execute (d : DelegateRef) (args : List Argument) (result : Option ResultSpec)
  | multicast (id : String) (action : MulticastAction)
  | broadcast (id : String) (args : List (List Argument))
  -- marshalling
  | copy (p : PropertySpec) (host : Datum) (place : CopyPlace) (direction : Direction)
  | pass (p : PropertySpec) (host : Datum) (byRef : Bool) (add : Bool)
  | reset (p : PropertySpec) (host : Datum)
  | assign (p : PropertySpec) (dest src : Datum)
  -- in a body
  | read (value : Expr)
  | look (value : ForeignRef)
  | write (arg : Nat) (kind : Kind) (value : Expr)
  | setSlot (arg : Nat) (value : ForeignRef)
  | setString (arg : Nat) (value : Expr)
  | isNonNull (arg : Nat)
  | sameRuntime

/-- A method that a scenario defines. -/
structure MethodSpec where
  assembly : String
  key : String
  arity : Option Nat
  /-- Whether its calls are left out of the answers. -/
  quiet : Bool

/-- One step. -/
inductive Step
  /-- An action; in a body its failure may end the body with an exception of the same message. -/
  | act (guard : Option Condition) (propagate : Bool) (action : Action)
  | method (guard : Option Condition) (spec : MethodSpec) (body : List Step)
  | giveBack (guard : Option Condition) (value : ForeignRef)
  | raise (guard : Option Condition) (exception : ForeignException)

end TwinHeap.Scenario
