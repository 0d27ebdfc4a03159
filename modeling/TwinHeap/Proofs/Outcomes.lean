import TwinHeap.Bridge.Run

/-!
# Outcomes — what a request makes of a state by itself

Some requests are carried out at once: neither the bridge nor foreign code takes part in them. Such a
request changes nothing, or one thing (`Request.Outcome`). What that is, with the conditions that it is
done under, is said here once; invariants are read off it, outcome by outcome.
-/

namespace TwinHeap

/-- The change that a request is, if neither the bridge nor foreign code takes part in it. -/
def Request.alone? : Request → Option (State → State)
  | .defineClass info super => some fun s => s.withHost (s.host.defineClass info super).2
  | .spawn classRef owner name => some fun s => s.withHost (s.host.spawn classRef owner name).2
  | .setReachable object reachable =>
    some fun s => s.withHost (s.host.setReachable object reachable)
  | .intern text number => some fun s => s.withHost (s.host.name text number).2
  | .allot v => some fun s => (s.allot v).2
  | .discard cell => some fun s => s.discard cell
  | .store place v => some fun s => s.storeAt place v
  | .write place octets => some fun s => s.writeAt place octets
  | .defineType assembly fullName =>
    some fun s => { s with foreign := (s.foreign.defineType assembly fullName).2 }
  | .allocate contents => some fun s => s.withHeap (s.heap.allocate contents).2
  | .instantiate type => some fun s => (s.instantiate type).2
  | .setNative object native => some fun s => s.withHeap (s.heap.setNative object native)
  | .collect full => some fun s => s.withHeap (s.heap.collect full)
  | .hold target strength => some fun s => (s.hold target strength).2
  | .regrip grip strength => some fun s => s.regrip grip strength
  | .letGo grip => some fun s => s.letGo grip
  | .setRooted host rooted => some fun s => (s.setRooted host rooted).2
  | .redirect function method => some fun s => (s.redirect function method).2
  | _ => none

/-- The strength that rooting asks for. -/
def Strength.ofRooted (rooted : Bool) : Strength := if rooted then .strong else .weak

theorem Strength.ofRooted_ne_released (rooted : Bool) : ofRooted rooted ≠ .released := by
  cases rooted <;> decide

namespace State

/-- The state in which the hold of a host object's entry is made as tight as `strength` says. -/
def tighten (s : State) (host : Address) (old : Grip) (strength : Strength) : State :=
  { s with
    foreign := { s.foreign with heap := (old.setStrength s.heap strength).2 }
    bridge := { s.bridge with
      entries := s.bridge.entries.insert host (old.setStrength s.heap strength).1 }
    journal := .handleStrength host (strength == .weak) :: s.journal }

/-- The state in which a hold of foreign code is as tight as `strength` says. -/
def tightenGrip (s : State) (i : Nat) (old : Grip) (strength : Strength) : State :=
  { s.withHeap (old.setStrength s.heap strength).2 with
    grips := s.grips.insert i (old.setStrength s.heap strength).1 }

/-- The state in which foreign code has given a hold up. -/
def dropGrip (s : State) (i : Nat) (old : Grip) : State :=
  { s.withHeap (old.release s.heap).2 with grips := s.grips.erase i }

/-- The state in which a type is known by its name. -/
def nameType (s : State) (assembly fullName : String) : State :=
  { s with
    foreign := { s.foreign with
      types := s.foreign.types.insert (assembly, fullName) (s.foreign.types.size + 1) } }

/-- The state in which a function is redirected to a method that it is not bound to yet. -/
def register (s : State) (function : Function) (method : ForeignMethod) : State :=
  { s with
    bridge := { s.bridge with
      redirectors := s.bridge.redirectors.insert (Redirector.key function)
        ⟨function, method, .unbound, 0⟩ } }

theorem setRooted_eq (s : State) (host : Address) (rooted : Bool) : s.setRooted host rooted =
    match s.bridge.entries.get? host with
    | none => (false, s)
    | some old =>
      if old.strength = .ofRooted rooted then (true, s)
      else ((old.setStrength s.heap (.ofRooted rooted)).1.strength != .released,
        s.tighten host old (.ofRooted rooted)) := by
  cases rooted <;> rfl

/-- Rooting changes nothing, or makes the hold of an entry strong or weak. -/
theorem setRooted_cases (s : State) (host : Address) (rooted : Bool) :
    (s.setRooted host rooted).2 = s ∨
      ∃ old strength, s.bridge.entries.get? host = some old ∧ strength ≠ .released ∧
        (s.setRooted host rooted).2 = s.tighten host old strength := by
  rw [setRooted_eq]
  split
  · exact .inl rfl
  · split
    · exact .inl rfl
    · exact .inr ⟨_, _, ‹_›, Strength.ofRooted_ne_released rooted, rfl⟩

/-- A redirector that was just registered is bound to nothing, and the others are what they were. -/
theorem linked_of_register {s : State} {function : Function} {method : ForeignMethod}
    {key : Redirector.Key} {r : Redirector} {l : Linkage} {m : Nat}
    (hr : (s.register function method).redirector? key = some r) (hl : r.binding = .linked l m) :
    s.redirector? key = some r := by
  have hget : (s.bridge.redirectors.insert _ _).get? key = some r := hr
  rw [Table.get?_insert] at hget
  split at hget
  · cases hget
    cases hl
  · exact hget

/-- Nothing that was there is registered again. -/
theorem redirector?_register {s : State} {function : Function}
    (hn : s.redirector? (Redirector.key function) = none) (method : ForeignMethod)
    {key : Redirector.Key} {r : Redirector} (hr : s.redirector? key = some r) :
    (s.register function method).redirector? key = some r := by
  refine (Table.get?_insert ..).trans ?_
  rw [if_neg]
  · exact hr
  · rintro rfl
    cases hn.symm.trans hr

end State

namespace Request

/-- What is left of a state by a request that is carried out at once. -/
inductive Outcome (s : State) : Request → State → Prop
  /-- There is nothing to do. -/
  | idle (r : Request) : Outcome s r s
  | defineClass (info : ClassInfo) (super : Option Address) :
      Outcome s (.defineClass info super) (s.withHost (s.host.defineClass info super).2)
  | spawn (classRef : Address) (owner : Option Address) (name : String) :
      Outcome s (.spawn classRef owner name) (s.withHost (s.host.spawn classRef owner name).2)
  | setReachable (object : Address) (reachable : Bool) :
      Outcome s (.setReachable object reachable) (s.withHost (s.host.setReachable object reachable))
  | intern (text : String) (number : Nat) :
      Outcome s (.intern text number) (s.withHost (s.host.name text number).2)
  | allot (v : Value) : Outcome s (.allot v) (s.allot v).2
  | discard (cell : Nat) : Outcome s (.discard cell) (s.discard cell)
  | store (cell offset : Nat) (v : Value) :
      Outcome s (.store (.cell cell offset) v) (s.storeAt (.cell cell offset) v)
  | write (cell offset : Nat) (octets : List Octet) :
      Outcome s (.write (.cell cell offset) octets) (s.writeAt (.cell cell offset) octets)
  | payload (i : Nat) (octets : List Octet) :
      Outcome s (.write (.payload i) octets) (s.writeAt (.payload i) octets)
  | defineType {assembly fullName : String} (hn : s.foreign.lookupType assembly fullName = none) :
      Outcome s (.defineType assembly fullName) (s.nameType assembly fullName)
  | allocate (contents : Managed) :
      Outcome s (.allocate contents) (s.withHeap (s.heap.allocate contents).2)
  | instantiate {type : Nat} (ht : s.foreign.isType type = true) :
      Outcome s (.instantiate type) (s.withHeap (s.heap.allocate (.object type .null)).2)
  | setNative (object native : Address) :
      Outcome s (.setNative object native) (s.withHeap (s.heap.setNative object native))
  | collect (full : Bool) : Outcome s (.collect full) (s.withHeap (s.heap.collect full))
  | hold (target : Address) (strength : Strength) :
      Outcome s (.hold target strength) (s.hold target strength).2
  | regrip {i : Nat} {old : Grip} (hold : s.grips.get? i = some old) (strength : Strength) :
      Outcome s (.regrip i strength) (s.tightenGrip i old strength)
  | letGo {i : Nat} {old : Grip} (hold : s.grips.get? i = some old) :
      Outcome s (.letGo i) (s.dropGrip i old)
  | setRooted {host : Address} {old : Grip} {rooted : Bool}
      (hold : s.bridge.entries.get? host = some old) (hs : old.strength ≠ .ofRooted rooted) :
      Outcome s (.setRooted host rooted) (s.tighten host old (.ofRooted rooted))
  | redirect {function : Function} (hn : s.redirector? (Redirector.key function) = none)
      (method : ForeignMethod) :
      Outcome s (.redirect function method) (s.register function method)

variable {r : Request} {s s' : State} {f : State → State}

/-- A request that is carried out at once leaves one of these. -/
theorem outcome (hf : r.alone? = some f) (s : State) : r.Outcome s (f s) := by
  cases r <;> simp only [alone?, Option.some.injEq, reduceCtorEq] at hf <;> subst hf
  case store place v =>
    cases place with
    | cell c offset => exact .store c offset v
    | _ => exact .idle _
  case write place octets =>
    cases place with
    | cell c offset => exact .write c offset octets
    | payload i => exact .payload i octets
    | _ => exact .idle _
  case defineType assembly fullName =>
    dsimp only
    unfold Foreign.defineType
    split
    · exact .idle _
    · exact .defineType ‹_›
  case instantiate type =>
    dsimp only
    unfold State.instantiate
    split
    · exact .instantiate ‹_›
    · exact .idle _
  case regrip i strength =>
    dsimp only
    unfold State.regrip
    split
    · exact .idle _
    · exact .regrip ‹_› strength
  case letGo i =>
    dsimp only
    unfold State.letGo
    split
    · exact .idle _
    · exact .letGo ‹_›
  case setRooted host rooted =>
    dsimp only
    rw [State.setRooted_eq]
    split
    · exact .idle _
    · split
      · exact .idle _
      · exact .setRooted ‹_› ‹_›
  case redirect function method =>
    dsimp only
    unfold State.redirect
    dsimp only
    split
    · exact .idle _
    · exact .redirect ‹_› method
  all_goals constructor

end Request

end TwinHeap
