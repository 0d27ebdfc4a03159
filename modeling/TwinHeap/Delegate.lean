import TwinHeap.Address

/-!
Script delegates: an object and the name of a function to call on it, alone or in lists.
-/

namespace TwinHeap

/-- A binding to a function of an object. -/
structure Delegate where
  object : Option Address
  function : String
deriving DecidableEq, Repr

namespace Delegate

def unbound : Delegate := ⟨none, ""⟩

def isBound (d : Delegate) : Bool := d.object.isSome && !d.function.isEmpty

def isBoundTo (d : Delegate) (a : Address) : Bool := d.object == some a

end Delegate

/-- Bindings that are called together, in order. -/
abbrev Multicast := List Delegate

namespace Multicast

/-- Adds a binding unless an equal one is there; whether it was added. -/
def addUnique (m : Multicast) (d : Delegate) : Bool × Multicast :=
  if m.contains d then (false, m) else (true, m ++ [d])

/-- Removes every equal binding; whether there was one. -/
def remove (m : Multicast) (d : Delegate) : Bool × Multicast :=
  (m.contains d, m.filter (· != d))

/-- Removes every binding to an object; how many there were. -/
def removeAll (m : Multicast) (a : Address) : Nat × Multicast :=
  (m.countP (·.isBoundTo a), m.filter fun d => !d.isBoundTo a)

end Multicast

end TwinHeap
