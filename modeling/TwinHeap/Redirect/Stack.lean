import TwinHeap.Failure
import TwinHeap.Property.Descriptor

/-!
Argument stacks: what a native call site passes to a function.

Each argument is a cell of storage, passed by value or by reference. A stack is read from the front,
one argument for each parameter, and can be read again from the start.
-/

namespace TwinHeap

/-- An argument: the cell that holds it, and whether the caller lends the cell itself. -/
structure StackArg where
  cell : Nat
  byRef : Bool
deriving DecidableEq, Repr

/-- Arguments and how many of them were read. -/
structure ArgStack where
  args : List StackArg
  cursor : Nat
deriving DecidableEq, Repr

namespace ArgStack

def ofArgs (args : List StackArg) : ArgStack := ⟨args, 0⟩

def size (s : ArgStack) : Nat := s.args.length

def isEmpty (s : ArgStack) : Bool := s.args.isEmpty

/-- The number of arguments not read yet. -/
def remaining (s : ArgStack) : Nat := s.args.length - s.cursor

def rewind (s : ArgStack) : ArgStack := { s with cursor := 0 }

/-- The next argument, read for the property `p`. -/
def next (s : ArgStack) (p : Property) : Except Panic (StackArg × ArgStack) :=
  match s.args[s.cursor]? with
  | some a => .ok (a, { s with cursor := s.cursor + 1 })
  | none => .error (.stackExhausted p.name)

end ArgStack

end TwinHeap
