import TwinHeap.Marshal.Registry

/-!
Linkage: the parameters of a native function bound to the arguments of a foreign method, by name.

A `Linker` binds the arguments one after the other in the foreign order. Each is given the first native
parameter of its name, its marshaller and the next free region of the call's scratch memory. The
first argument that cannot be bound decides the error. Beside the `Linkage` it makes, a linker keeps a
table of the positions of the arguments by the native parameters they are bound to, and counts the
scratch memory that they take.
-/

namespace TwinHeap

/-- A foreign argument bound to a native parameter. -/
structure LinkedArg where
  /-- The index of the native parameter. -/
  param : Nat
  marshaller : Marshaller
  byRef : Bool
  /-- Where the argument's region starts in the scratch memory. -/
  scratchOffset : Nat
deriving DecidableEq, Repr

/-- The native parameter that receives the value a method returns. -/
structure LinkedReturn where
  param : Nat
  marshaller : Marshaller
deriving DecidableEq, Repr

/-- The binding of a function to a method. -/
structure Linkage where
  /-- In foreign order. -/
  args : List LinkedArg
  result : Option LinkedReturn
deriving DecidableEq, Repr

namespace Linkage

def empty : Linkage := ⟨[], none⟩

/-- The scratch memory that a call needs: the regions of all its arguments. -/
def scratchSize (l : Linkage) : Nat :=
  l.args.foldl (fun size a => size + a.marshaller.slotSize) 0

/-- The argument bound to the native parameter at `index`. -/
def forParam (l : Linkage) (index : Nat) : Option LinkedArg :=
  l.args.find? fun a => a.param == index

end Linkage

/-- A linkage in the making, with what its arguments have taken so far. -/
structure Linker where
  linkage : Linkage
  /-- For each native parameter the position of the argument that it is bound to. -/
  positions : List (Option Nat)
  /-- The end of the last region of the scratch memory. -/
  scratchSize : Nat
deriving DecidableEq, Repr

namespace Linker

def start (function : Function) : Linker :=
  ⟨.empty, List.replicate function.params.length none, 0⟩

/-- The position of the argument bound to the native parameter at `index`. -/
def position (k : Linker) (index : Nat) : Option Nat := k.positions[index]?.join

/-- The argument bound to the native parameter at `index`, as the table has it. -/
def forParam (k : Linker) (index : Nat) : Option LinkedArg :=
  (k.position index).bind fun i => k.linkage.args[i]?

/-- Whether the parameter at `index` is bound, to an argument or as the return value. -/
def binds (k : Linker) (index : Nat) : Bool :=
  (k.position index).isSome || (k.linkage.result.map LinkedReturn.param == some index)

/-- Binds one more argument, to the parameter at `index`. -/
def addArg (k : Linker) (index : Nat) (marshaller : Marshaller) (byRef : Bool) : Linker where
  linkage :=
    { k.linkage with args := k.linkage.args ++ [⟨index, marshaller, byRef, k.scratchSize⟩] }
  positions := k.positions.set index (some k.linkage.args.length)
  scratchSize := k.scratchSize + marshaller.slotSize

/-- Binds the return value to the parameter at `index`. -/
def setResult (k : Linker) (index : Nat) (marshaller : Marshaller) : Linker :=
  { k with linkage := { k.linkage with result := some ⟨index, marshaller⟩ } }

/-- Binds what the method declares next. -/
def bindArg (registry : Registry) (function : Function) (method : ForeignMethod) (k : Linker)
    (arg : ForeignArg) : Except LinkError Linker :=
  match function.indexOf arg.name, function.params.find? fun p => p.name == arg.name with
  | some index, some property =>
    if k.binds index then .error (.duplicateParameter function.qualifiedName arg.name)
    else
      match registry.resolve property with
      | .error e => .error e
      | .ok marshaller =>
        if arg.isReturn != property.isReturn then
          .error (.returnMismatch function.qualifiedName method.signature.render)
        else if arg.isReturn then .ok (k.setResult index marshaller)
        else .ok (k.addArg index marshaller arg.byRef)
  | _, _ =>
    .error (.missingParameter function.qualifiedName method.signature.render arg.name)

/-- Binds the arguments of `method` in order. -/
def link (registry : Registry) (function : Function) (method : ForeignMethod) :
    Except LinkError Linker :=
  method.args.foldlM (bindArg registry function method) (start function)

end Linker

/-- The linkage that a linker makes. -/
def Linkage.link (registry : Registry) (function : Function) (method : ForeignMethod) :
    Except LinkError Linkage :=
  Linker.linkage <$> Linker.link registry function method

end TwinHeap
