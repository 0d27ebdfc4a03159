import TwinHeap.Container
import TwinHeap.Table

/-!
The foreign heap: managed objects, the handles on them and the collector.

An object is known by the address it was given when it was allocated, and no address is given twice.
A handle is strong or weak; a collection keeps exactly the targets of strong handles, and a weak
handle loses a target that was not kept.
-/

namespace TwinHeap

/-- An object of the foreign heap. -/
inductive Managed
  /-- An instance of a type, with the host address it stands for, or null. -/
  | object (type : Nat) (native : Address)
  | string (text : String)
  /-- A boxed value: `len` octets, filled up to whole words. -/
  | boxed (octets : List Octet) (len : Nat)
  | collection (contents : Container)
  | soft (path : String)
deriving DecidableEq, Repr

/-- A handle of the collector on an object. -/
structure GcHandle where
  target : Option Address
  weak : Bool
deriving DecidableEq, Repr

/-- A handle that is weak loses a target that is not among the living. -/
def GcHandle.clear (g : GcHandle) (living : Address → Bool) : GcHandle :=
  if g.weak then { g with target := g.target.filter living } else g

structure Heap where
  objects : Table Nat Managed
  nextObject : Nat
  handles : Table Nat GcHandle
  nextHandle : Nat
  collections : Nat
  /-- Whether the last collection was a full one. -/
  lastFull : Option Bool
deriving DecidableEq, Repr

namespace Heap

def empty : Heap := ⟨.empty, 0, .empty, 1, 0, none⟩

/-- The object at an address, if it is alive. -/
def get? (h : Heap) : Address → Option Managed
  | .foreign i => h.objects.get? i
  | _ => none

def isAlive (h : Heap) (a : Address) : Bool := (h.get? a).isSome

def allocate (h : Heap) (m : Managed) : Address × Heap :=
  (.foreign h.nextObject,
    { h with objects := h.objects.insert h.nextObject m, nextObject := h.nextObject + 1 })

/-- Changes the object at an address, if it is alive. -/
def modify (h : Heap) (a : Address) (f : Managed → Managed) : Heap :=
  match a with
  | .foreign i => { h with objects := h.objects.modify i f }
  | _ => h

/-- A boxed value of the given octets. -/
def box (os : List Octet) : Managed :=
  .boxed (os ++ List.replicate ((os.length + 7) / 8 * 8 - os.length) .zero) os.length

/-- The host address that an instance stands for. -/
def nativeOf (h : Heap) (a : Address) : Option Address :=
  match h.get? a with
  | some (.object _ native) => some native
  | _ => none

def setNative (h : Heap) (a native : Address) : Heap :=
  h.modify a fun
    | .object type _ => .object type native
    | m => m

/-- The text of a string, empty for anything else. -/
def readString (h : Heap) (a : Address) : String :=
  match h.get? a with
  | some (.string s) => s
  | _ => ""

/-- Whether an object is a boxed value. -/
def isBoxed (h : Heap) (a : Address) : Bool :=
  match h.get? a with
  | some (.boxed _ _) => true
  | _ => false

def createHandle (h : Heap) (target : Address) (weak : Bool) : Nat × Heap :=
  (h.nextHandle,
    { h with
      handles := h.handles.insert h.nextHandle ⟨some target, weak⟩
      nextHandle := h.nextHandle + 1 })

def freeHandle (h : Heap) (handle : Nat) : Heap :=
  { h with handles := h.handles.erase handle }

/-- The target of a handle, if it is alive. -/
def target? (h : Heap) (handle : Nat) : Option Address :=
  match h.handles.get? handle with
  | some g => g.target.filter h.isAlive
  | none => none

/-- The addresses that strong handles hold. -/
def roots (h : Heap) : List Address :=
  (h.handles.values.filter fun g => !g.weak).filterMap GcHandle.target

/-- The objects that no strong handle holds. -/
def doomed (h : Heap) : List Nat :=
  let roots := h.roots
  h.objects.keys.filter fun i => !roots.contains (.foreign i)

/-- Takes out the objects that no strong handle holds. -/
def sweep (h : Heap) : Heap :=
  let roots := h.roots
  { h with objects := h.objects.filter fun i _ => roots.contains (.foreign i) }

/-- Frees every object that no strong handle holds. The weak handles are gone through only if an
object died. -/
def collect (h : Heap) (full : Bool) : Heap :=
  let swept := h.sweep
  { swept with
    handles :=
      if h.doomed.isEmpty then h.handles
      else h.handles.mapValues fun _ g => g.clear swept.isAlive
    collections := h.collections + 1
    lastFull := some full }

end Heap

/-- How tightly a proxy handle holds its target. -/
inductive Strength
  | strong
  | weak
  | released
deriving DecidableEq, Repr

def Strength.name : Strength → String
  | strong => "Strong"
  | weak => "Weak"
  | released => "Released"

/-- A proxy handle: one handle of the collector, or none once it is released. -/
structure Grip where
  handle : Option Nat
  strength : Strength
deriving DecidableEq, Repr

namespace Grip

/-- A new hold on an object. -/
def make (h : Heap) (target : Address) (s : Strength) : Grip × Heap :=
  match s with
  | .released => (⟨none, .released⟩, h)
  | s =>
    let (handle, h) := h.createHandle target (s == .weak)
    (⟨some handle, s⟩, h)

/-- The object held, if it is alive. -/
def target? (g : Grip) (h : Heap) : Option Address := g.handle.bind h.target?

/-- Lets go for good. -/
def release (g : Grip) (h : Heap) : Grip × Heap :=
  (⟨none, .released⟩, g.handle.elim h h.freeHandle)

/-- Holds the same object at another strength, by a handle that replaces the old one. A hold that
was released stays so, and one whose target is gone becomes so. -/
def setStrength (g : Grip) (h : Heap) (s : Strength) : Grip × Heap :=
  if s = g.strength || g.strength = .released then (g, h)
  else if s = .released then g.release h
  else
    let (_, freed) := g.release h
    match g.target? h with
    | some target => make freed target s
    | none => (⟨none, .released⟩, freed)

/-- The handle in full, on one line. -/
def describe (g : Grip) : String :=
  let handle := match g.handle with
    | none => "None"
    | some id => s!"Some(GcHandle({id}))"
  s!"ProxyHandle \x7b handle: {handle}, strength: {g.strength.name} \x7d"

end Grip

end TwinHeap
