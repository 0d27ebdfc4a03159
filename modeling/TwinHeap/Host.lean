import TwinHeap.Address

/-!
The native host: its classes, its objects and its interned names.

Classes and objects are never taken back, and what they are is fixed when they are made, apart from
an object's reachability. So a class keeps the chain of its ancestors and an object the chain of its
owners, nearest first.
-/

namespace TwinHeap

/-- Where a host class comes from. -/
inductive Origin
  /-- Compiled into the host. -/
  | native
  /-- Generated from a foreign class. -/
  | foreign
  /-- Made in the host's editor. -/
  | editor
deriving DecidableEq, Repr

/-- What the host knows of a class. -/
structure ClassInfo where
  name : String
  /-- The full name of its foreign counterpart. -/
  foreignName : String
  assembly : String
  origin : Origin
  /-- A library of static functions; its proxies are constructed without a host address. -/
  isLibrary : Bool
deriving DecidableEq, Repr

structure HostClass where
  info : ClassInfo
  ancestors : List Address
deriving DecidableEq, Repr

structure HostObject where
  classRef : Address
  owners : List Address
  reachable : Bool
  name : String
deriving DecidableEq, Repr

/-- The host. Classes, objects and names are known by their place in the lists. -/
structure Host where
  classes : List HostClass
  objects : List HostObject
  names : List String
deriving DecidableEq, Repr

/-- An interned name with a number behind it. -/
structure HostName where
  comparison : Nat
  display : Nat
  number : Nat
deriving DecidableEq, Repr

namespace Host

def empty : Host := ⟨[], [], []⟩

def classAt (h : Host) : Address → Option HostClass
  | .hostClass i => h.classes[i]?
  | _ => none

def objectAt (h : Host) : Address → Option HostObject
  | .hostObject i => h.objects[i]?
  | _ => none

/-- A class and its ancestors, as far as they are known. -/
def lineage (h : Host) (a : Address) : List Address :=
  a :: (h.classAt a).elim [] HostClass.ancestors

/-- An object and its owners, as far as they are known. -/
def ownership (h : Host) (a : Address) : List Address :=
  a :: (h.objectAt a).elim [] HostObject.owners

def defineClass (h : Host) (info : ClassInfo) (super : Option Address) : Address × Host :=
  let ancestors := super.elim [] h.lineage
  (.hostClass h.classes.length, { h with classes := h.classes ++ [⟨info, ancestors⟩] })

/-- A new object, reachable for now. -/
def spawn (h : Host) (classRef : Address) (outer : Option Address) (name : String) :
    Address × Host :=
  let owners := outer.elim [] h.ownership
  (.hostObject h.objects.length,
    { h with objects := h.objects ++ [⟨classRef, owners, true, name⟩] })

def setReachable (h : Host) (a : Address) (reachable : Bool) : Host :=
  match a with
  | .hostObject i =>
    { h with objects := h.objects.modify i fun o => { o with reachable := reachable } }
  | _ => h

/-- Whether the host still reaches an object; what is no object is never reached. -/
def isReachable (h : Host) (a : Address) : Bool :=
  (h.objectAt a).elim false HostObject.reachable

/-- Whether `a` is `root` or is owned by it, directly or not. -/
def isInScope (h : Host) (a root : Address) : Bool :=
  (h.ownership a).contains root

/-- The index of a text, which is interned if it is new. -/
def intern (h : Host) (text : String) : Nat × Host :=
  match h.names.findIdx? (· == text) with
  | some i => (i, h)
  | none => (h.names.length, { h with names := h.names ++ [text] })

/-- The name of a text and a number. -/
def name (h : Host) (text : String) (number : Nat) : HostName × Host :=
  let (i, h) := h.intern text
  (⟨i, i, number⟩, h)

def nameText (h : Host) (n : HostName) : Option String := h.names[n.comparison]?

end Host

end TwinHeap
