import TwinHeap.Failure
import TwinHeap.Marshal.Marshaller
import TwinHeap.Table

/-!
The registry of marshallers, keyed by the tag of a kind.

A tag is registered at most once: registering it again is a broken promise, not a replacement.
-/

namespace TwinHeap

/-- Which marshaller serves which tag. -/
structure Registry where
  marshallers : Table Kind.Tag Marshaller
deriving DecidableEq, Repr

namespace Registry

def empty : Registry := ⟨.empty⟩

/-- The registry of the default marshallers, one for every tag of data. -/
def default : Registry :=
  ⟨Kind.Tag.all.foldl
    (fun t tag => match Marshaller.ofTag tag with
      | some m => t.insert tag m
      | none => t)
    .empty⟩

def get? (r : Registry) (tag : Kind.Tag) : Option Marshaller :=
  r.marshallers.get? tag

/-- The registry in which `m` serves `tag`, unless another marshaller serves it already. -/
def register (r : Registry) (tag : Kind.Tag) (m : Marshaller) : Except Panic Registry :=
  match r.get? tag with
  | some _ => .error (.duplicateMarshaller tag)
  | none => .ok ⟨r.marshallers.insert tag m⟩

/-- The marshaller of a property. -/
def resolve (r : Registry) (p : Property) : Except LinkError Marshaller :=
  match r.get? p.kind.tag with
  | some m => .ok m
  | none => .error (.unsupportedKind p.name p.kind.tag)

def size (r : Registry) : Nat := r.marshallers.size

/-- The default registry serves each tag with the marshaller of its kind of data. -/
theorem get?_default (tag : Kind.Tag) : default.get? tag = Marshaller.ofTag tag := by
  cases tag with
  | scalar s => cases s <;> rfl
  | _ => rfl

end Registry

end TwinHeap
