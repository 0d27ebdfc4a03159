import TwinHeap.Overflow
import TwinHeap.Property.Descriptor

/-!
Parameter blocks: where each parameter of a function lies.

Parameters are placed in declaration order, each at the next offset that its alignment allows, and
the block is closed at a multiple of the largest alignment. Offsets are 64-bit counts, and a sum
that does not fit is an error. Rounding clears the low bits, which is rounding up to a multiple
when the alignment is a power of two and only a lower bound otherwise.
-/

namespace TwinHeap

/-- `v` moved up for the alignment `a`: the bits of `a - 1` are cleared in `v + (a - 1)`. -/
def roundUp (v a : Nat) : Nat :=
  (v + (a - 1)) - ((v + (a - 1)) &&& (a - 1))

/-- `roundUp` where the sum with the alignment has to fit in 64 bits. -/
def checkedRoundUp (v a : Nat) : Except Overflow Nat := do
  let _ ← checkedAdd v a
  return roundUp v a

/-- A parameter before it is placed. -/
structure ParamDecl where
  name : String
  kind : Kind
  flags : ParamFlags
deriving DecidableEq, Repr

namespace ParamDecl

def input (name : String) (kind : Kind) : ParamDecl :=
  ⟨name, kind, { ParamFlags.none with param := true }⟩

def output (name : String) (kind : Kind) : ParamDecl :=
  ⟨name, kind, { ParamFlags.none with param := true, out := true }⟩

def inOut (name : String) (kind : Kind) : ParamDecl :=
  ⟨name, kind, { ParamFlags.none with param := true, out := true, reference := true }⟩

def result (kind : Kind) : ParamDecl :=
  ⟨returnName, kind, { ParamFlags.none with param := true, out := true, ret := true }⟩

/-- An output other than the return value. -/
def isOutput (d : ParamDecl) : Bool := d.flags.out && !d.flags.ret

end ParamDecl

/-- The parameters placed from `offset` on, and where the last one ends. -/
def placeParams (layoutOf : Kind → Layout) (offset : Nat) :
    List ParamDecl → Except Overflow (List Property × Nat)
  | [] => .ok ([], offset)
  | d :: ds => do
    let layout := layoutOf d.kind
    let align := max layout.align 1
    let start ← checkedRoundUp offset align
    let stop ← checkedAdd start layout.size
    let (placed, last) ← placeParams layoutOf stop ds
    return (⟨d.name, d.kind, layout.size, align, start, d.flags⟩ :: placed, last)

/-- The largest alignment, at least one. -/
def blockAlign (layoutOf : Kind → Layout) (ds : List ParamDecl) : Nat :=
  ds.foldl (fun a d => max a (max (layoutOf d.kind).align 1)) 1

/-- The function with the given parameters, laid out by `layoutOf`. -/
def Function.build (owner name : String) (flags : FunctionFlags) (layoutOf : Kind → Layout)
    (ds : List ParamDecl) : Except Overflow Function := do
  let (params, last) ← placeParams layoutOf 0 ds
  let align := blockAlign layoutOf ds
  let size ← checkedRoundUp last align
  let flags := { flags with hasOutputs := flags.hasOutputs || ds.any ParamDecl.isOutput }
  return ⟨owner, name, flags, params, ⟨size, align⟩⟩

/-- Rounding moves up, and by less than the alignment. -/
theorem le_roundUp (v a : Nat) : v ≤ roundUp v a := by
  unfold roundUp
  have h : (v + (a - 1)) &&& (a - 1) ≤ a - 1 := Nat.and_le_right
  omega

theorem roundUp_le (v a : Nat) : roundUp v a ≤ v + (a - 1) := by
  unfold roundUp
  omega

@[simp] theorem roundUp_one (v : Nat) : roundUp v 1 = v := by
  simp [roundUp]

end TwinHeap
