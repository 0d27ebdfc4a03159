import TwinHeap.Property.Kind
import TwinHeap.Signature

/-!
Reflected parameters, native functions and foreign methods.

A `Property` is one parameter: its name, its kind and where it lies. A `Function` is a native
function with its parameters in declaration order; a `ForeignMethod` is the method that a function
is routed to, with its arguments in the foreign declaration order. The two lists are matched by
name, and flags say which entries are outputs.
-/

namespace TwinHeap

/-- The name of the parameter that stands for a function's return value. -/
def returnName : String := "ReturnValue"

/-- What a parameter is for. -/
structure ParamFlags where
  param : Bool
  out : Bool
  ret : Bool
  reference : Bool
  const : Bool
deriving DecidableEq, Repr

namespace ParamFlags

def none : ParamFlags := ⟨false, false, false, false, false⟩

/-- The flags that the low five bits of `n` stand for. -/
def ofBits (n : Nat) : ParamFlags :=
  ⟨n.testBit 0, n.testBit 1, n.testBit 2, n.testBit 3, n.testBit 4⟩

def bits (f : ParamFlags) : Nat :=
  f.param.toNat + 2 * f.out.toNat + 4 * f.ret.toNat + 8 * f.reference.toNat + 16 * f.const.toNat

theorem ofBits_bits (f : ParamFlags) : ofBits f.bits = f := by
  obtain ⟨a, b, c, d, e⟩ := f
  cases a <;> cases b <;> cases c <;> cases d <;> cases e <;> decide

end ParamFlags

/-- One parameter of a function, or one field of the host. -/
structure Property where
  name : String
  kind : Kind
  size : Nat
  align : Nat
  offset : Nat
  flags : ParamFlags
deriving DecidableEq, Repr

namespace Property

/-- A property of the given layout at the start of its block; no alignment is below one. -/
def ofLayout (name : String) (kind : Kind) (layout : Layout) : Property :=
  ⟨name, kind, layout.size, max layout.align 1, 0, .none⟩

/-- A property laid out as the host stores its kind. -/
def ofKind (name : String) (kind : Kind) : Property :=
  ofLayout name kind kind.hostLayout

def isReturn (p : Property) : Bool := p.flags.ret

/-- An output is written by the callee and carries nothing in. -/
def isOut (p : Property) : Bool := p.flags.out && !p.flags.const

/-- Whether the caller passes its own storage. -/
def isReference (p : Property) : Bool := p.flags.reference || (p.isOut && !p.isReturn)

end Property

/-- What kind of function a native function is. -/
structure FunctionFlags where
  static : Bool
  native : Bool
  hasOutputs : Bool
  event : Bool
deriving DecidableEq, Repr

namespace FunctionFlags

def none : FunctionFlags := ⟨false, false, false, false⟩

def bits (f : FunctionFlags) : Nat :=
  f.static.toNat + 2 * f.native.toNat + 4 * f.hasOutputs.toNat + 8 * f.event.toNat

end FunctionFlags

/-- A native function and the block its parameters are stored in. -/
structure Function where
  owner : String
  name : String
  flags : FunctionFlags
  params : List Property
  /-- Size and alignment of the whole parameter block. -/
  block : Layout
deriving DecidableEq, Repr

namespace Function

/-- The name a function has in messages. -/
def qualifiedName (f : Function) : String := s!"{f.owner}::{f.name}"

def returnProperty (f : Function) : Option Property :=
  f.params.find? Property.isReturn

/-- The index of the first parameter called `name`. -/
def indexOf (f : Function) (name : String) : Option Nat :=
  f.params.findIdx? fun p => p.name == name

/-- The parameters that the caller supplies, in order. -/
def inputs (f : Function) : List Property :=
  f.params.filter fun p => !p.isReturn

end Function

/-- One argument of a foreign method. -/
structure ForeignArg where
  name : String
  byRef : Bool
  isReturn : Bool
deriving DecidableEq, Repr

namespace ForeignArg

/-- The argument whose flags are the low two bits of `n`. -/
def ofBits (name : String) (n : Nat) : ForeignArg := ⟨name, n.testBit 0, n.testBit 1⟩

def bits (a : ForeignArg) : Nat := a.byRef.toNat + 2 * a.isReturn.toNat

end ForeignArg

/-- The foreign method that a native function is routed to. -/
structure ForeignMethod where
  assembly : String
  signature : Signature
  args : List ForeignArg
deriving DecidableEq, Repr

namespace ForeignMethod

/-- The arguments that are really passed. -/
def passed (m : ForeignMethod) : List ForeignArg :=
  m.args.filter fun a => !a.isReturn

def parameterCount (m : ForeignMethod) : Nat := m.passed.length

end ForeignMethod

end TwinHeap
