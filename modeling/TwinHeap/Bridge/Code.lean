import TwinHeap.Bridge.Run

/-!
Writing foreign code.

`Code σ α` is foreign code that goes on with an `α`: a program with a hole for what follows. It is a
monad, so bodies of methods are written in `do` notation, and `Code.toProgram` closes the hole.
-/

namespace TwinHeap

/-- Foreign code that goes on with an `α`. -/
def Code (σ α : Type) := (α → Program σ) → Program σ

namespace Code

variable {σ α : Type}

instance : Monad (Code σ) where
  pure a := fun next => next a
  bind code f := fun next => code fun a => f a next

/-- Makes a request. -/
def ask (r : Request) : Code σ r.Reply := fun next => .ask r next

def state : Code σ State := fun next => .observe fun s _ => next s

/-- What the authors of the code remember. -/
def memory : Code σ σ := fun next => .observe fun _ m => next m

def remember (m : σ) : Code σ Unit := fun next => .remember m (next ())

/-- Ends the code without a result of its own. -/
def finish (p : Program σ) : Code σ α := fun _ => p

def ofPanic : Except Panic α → Code σ α
  | .ok a => pure a
  | .error p => finish (.panic p)

/-- The program that runs the code and returns its answer. -/
def toProgram (code : Code σ (Option Address)) : Program σ := code .done

/-- The address that the pointer at an index points to. -/
def pointerAt (inv : Invocation) (i : Nat) : Code σ Address := do
  let place ← ofPanic (inv.arg i)
  return (← state).addressAt place

/-- The object passed at an index. -/
def objectAt (inv : Invocation) (i : Nat) : Code σ (Option Address) := do
  return (← ofPanic (inv.arg i)).nonNull

end Code

/-- A method before it is defined. -/
structure MethodDef (σ : Type) where
  assembly : String
  key : String
  /-- The number of parameters where it differs from that of the key. -/
  arity : Option Nat
  body : Invocation → Program σ

namespace MethodDef

variable {σ : Type}

/-- What is known of the method once it is defined; its key has to have a parameter list. -/
def info (m : MethodDef σ) : Except Panic MethodInfo :=
  match Signature.parse m.key with
  | .error e => .error (.badMethodKey e)
  | .ok s =>
    match m.arity <|> s.arity with
    | none => .error (.openMethodKey m.key)
    | some n => .ok ⟨m.assembly, s, n, 0⟩

end MethodDef

/-- Types and methods that belong together. -/
structure Definitions (σ : Type) where
  /-- Assembly and full name of each type. -/
  types : List (String × String)
  methods : List (MethodDef σ)

/-- The foreign runtime with the bodies of its methods. -/
structure ForeignSide (σ : Type) where
  foreign : Foreign
  bodies : List (Invocation → Program σ)

namespace ForeignSide

variable {σ : Type}

def empty : ForeignSide σ := ⟨.empty, []⟩

def define (side : ForeignSide σ) (m : MethodDef σ) : Except Panic (ForeignSide σ) := do
  let info ← m.info
  return ⟨{ side.foreign with methods := side.foreign.methods ++ [info] }, side.bodies ++ [m.body]⟩

/-- Adds the types and then the methods. -/
def install (side : ForeignSide σ) (d : Definitions σ) : Except Panic (ForeignSide σ) :=
  let foreign := d.types.foldl (fun f t => (f.defineType t.1 t.2).2) side.foreign
  d.methods.foldlM define { side with foreign := foreign }

end ForeignSide

namespace Code

variable {σ : Type}

/-- Defines a method. -/
def define (m : MethodDef σ) : Code σ Nat := do
  let info ← ofPanic m.info
  fun next => .define info m.body next

/-- Adds the types and then the methods; the numbers of the types. -/
def install (d : Definitions σ) : Code σ (List Nat) := do
  let types ← d.types.mapM fun t => ask (.defineType t.1 t.2)
  for m in d.methods do
    discard <| define m
  return types

end Code

end TwinHeap
