import TwinHeap.Text.Blank
import TwinHeap.Text.Split

/-!
Method keys, written `Namespace.Class:Method (type1,type2)`.

A key names a method of the foreign side. `Signature.parse` reads a key and ignores its layout;
`Signature.render` writes one in its plain layout; `Signature.accepts` says which declared method a
key finds. A key without a parameter list finds every overload of its name.
-/

namespace TwinHeap

/-- A method key. -/
structure Signature where
  nameSpace : String
  className : String
  method : String
  /-- The type tokens, or `none` for a key that leaves the parameters open. -/
  params : Option (List String)
deriving DecidableEq, Repr

/-- Why a text is no method key; each cause carries the whole text. -/
inductive SignatureError
  | missingClassSeparator (key : String)
  | emptyClassName (key : String)
  | emptyMethodName (key : String)
  | unterminatedParameters (key : String)
deriving DecidableEq, Repr

namespace SignatureError

def message : SignatureError → String
  | missingClassSeparator key => s!"`{key}` has no `:` between class and method"
  | emptyClassName key => s!"`{key}` has an empty class name"
  | emptyMethodName key => s!"`{key}` has an empty method name"
  | unterminatedParameters key => s!"`{key}` has an unterminated parameter list"

end SignatureError

namespace Signature

open Text

/-- The namespace and the class of a dotted class name: the class is what follows the last dot. -/
def splitClass (full : List Char) : List Char × List Char :=
  (cutLast '.' full).getD ([], full)

/-- The type tokens of a parameter list: its pieces without blanks, the empty ones left out. -/
def tokens (inner : List Char) : List String :=
  (((pieces ',' inner).map squeeze).filter fun t => !t.isEmpty).map String.ofList

/-- What follows the class separator: the method and, if the text opens a list, the list. -/
def parseMethod (key : String) (text : List Char) :
    Except SignatureError (List Char × Option (List String)) :=
  let text := trim text
  match cutFirst '(' text with
  | none => .ok (text, none)
  | some (name, rest) =>
    match dropFinal ')' (trimEnd rest) with
    | none => .error (.unterminatedParameters key)
    | some inner => .ok (trim name, some (tokens inner))

/-- The key written as `key`. -/
def parse (key : String) : Except SignatureError Signature :=
  match cutFirst ':' key.toList with
  | none => .error (.missingClassSeparator key)
  | some (before, after) =>
    let (space, cls) := splitClass (trim before)
    if cls.isEmpty then .error (.emptyClassName key)
    else
      match parseMethod key after with
      | .error e => .error e
      | .ok (method, params) =>
        if method.isEmpty then .error (.emptyMethodName key)
        else .ok ⟨String.ofList space, String.ofList cls, String.ofList method, params⟩

/-- The key of a method given by its dotted class name. -/
def ofClass (full method : String) (params : List String) : Signature :=
  let (space, cls) := splitClass full.toList
  ⟨String.ofList space, String.ofList cls, method, some params⟩

/-- The number of parameters, unknown for a key that leaves them open. -/
def arity (s : Signature) : Option Nat :=
  s.params.map List.length

/-- The class with its namespace in front. -/
def fullClassName (s : Signature) : String :=
  if s.nameSpace.isEmpty then s.className else s!"{s.nameSpace}.{s.className}"

/-- The key in its plain layout. -/
def render (s : Signature) : String :=
  let list := match s.params with
    | none => ""
    | some ps => " (" ++ String.intercalate "," ps ++ ")"
  s!"{s.fullClassName}:{s.method}{list}"

/-- Whether the key finds the method declared with the key `declared`. -/
def accepts (key declared : Signature) : Bool :=
  key.nameSpace == declared.nameSpace && key.className == declared.className &&
    key.method == declared.method &&
    (match key.params with
      | none => true
      | some wanted => declared.params == some wanted)

@[simp] theorem accepts_self (s : Signature) : s.accepts s = true := by
  cases s with
  | mk n c m ps => cases ps <;> simp [accepts]

/-- A key with a list finds the methods declared with that very key, and no other. -/
theorem accepts_iff_eq {key declared : Signature} (h : key.params.isSome) :
    key.accepts declared = true ↔ declared = key := by
  obtain ⟨n, c, m, ps⟩ := key
  obtain ⟨n', c', m', ps'⟩ := declared
  obtain ⟨ps, rfl⟩ := Option.isSome_iff_exists.1 h
  constructor
  · intro h
    simp only [accepts, Bool.and_eq_true, beq_iff_eq] at h
    obtain ⟨⟨⟨rfl, rfl⟩, rfl⟩, rfl⟩ := h
    rfl
  · intro h
    rw [h, accepts_self]

end Signature

end TwinHeap
