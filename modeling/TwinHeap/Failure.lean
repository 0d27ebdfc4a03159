import TwinHeap.Address
import TwinHeap.Overflow
import TwinHeap.Property.Kind
import TwinHeap.Signature
import TwinHeap.Text.Quoted
import TwinHeap.Text.Slice

/-!
What can go wrong, by cause.

A `LinkError` says that the two sides do not fit together; a `ForeignException` is thrown by foreign
code and reaches the caller; a `Panic` is a broken promise, which abandons the whole call. The
wording of each cause is its `message`.
-/

namespace TwinHeap

/-- The host's metadata and the foreign side do not fit together. -/
inductive LinkError
  | missingType (assembly fullName : String)
  | missingMethod (assembly signature : String)
  | noProxyClass (className : String)
  | allocationFailed (fullName : String)
  | missingParameter (function method parameter : String)
  | duplicateParameter (function parameter : String)
  | returnMismatch (function method : String)
  | arityMismatch (method : String) (expected found : Nat)
  | unsupportedKind (property : String) (tag : Kind.Tag)
  | malformedKey (error : SignatureError)
deriving DecidableEq, Repr

def LinkError.message : LinkError → String
  | missingType assembly fullName =>
    s!"foreign type `{fullName}` not found in assembly `{assembly}`"
  | missingMethod assembly signature =>
    s!"foreign method `{signature}` not found in assembly `{assembly}`"
  | noProxyClass className =>
    s!"host class `{className}` has no ancestor with a foreign proxy binding"
  | allocationFailed fullName =>
    s!"foreign runtime failed to allocate an instance of `{fullName}`"
  | missingParameter function method parameter =>
    s!"foreign parameter `{parameter}` of `{method}` has no native counterpart in `{function}`"
  | duplicateParameter function parameter =>
    s!"native parameter `{parameter}` of `{function}` is bound more than once"
  | returnMismatch function method =>
    s!"return value of `{method}` does not match the native return of `{function}`"
  | arityMismatch method expected found =>
    s!"foreign method `{method}` takes {expected} parameters but its descriptor declares {found}"
  | unsupportedKind property tag => s!"no marshaller for {tag.label} property `{property}`"
  | malformedKey error => s!"malformed method key: {error.message}"

/-- An exception thrown by foreign code, as the host sees it. -/
structure ForeignException where
  message : String
  stackTrace : String
deriving DecidableEq, Repr

/-- What an operation of the bridge reports to its caller. -/
inductive BridgeError
  | link (error : LinkError)
  | foreign (exception : ForeignException)
deriving DecidableEq, Repr

namespace BridgeError

def message : BridgeError → String
  | link e => s!"link error: {e.message}"
  | foreign x => s!"foreign exception: {x.message}"

/-- After a link error the bridge cannot go on safely; a foreign exception concerns one call. -/
def isFatal : BridgeError → Bool
  | link _ => true
  | foreign _ => false

end BridgeError

/-- A broken promise. The call it happens in is abandoned, with all the calls around it. -/
inductive Panic
  | overflow (cause : Overflow)
  | frameAlignment
  | duplicateMarshaller (tag : Kind.Tag)
  | elementSize (found expected : Nat)
  | unknownObject (address : Address)
  | unknownClass (address : Address)
  | unknownMethod (index : Nat)
  | badMethodKey (error : SignatureError)
  | openMethodKey (key : String)
  | argumentOutOfRange (index passed : Nat)
  | stackExhausted (property : String)
  | unboxReference
  | unboxCollected (address : Address)
  | boxedToNull (fullName : String)
  | nullAddress (property : String)
  | nullReturn (property : String)
  | unboxedClass (property : String)
  | notBool (property : String)
  | notStruct (property : String)
  | notCollection (property : String) (tag : Kind.Tag)
  | notSoftReference (property : String) (tag : Kind.Tag)
  | notInPlace (property : String) (tag : Kind.Tag)
  | enumWidth (width : Nat)
  | startsInside (place : Text.Inside)
  | endsInside (place : Text.Inside)
deriving DecidableEq, Repr

/-- The wording for a position inside of a character. -/
def insideMessage (edge : String) (p : Text.Inside) : String :=
  s!"{edge} byte index {p.position} is not a char boundary; it is inside " ++
    s!"{Text.quoteChar p.character} (bytes {p.start}..{p.start + p.character.utf8Size} of string)"

def Panic.message : Panic → String
  | overflow cause => cause.message
  | frameAlignment => "frame alignment must be a power of two"
  | duplicateMarshaller tag => s!"duplicate marshaller for {tag.label} properties"
  | elementSize found expected =>
    s!"assertion `left == right` failed: container element size mismatch\n  left: {found}\n" ++
      s!" right: {expected}"
  | unknownObject a => s!"unknown host object {a.hexText}"
  | unknownClass a => s!"unknown host class {a.hexText}"
  | unknownMethod i => s!"unknown sandbox method {i}"
  | badMethodKey e => s!"bad sandbox method key: {e.message}"
  | openMethodKey key => s!"sandbox method `{key}` needs a parameter list"
  | argumentOutOfRange i n => s!"argument {i} out of range ({n} passed)"
  | stackExhausted p => s!"native stack exhausted reading `{p}`"
  | unboxReference => "unbox of a reference object"
  | unboxCollected a => s!"unbox of a collected object {a.hexText}"
  | boxedToNull full => s!"`{full}` boxed to null"
  | nullAddress p => s!"null foreign address for `{p}`"
  | nullReturn p => s!"null foreign return value for `{p}`"
  | unboxedClass p => s!"class handle `{p}` returned unboxed"
  | notBool p => s!"`{p}` is not a bool property"
  | notStruct p => s!"`{p}` is not a struct property"
  | notCollection p tag => s!"`{p}` is a {tag.label} property, not a collection"
  | notSoftReference p tag => s!"`{p}` is a {tag.label} property, not a soft reference"
  | notInPlace p tag =>
    s!"{tag.label} property `{p}` cannot be copied into foreign memory in place"
  | enumWidth w => s!"unsupported enum width: {w} bytes"
  | startsInside p => insideMessage "start" p
  | endsInside p => insideMessage "end" p

/-- Every way in which a run stops early. -/
inductive Failure
  | error (cause : BridgeError)
  | panic (cause : Panic)
  /-- The nesting of foreign calls went deeper than the run allows. -/
  | exhausted
deriving DecidableEq, Repr

end TwinHeap
