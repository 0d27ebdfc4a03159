import TwinHeap.Bridge.State
import TwinHeap.Scenario.Datum

/-!
Answers: what a step of a scenario comes to, and how errors and events are written down.
-/

namespace TwinHeap.Scenario

/-- The fields of an answer, and the message if the answer is an error. -/
structure Answer where
  fields : List (String × Datum)
  failure : Option String

namespace Answer

def value (d : Datum) : Answer := ⟨[("r", d)], none⟩

def error (kind message : String) (extra : List (String × Datum)) : Answer :=
  ⟨[("error", .text kind), ("message", .text message)] ++ extra, some message⟩

def add (a : Answer) (fields : List (String × Datum)) : Answer :=
  { a with fields := a.fields ++ fields }

def toDatum (a : Answer) : Datum := .record a.fields

end Answer

def signatureErrorKind : SignatureError → String
  | .missingClassSeparator _ => "Signature.MissingClassSeparator"
  | .emptyClassName _ => "Signature.EmptyClassName"
  | .emptyMethodName _ => "Signature.EmptyMethodName"
  | .unterminatedParameters _ => "Signature.UnterminatedParameters"

def linkErrorKind : LinkError → String
  | .missingType .. => "Link.MissingType"
  | .missingMethod .. => "Link.MissingMethod"
  | .noProxyClass .. => "Link.NoProxyClass"
  | .allocationFailed .. => "Link.AllocationFailed"
  | .missingParameter .. => "Link.MissingParameter"
  | .duplicateParameter .. => "Link.DuplicateParameter"
  | .returnMismatch .. => "Link.ReturnMismatch"
  | .arityMismatch .. => "Link.ArityMismatch"
  | .unsupportedKind .. => "Link.UnsupportedKind"
  | .malformedKey .. => "Link.Signature"

namespace Answer

def ofSignatureError (e : SignatureError) : Answer := error (signatureErrorKind e) e.message []

/-- A link error that is reported by itself. -/
def ofLinkError (e : LinkError) : Answer := error (linkErrorKind e) e.message []

def ofBridgeError (e : BridgeError) : Answer :=
  let fatal := ("fatal", Datum.bool e.isFatal)
  match e with
  | .link l => error (linkErrorKind l) e.message [fatal]
  | .foreign x => error "Foreign" e.message [fatal, ("stack_trace", .text x.stackTrace)]

/-- An exception that no bridge stood between. -/
def ofException (x : ForeignException) : Answer :=
  error "Foreign" x.message [("stack_trace", .text x.stackTrace)]

def ofPanic (p : Panic) : Answer := error "panic" p.message []

/-- An answer that may be an error of the bridge. -/
def ofExcept {α : Type} (f : α → Datum) : Except BridgeError α → Answer
  | .ok a => value (f a)
  | .error e => ofBridgeError e

end Answer

/-- A field of an event, with `label` to name addresses. -/
def fieldDatum (label : Address → Datum) : Log.FieldValue → Datum
  | .text s => .text s
  | .number n => .nat n
  | .flag b => .bool b
  | .address a => label a

/-- An event as its fields in order: level, target and message first. How long things took is left
out. -/
def eventDatum (label : Address → Datum) (e : Log.Event) : Datum :=
  let head := [("level", Datum.text e.level.name), ("target", .text e.target),
    ("message", .text e.message)]
  let fields := (e.fields.filter fun f => f.1 != "duration_us").map fun f =>
    (f.1, fieldDatum label f.2)
  .list ((head ++ fields).map fun f => .list [.text f.1, f.2])

/-- The host object of which an event tells that its proxy was disconnected. -/
def severedHost : Log.Event → Option Address
  | .proxySevered host _ => some host
  | _ => none

/-- The events in order, but those of one sweep of disconnections ordered by label: the order in
which a table gives up its entries means nothing. -/
def settle (label : Address → Datum) : List Log.Event → List Log.Event
  | [] => []
  | e :: es =>
    let rest := settle label es
    match severedHost e with
    | none => e :: rest
    | some host => place host e rest
where
  place (host : Address) (e : Log.Event) : List Log.Event → List Log.Event
    | [] => [e]
    | e' :: es =>
      match severedHost e' with
      | none => e :: e' :: es
      | some host' =>
        if (label host').asText < (label host).asText then e' :: place host e es
        else e :: e' :: es

end TwinHeap.Scenario
