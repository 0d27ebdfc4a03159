import TwinHeap.Address
import TwinHeap.Log.Level

/-!
The events that a bridge reports.

Every event has a level, a target that filters go by, a fixed message and fields in a fixed order.
-/

namespace TwinHeap.Log

/-- The value of a field. -/
inductive FieldValue
  | text (s : String)
  | number (n : Nat)
  | flag (b : Bool)
  | address (a : Address)
deriving DecidableEq, Repr

/-- Something that happened. -/
inductive Event
  | bridgeInit (assembly : String)
  | bridgeShutdown (liveProxies : Nat)
  | proxyCreated (host : Address) (className : String)
  | proxySevered (host : Address) (reason : String)
  | proxyClassResolved (className proxyClass : String)
  | handleStrength (host : Address) (weak : Bool)
  | sweepComplete (severed remaining micros : Nat)
  | scopeTeardown (scope : Address) (severed : Nat)
  | foreignCollection (full : Bool) (micros : Nat)
  | functionLinked (function method : String) (arguments scratchBytes : Nat)
  | linkFailure (function error : String)
  | redirectCall (function : String) (depth : Nat)
  | foreignException (function message stackTrace : String)
  | boundaryError (helper error : String)
  | structFactory (name : String)
  /-- A timed operation that has ended. -/
  | operationCompleted (operation : String) (micros : Nat)
deriving DecidableEq, Repr

namespace Event

def level : Event → Level
  | bridgeInit _ | bridgeShutdown _ | sweepComplete _ _ _ => .info
  | proxyCreated _ _ | proxySevered _ _ | redirectCall _ _ => .trace
  | proxyClassResolved _ _ | handleStrength _ _ | scopeTeardown _ _ | foreignCollection _ _
  | functionLinked _ _ _ _ | structFactory _ | operationCompleted _ _ => .debug
  | linkFailure _ _ | foreignException _ _ _ => .error
  | boundaryError _ _ => .warn

def target : Event → String
  | bridgeInit _ | foreignCollection _ _ | foreignException _ _ _ | boundaryError _ _ =>
    "gcbridge::foreign"
  | bridgeShutdown _ | proxyCreated _ _ | proxySevered _ _ | proxyClassResolved _ _
  | handleStrength _ _ | sweepComplete _ _ _ | scopeTeardown _ _ => "gcbridge::identity"
  | functionLinked _ _ _ _ | linkFailure _ _ | redirectCall _ _ => "gcbridge::redirect"
  | structFactory _ => "gcbridge::marshal"
  | operationCompleted _ _ => "gcbridge::logging::perf"

/-- The fixed message of the event's kind. -/
def message : Event → String
  | bridgeInit _ => "Bridge context bound to engine library"
  | bridgeShutdown _ => "Bridge context shutting down"
  | proxyCreated _ _ => "Foreign proxy created"
  | proxySevered _ _ => "Foreign proxy disconnected"
  | proxyClassResolved _ _ => "Proxy constructor bound"
  | handleStrength _ _ => "Proxy handle strength changed"
  | sweepComplete _ _ _ => "Reachability sweep complete"
  | scopeTeardown _ _ => "Scope torn down"
  | foreignCollection _ _ => "Foreign garbage collection finished"
  | functionLinked _ _ _ _ => "Function linked to foreign method"
  | linkFailure _ _ => "Failed to link function"
  | redirectCall _ _ => "Redirected call"
  | foreignException _ _ _ => "Foreign method threw"
  | boundaryError _ _ => "Boundary helper failed"
  | structFactory _ => "Struct boxing factory bound"
  | operationCompleted _ _ => "operation completed"

/-- The fields in order. One kind of event has a field `message` besides its fixed message. -/
def fields : Event → List (String × FieldValue)
  | bridgeInit assembly => [("event", .text "bridge_init"), ("assembly", .text assembly)]
  | bridgeShutdown live => [("event", .text "bridge_shutdown"), ("live_proxies", .number live)]
  | proxyCreated host cls =>
    [("event", .text "proxy_created"), ("host", .address host), ("class", .text cls)]
  | proxySevered host reason =>
    [("event", .text "proxy_severed"), ("host", .address host), ("reason", .text reason)]
  | proxyClassResolved cls proxy =>
    [("event", .text "proxy_class_resolved"), ("class", .text cls), ("proxy_class", .text proxy)]
  | handleStrength host weak =>
    [("event", .text "handle_strength"), ("host", .address host), ("weak", .flag weak)]
  | sweepComplete severed remaining micros =>
    [("event", .text "sweep_complete"), ("severed", .number severed),
      ("remaining", .number remaining), ("duration_us", .number micros)]
  | scopeTeardown scope severed =>
    [("event", .text "scope_teardown"), ("scope", .address scope), ("severed", .number severed)]
  | foreignCollection full micros =>
    [("event", .text "foreign_gc"), ("full", .flag full), ("duration_us", .number micros)]
  | functionLinked function method arguments scratch =>
    [("event", .text "function_linked"), ("function", .text function), ("method", .text method),
      ("arguments", .number arguments), ("scratch_bytes", .number scratch)]
  | linkFailure function error =>
    [("event", .text "link_failure"), ("function", .text function), ("error", .text error)]
  | redirectCall function depth =>
    [("event", .text "redirect_call"), ("function", .text function), ("depth", .number depth)]
  | foreignException function message trace =>
    [("event", .text "foreign_exception"), ("function", .text function),
      ("message", .text message), ("stack_trace", .text trace)]
  | boundaryError helper error =>
    [("event", .text "boundary_error"), ("helper", .text helper), ("error", .text error)]
  | structFactory name => [("event", .text "struct_factory"), ("name", .text name)]
  | operationCompleted operation micros =>
    [("operation", .text operation), ("duration_us", .number micros)]

/-- The names that the fields of the event go by, that of its message included. -/
def fieldNames (e : Event) : List String := "message" :: e.fields.map Prod.fst

/-- The fields as a record: the message is one of them, and a later field of a name replaces an
earlier one. -/
def record (e : Event) : List (String × FieldValue) :=
  let all := ("message", .text e.message) :: e.fields
  all.foldl (fun r f => (r.filter fun g => g.1 != f.1) ++ [f]) []

end Event

end TwinHeap.Log
