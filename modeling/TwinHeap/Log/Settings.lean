import TwinHeap.Log.Filter

/-!
Where a log goes and what it looks like, and what a session of logging shows.

Logging is set up once: the first set-up decides the destination for good and returns a guard, every
later one is ignored.
-/

namespace TwinHeap.Log

inductive Format
  | pretty
  | compact
  | json
deriving DecidableEq, Repr

inductive Output
  | stdout
  | stderr
  /-- A file for each day, called after `stem`. -/
  | file (directory stem : String)
deriving DecidableEq, Repr

/-- How to log. -/
structure Settings where
  level : Level
  format : Format
  output : Output
  showSpans : Bool
  trackPerformance : Bool
deriving DecidableEq, Repr

/-- What log files are called after. -/
def fileStem : String := "gcbridge.log"

namespace Settings

def default : Settings := ⟨.info, .compact, .stdout, false, true⟩

/-- Errors only. -/
def performance : Settings := ⟨.error, .compact, .stderr, false, false⟩

/-- Everything. -/
def debug : Settings := ⟨.trace, .pretty, .stderr, true, true⟩

/-- The settings that environment variables ask for. Some count by their value, some by being
set. -/
def ofEnvironment (env : List (String × String)) : Settings :=
  let var (name : String) := (env.find? fun e => e.1 == name).map Prod.snd
  { level := (var "GCBRIDGE_LOG_LEVEL").elim .info Level.ofName
    format := if (var "GCBRIDGE_LOG_JSON").isSome then .json else .compact
    output := (var "GCBRIDGE_LOG_FILE").elim .stdout fun d => .file d fileStem
    showSpans := (var "GCBRIDGE_LOG_SPANS").isSome
    trackPerformance := (var "GCBRIDGE_LOG_PERF").elim true fun v =>
      v == "1" || v.toLower == "true" }

/-- The filter in force: the environment's, if it has one that can be read, or the level's. -/
def filter (s : Settings) (env : List (String × String)) : Except Panic Filter :=
  match env.find? fun e => e.1 == "RUST_LOG" with
  | some (_, directives) =>
    match Filter.parse directives with
    | .ok filter => .ok filter
    | .error .malformed => .ok (.upTo s.level)
    | .error (.panic cause) => .error cause
  | none => .ok (.upTo s.level)

/-- The events that are written. -/
def written (s : Settings) (env : List (String × String)) (events : List Event) :
    Except Panic (List Event) := do
  return events.filter (← s.filter env).shows

end Settings

end TwinHeap.Log
