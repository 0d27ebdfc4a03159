/-!
Levels of a log, from errors alone to everything.
-/

namespace TwinHeap.Log

/-- How much a message matters. -/
inductive Level
  | error
  | warn
  | info
  | debug
  | trace
deriving DecidableEq, Repr

namespace Level

/-- The rank of a level: the less a message matters, the higher. -/
def rank : Level → Nat
  | error => 1
  | warn => 2
  | info => 3
  | debug => 4
  | trace => 5

def name : Level → String
  | error => "ERROR"
  | warn => "WARN"
  | info => "INFO"
  | debug => "DEBUG"
  | trace => "TRACE"

def all : List Level := [error, warn, info, debug, trace]

/-- The level of a name in any case. Only ASCII letters have to be lowered: no other character has
a lower case that occurs in the names. -/
def ofName? (s : String) : Option Level :=
  all.find? fun l => l.name.toLower == s.toLower

/-- The level of a name, and `info` for a text that names none. -/
def ofName (s : String) : Level := (ofName? s).getD .info

theorem rank_injective {a b : Level} (h : a.rank = b.rank) : a = b := by
  revert h
  cases a <;> cases b <;> decide

end Level

end TwinHeap.Log
