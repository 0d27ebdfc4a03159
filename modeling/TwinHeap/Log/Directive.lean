import TwinHeap.Failure
import TwinHeap.Log.Event
import TwinHeap.Log.Pattern

/-!
Directives: which level is shown of what.

A directive is written `target[span{field=value}]=level`, where each part can be left out: a lone
level speaks of everything, and a lone target is shown at every level. The marks between the parts
are looked for in the directive without the blanks at either end, but the parts are cut by position
from the directive as it is written, so a directive that starts with a blank has its parts shifted.
Positions count octets, and a shifted one that lies inside of a character is a panic.
-/

namespace TwinHeap.Log

/-- What a directive asks of a field: that it is there, and perhaps its value. -/
structure FieldTest where
  name : String
  value : Option String
deriving DecidableEq, Repr

/-- Shows what it speaks of up to a rank. -/
structure Directive where
  /-- What a target has to begin with. -/
  target : String
  /-- The span that has to be open. -/
  span : Option String
  field : Option FieldTest
  rank : Nat
deriving DecidableEq, Repr

/-- The number in decimal digits, which a plus sign may precede. -/
def decimal? (s : List Char) : Option Nat :=
  let digits := match s with
    | '+' :: rest => rest
    | s => s
  if digits.isEmpty || !digits.all Char.isDigit then none
  else some (digits.foldl (fun n c => 10 * n + (c.toNat - '0'.toNat)) 0)

/-- The rank of a level written as a number or as a name in any case; nothing is shown at rank
zero, which is also called `off`. -/
def rankOf? (s : List Char) : Option Nat :=
  match decimal? s with
  | some n => if n ≤ Level.trace.rank then some n else none
  | none =>
    let name := String.ofList s
    if name.toLower == "off" then some 0 else (Level.ofName? name).map Level.rank

namespace FieldTest

/-- Whether a text without a sign is a number: digits with an optional point among them and an
optional exponent behind them, or the name of a number that has none. -/
def isNumber (s : List Char) : Bool :=
  let (whole, rest) := s.span Char.isDigit
  let (fraction, rest) := match rest with
    | '.' :: r => r.span Char.isDigit
    | r => ([], r)
  ["inf", "infinity", "nan"].contains (String.ofList s).toLower ||
    (!(whole ++ fraction).isEmpty && isExponent rest)
where
  isExponent : List Char → Bool
    | [] => true
    | e :: rest =>
      let digits := match rest with
        | '+' :: r | '-' :: r => r
        | r => r
      (e == 'e' || e == 'E') && !digits.isEmpty && digits.all Char.isDigit

/-- Whether a field can be compared with a text: with a number or a pattern. Only a number with a
plus sign is no pattern. -/
def isValue (s : List Char) : Bool :=
  Pattern.isValid s ||
    match s with
    | '+' :: number => isNumber number
    | _ => false

/-- Reads `name` or `name=value`; what follows a second sign is ignored. -/
def parse? (s : List Char) : Option FieldTest :=
  if s.isEmpty then none
  else
    match (String.ofList s).splitOn "=" with
    | name :: value :: _ => if isValue value.toList then some ⟨name, some value⟩ else none
    | parts => some ⟨parts.headD "", none⟩

end FieldTest

namespace Directive

/-- The part of a directive that is read, with the position where it starts. -/
inductive Stage
  | start
  /-- A level or a target. -/
  | name (start : Nat)
  | span (start : Nat)
  | field (start : Nat)
  /-- Behind a field. -/
  | fieldEnd
  /-- Behind a span. -/
  | spanEnd
  | level (start : Nat)
deriving DecidableEq, Repr

/-- Why a directive cannot be read. -/
inductive Refusal
  | malformed
  | panic (cause : Panic)
deriving DecidableEq, Repr

/-- What there is, or a malformed directive. -/
def known {α : Type} : Option α → Except Refusal α
  | some a => .ok a
  | none => .error .malformed

/-- Whether a directive can start with a character. -/
def startsWith (c : Char) : Bool := Text.isAlphanumeric c || c == '-' || c == ':' || c == '_'

/-- The text from a position on. -/
def rest (text : List Char) (start : Nat) : Except Refusal (List Char) :=
  match Text.cut start text with
  | .ok (_, rest) => .ok rest
  | .error place => .error (.panic (.startsInside place))

/-- The text from one position up to another. -/
def part (text : List Char) (start stop : Nat) : Except Refusal (List Char) := do
  let _ ← rest text start
  match Text.cut stop text with
  | .ok (front, _) => rest front start
  | .error place => .error (.panic (.endsInside place))

/-- Reads the character at position `i`. -/
def step (text : List Char) (i : Nat) (c : Char) (d : Directive) :
    Stage → Except Refusal (Directive × Stage)
  | .start =>
    if c = '[' then .ok (d, .span (i + 1))
    else if startsWith c then .ok (d, .name i)
    else .error .malformed
  | .name start =>
    if c = '=' then do
      return ({ d with target := String.ofList (← part text start i) }, .level (i + 1))
    else if c = '[' then do
      return ({ d with target := String.ofList (← part text start i) }, .span (i + 1))
    else .ok (d, .name start)
  | .span start =>
    if c = ']' then do
      return ({ d with span := some (String.ofList (← part text start i)) }, .spanEnd)
    else if c = '\x7b' then do
      let name ← part text start i
      let span := if name.isEmpty then none else some (String.ofList name)
      return ({ d with span }, .field (i + 1))
    else .ok (d, .span start)
  | .field start =>
    if c = '\x7d' then do
      let field ← known (FieldTest.parse? (← part text start i))
      return ({ d with field := some field }, .fieldEnd)
    else .ok (d, .field start)
  | .fieldEnd => if c = ']' then .ok (d, .spanEnd) else .error .malformed
  | .spanEnd => if c = '=' then .ok (d, .level (i + 1)) else .error .malformed
  | .level start => .ok (d, .level start)

/-- Reads the characters from position `i` on. -/
def steps (text : List Char) :
    Nat → List Char → Directive → Stage → Except Refusal (Directive × Stage)
  | _, [], d, stage => .ok (d, stage)
  | i, c :: cs, d, stage => do
    let (d, stage) ← step text i c d stage
    steps text (i + c.utf8Size) cs d stage

/-- The directive at the end of its text. -/
def finish (text : List Char) (d : Directive) : Stage → Except Refusal Directive
  | .name start => do
    let name ← rest text start
    match rankOf? name with
    | some rank => return { d with rank }
    | none => return { d with target := String.ofList name }
  | .level start => do
    let level ← rest text start
    if level.isEmpty then return d
    else return { d with rank := ← known (rankOf? level) }
  | .spanEnd => .ok d
  | _ => .error .malformed

def parse (text : List Char) : Except Refusal Directive := do
  let (d, stage) ← steps text 0 (Text.trim text) ⟨"", none, none, Level.trace.rank⟩ .start
  finish text d stage

/-- Whether the directive decides about an event: there is no span that it would ask for, the
target of the event begins as it says, and the event has the field that it names. The value of a
field is only looked at in a span. -/
def covers (d : Directive) (e : Event) : Bool :=
  d.span.isNone && d.target.toList.isPrefixOf e.target.toList &&
    match d.field with
    | none => true
    | some f => f.value.isNone && e.fieldNames.contains f.name

/-- Whether a directive that covers an event gives way to another one that does: to a longer target,
then to a field, then to the later field in the order of names, then to itself. -/
def givesWay (a b : Directive) : Bool :=
  if a.target.utf8ByteSize = b.target.utf8ByteSize then
    match a.field, b.field with
    | none, _ => true
    | some _, none => false
    | some f, some g => f.name ≤ g.name
  else a.target.utf8ByteSize < b.target.utf8ByteSize

end Directive

end TwinHeap.Log
