import TwinHeap.Scenario.Action

/-!
Running scenarios.

A body of a method is a list of steps too, so a scenario that defines methods is turned into
programs by one recursion over its steps. Each call of a method is recorded with the answers of its
steps, and put down under the step during which it ended.
-/

namespace TwinHeap.Scenario

namespace Play

open Code

/-- Whether a step is taken. -/
def allowed (inv : Invocation) : Option Condition → Play Bool
  | none => return true
  | some c => holds inv c

/-- Takes a step: its answer, with the calls that ended during it. -/
def taken (step : Play Answer) : Play Answer := do
  note Notes.openStep
  let answer ← step
  let made := (← notes).currentCalls
  note Notes.closeStep
  return if made.isEmpty then answer else answer.add [("calls", .list made)]

/-- What a call is recorded as. -/
structure CallHead where
  spec : MethodSpec
  receiver : Datum
  argc : Nat

/-- Ends a call with the answers of its steps. -/
def endCall (head : CallHead) (answers : List Datum) (ending : Program Notes) : Program Notes :=
  let record := Datum.record [("method", .text head.spec.key), ("instance", head.receiver),
    ("argc", .nat head.argc), ("steps", .list answers)]
  if head.spec.quiet then ending
  else note (fun n => n.addCall record) fun _ => ending

/-- Begins a call: the receiver is shown in its record, so it is numbered now. -/
def beginCall (spec : MethodSpec) (inv : Invocation) : Play CallHead := do
  if spec.quiet then return ⟨spec, .null, inv.args.length⟩
  else
    match inv.receiver with
    | none => return ⟨spec, .null, inv.args.length⟩
    | some a => return ⟨spec, .text (← numberOf a), inv.args.length⟩

/-- What is wrong with the key of a method that states its number of parameters by itself. Such a
key is read by the scenario; any other is left to the foreign runtime. -/
def keyError (spec : MethodSpec) : Option SignatureError :=
  match spec.arity, Signature.parse spec.key with
  | some _, .error e => some e
  | _, _ => none

/-- The steps of a body, after those that were answered already. -/
def body (inv : Invocation) (head : CallHead) : List Step → List Datum → Program Notes
  | [], answers => endCall head answers (.done none)
  | .act guard propagate action :: rest, answers =>
    allowed inv guard fun
      | false => body inv head rest answers
      | true => taken (act inv action) fun answer =>
        let answers := answers ++ [answer.toDatum]
        match propagate, answer.failure with
        | true, some message => endCall head answers (.throw ⟨message, ""⟩)
        | _, _ => body inv head rest answers
  | .method guard spec steps :: rest, answers =>
    allowed inv guard fun
      | false => body inv head rest answers
      | true =>
        match keyError spec with
        | some e => body inv head rest (answers ++ [(Answer.ofSignatureError e).toDatum])
        | none =>
          define ⟨spec.assembly, spec.key, spec.arity, fun inv =>
              beginCall spec inv fun head => body inv head steps []⟩ fun index =>
            body inv head rest (answers ++ [(Answer.value (.nat index)).toDatum])
  | .giveBack guard value :: rest, answers =>
    allowed inv guard fun
      | false => body inv head rest answers
      | true => foreignObject inv value fun object => endCall head answers (.done object)
  | .raise guard exception :: rest, answers =>
    allowed inv guard fun
      | false => body inv head rest answers
      | true => endCall head answers (.throw exception)

/-- The method that a step defines. -/
def methodDef (spec : MethodSpec) (steps : List Step) : MethodDef Notes :=
  ⟨spec.assembly, spec.key, spec.arity, fun inv =>
    beginCall spec inv fun head => body inv head steps []⟩

/-- A step at the top level. -/
def top : Step → Play Answer
  | .act _ _ action => act ⟨none, []⟩ action
  | .method _ spec steps => do
    match keyError spec with
    | some e => return .ofSignatureError e
    | none => return .value (.nat (← define (methodDef spec steps)))
  | .giveBack _ _ | .raise _ _ => return .value .null

end Play

/-- A bridge to be set up, and what to do with it. -/
structure Script where
  config : Config
  registry : Except Panic Registry
  /-- The methods that are defined before the engine library. -/
  methods : List (MethodSpec × List Step)
  /-- The engine library, if there is to be one. -/
  library : Option EngineBinding
  showLog : Bool
  steps : List Step

namespace Script

/-- How deep foreign calls may nest. -/
def maxDepth : Nat := 10000

/-- The latest events of a world after the first `old` ones, written down. -/
def eventsSince (w : World Notes) (old : Nat) : Datum :=
  let journal := w.state.journal
  let events := (journal.take (journal.length - old)).reverse
  let label := w.memory.label
  .list ((settle label events).map (eventDatum label))

/-- Takes one step, with the log of what happened if it is asked for. -/
def runStep (showLog : Bool) (w : World Notes) (s : Step) : Datum × World Notes :=
  let old := w.state.journal.length
  let w := { w with memory := { w.memory with calls := [], answer := none } }
  let program : Program Notes := Play.taken (Play.top s) fun answer =>
    Play.note (fun n => { n with answer := some answer }) fun _ => .done none
  let (answer, w) := match program.run (callAt maxDepth) w with
    | .ok _ w => (w.memory.answer.getD (.value .null), w)
    | .error (.panic p) w => (.ofPanic p, w)
    | .error (.error e) w => (.ofBridgeError e, w)
    | .error .exhausted w => (.error "exhausted" "foreign calls nest too deep" [], w)
  let answer := if showLog then answer.add [("log", eventsSince w old)] else answer
  (answer.toDatum, w)

/-- Takes the steps in order. -/
def runSteps (showLog : Bool) : World Notes → List Step → List Datum
  | _, [] => []
  | w, s :: rest =>
    let (answer, w) := runStep showLog w s
    answer :: runSteps showLog w rest

/-- The foreign runtime before the bridge is made. -/
def side (s : Script) : Except Answer (ForeignSide Notes) := do
  let side ← s.methods.foldlM
    (fun side m =>
      match Play.keyError m.1 with
      | some e => throw (.ofSignatureError e)
      | none => (side.define (Play.methodDef m.1 m.2)).mapError .ofPanic)
    .empty
  match s.library with
  | none => return side
  | some engine => (side.install (Library.engine engine)).mapError .ofPanic

/-- The world at the start of a scenario, or the answer that says why there is none. -/
def start (s : Script) : Except Answer (World Notes) :=
  match s.side, s.registry with
  | .error answer, _ => .error answer
  | _, .error p => .error (.ofPanic p)
  | .ok side, .ok registry =>
    match World.connect s.config registry side .empty with
    | .error e => .error (.ofBridgeError (.link e))
    | .ok w => .ok w

/-- The answers of a scenario. -/
def run (s : Script) : Datum :=
  match s.start with
  | .error answer => answer.toDatum
  | .ok w =>
    let steps := [("steps", Datum.list (runSteps s.showLog w s.steps))]
    .record (if s.showLog then steps ++ [("log", eventsSince w 0)] else steps)

end Script

end TwinHeap.Scenario
