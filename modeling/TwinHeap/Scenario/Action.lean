import TwinHeap.Scenario.Notes

/-!
Actions: what each step of a scenario does and is answered.
-/

namespace TwinHeap.Scenario.Play

open Code

/-- The host object that a reference stands for. -/
def hostObject (inv : Invocation) : HostRef → Play (Option Address)
  | .null => return none
  | .label name => return (Notes.address (← notes).objects name).nonNull
  | .receiver => do
    match inv.receiver with
    | none => return none
    | some proxy => ask (.hostOf proxy)

/-- The host class that a reference stands for. -/
def hostClass : HostRef → Play (Option Address)
  | .label name => return (Notes.address (← notes).classes name).nonNull
  | _ => return none

/-- The object in the slot passed at an index. -/
def slotAt (inv : Invocation) (i : Nat) : Play (Option Address) := do
  return (← pointerAt inv i).nonNull

def stringOf (object : Option Address) : Play String := do
  return (← state).stringAt (object.getD .null)

/-- An exact operation on two numbers. -/
def arith (op : Int → Int → Int) (a b : Play Datum) : Play Datum := do
  let x ← a
  let y ← b
  return .digits (op (x.toInt?.getD 0) (y.toInt?.getD 0))

mutual

/-- Works an expression out. -/
def eval (inv : Invocation) : Expr → Play Datum
  | .lit d => return d
  | .add a b => arith (· + ·) (eval inv a) (eval inv b)
  | .sub a b => arith (· - ·) (eval inv a) (eval inv b)
  | .mul a b => arith (· * ·) (eval inv a) (eval inv b)
  | .concat parts => return .text (← evalTexts inv parts)
  | .stringArg i => do return .text (← stringOf (← objectAt inv i))
  | .stringSlot i => do return .text (← stringOf (← slotAt inv i))
  | .arg i kind => do foreignDatum kind (← ofPanic (inv.arg i))

/-- The texts of expressions, one after the other. -/
def evalTexts (inv : Invocation) : List Expr → Play String
  | [] => return ""
  | e :: es => do
    let first ← eval inv e
    let rest ← evalTexts inv es
    return first.asText ++ rest

end

/-- The foreign object that a reference stands for, which may be made now. -/
def foreignObject (inv : Invocation) : ForeignRef → Play (Option Address)
  | .null => return none
  | .named name => return (← notes).foreign? name
  | .string text => some <$> ask (.allocate (.string text))
  | .soft path => some <$> ask (.allocate (.soft path))
  | .collection c => some <$> ask (.allocate (.collection c))
  | .box kind value => do
    let octets ← readForeign kind (← eval inv value)
    some <$> ask (.allocate (Heap.box octets))
  | .proxy host => do
    match ← hostObject inv host with
    | none => return none
    | some a => return (← state).findProxy a
  | .arg i => objectAt inv i
  | .slot i => slotAt inv i
  | .receiver => return inv.receiver

def holds (inv : Invocation) : Condition → Play Bool
  | .less a b => do
    let x ← eval inv a
    let y ← eval inv b
    return (x.toInt?.getD 0) < (y.toInt?.getD 0)
  | .equal a b => do
    let x ← eval inv a
    let y ← eval inv b
    return x == y
  | .depthBelow owner name n => do
    return ((← state).redirector? (owner, name)).elim 0 Redirector.depth < n

/-- The arguments of a call: their storage, each with its kind, and the stack that lends it. -/
structure Storage where
  cells : List (Nat × Kind)
  args : List StackArg

/-- The kind and the cell of each argument, the shared ones included. -/
def Storage.shown (s : Storage) : List (Nat × Kind) :=
  s.args.map fun a => (s.cells.find? fun c => c.1 = a.cell).getD (a.cell, .bool 255)

def storage (inv : Invocation) (args : List Argument) : Play Storage :=
  args.foldlM (fun s arg => do
    match arg with
    | .fresh kind value passing => do
      let v ← readHost kind (← eval inv value)
      let cell ← allot v
      return ⟨s.cells ++ [(cell, kind)], s.args ++ [⟨cell, passing = .reference⟩]⟩
    | .shared i passing =>
      match s.args[i]? with
      | none => return s
      | some a => return { s with args := s.args ++ [⟨a.cell, passing = .reference⟩] })
    ⟨[], []⟩

def cellDatum (cell : Nat) (kind : Kind) : Play Datum := do
  hostDatum kind ((← state).memory.get cell)

def argsDatum (s : Storage) : Play Datum := do
  return .list (← s.shown.mapM fun (cell, kind) => cellDatum cell kind)

/-- The cell for a result. -/
def resultCell : Option ResultSpec → Play (Option (Nat × Kind))
  | none => return none
  | some spec => do
    let v ← readHost spec.kind spec.before
    return some (← allot v, spec.kind)

def resultDatum : Option (Nat × Kind) → Play Datum
  | none => return .null
  | some (cell, kind) => cellDatum cell kind

/-- The answer of a call with the arguments and the result as the call left them. -/
def afterCall (answer : Answer) (s : Storage) (result : Option (Nat × Kind)) : Play Answer := do
  let args ← argsDatum s
  let result ← resultDatum result
  return answer.add [("args", args), ("result", result)]

def resultPlace (result : Option (Nat × Kind)) : Option Address :=
  result.map fun r => .ofCell r.1

/-- Gives a foreign object a name, if there is both. -/
def setAlias (givenName : Option String) (object : Option Address) : Play Unit := do
  match givenName, object with
  | some name, some a => note fun n => { n with aliases := n.aliases.insert name a }
  | _, _ => pure ()

def phaseName : Redirector.Phase → String
  | .unbound => "Unbound"
  | .linked => "Linked"
  | .active => "Active"
  | .failed => "Failed"

def originName : Origin → String
  | .native => "Native"
  | .foreign => "Foreign"
  | .editor => "Editor"

/-- What is to be said about a hold: the handles alive, and the hold if there is one. -/
def holdDatum (grip : Option Grip) : Play Datum := do
  let heap := (← state).heap
  let shown ← match grip with
    | none => pure Datum.null
    | some g => do
      let target ← match g.target? heap with
        | none => pure Datum.null
        | some a => Datum.text <$> numberOf a
      pure (.record [("strength", .text g.strength.name), ("gc", .ofOption .nat g.handle),
        ("target", target), ("debug", .text g.describe)])
  return .record [("live", .nat heap.handles.size), ("handle", shown)]

def handle (inv : Invocation) (id : String) (action : HandleAction) : Play Answer := do
  let old := (← notes).holds.get? id
  let drop : Play Unit := do
    match old with
    | some i => ask (.letGo i)
    | none => pure ()
  match action with
  | .make target strength => do
    match ← foreignObject inv target with
    | none => pure ()
    | some a => do
      let i ← ask (.hold a strength)
      drop
      note fun n => { n with holds := n.holds.insert id i }
  | .set strength =>
    match old with
    | some i => ask (.regrip i strength)
    | none => pure ()
  | .release =>
    match old with
    | some i => ask (.regrip i .released)
    | none => pure ()
  | .drop => do
    drop
    note fun n => { n with holds := n.holds.erase id }
  | .observe => pure ()
  let grips := (← state).grips
  return .value (← holdDatum ((← notes).holds.get? id |>.bind grips.get?))

def delegateOf (inv : Invocation) : DelegateRef → Play Delegate
  | .named id => return ((← notes).delegates.get? id).getD .unbound
  | .given object function => do
    match ← hostObject inv object with
    | none => return .unbound
    | some a => return ⟨some a, function⟩

def delegate (inv : Invocation) (id : String) (action : DelegateAction) : Play Answer := do
  let d := ((← notes).delegates.get? id).getD .unbound
  let keep (d : Delegate) : Play Answer := do
    note fun n => { n with delegates := n.delegates.insert id d }
    return .value (← delegateDatum d)
  match action with
  | .bind object function => do keep (← delegateOf inv (.given object function))
  | .unbind => keep .unbound
  | .boundTo object => do
    return .value (.bool (((← hostObject inv object).map d.isBoundTo).getD false))
  | .resolve => do
    let found ← ofPanic ((← state).resolveDelegate d)
    return .value (.ofOption (fun (_, r) => .text r.function.qualifiedName) found)
  | .observe => return .value (← delegateDatum d)

def multicast (inv : Invocation) (id : String) (action : MulticastAction) : Play Answer := do
  let m := ((← notes).multicasts.get? id).getD []
  let (value, m) ← match action with
    | .add d => do pure (Datum.null, m ++ [← delegateOf inv d])
    | .addUnique d => do
      let (added, m) := Multicast.addUnique m (← delegateOf inv d)
      pure (.bool added, m)
    | .remove d => do
      let (removed, m) := Multicast.remove m (← delegateOf inv d)
      pure (.bool removed, m)
    | .removeAll object => do
      match ← hostObject inv object with
      | none => pure (.nat 0, m)
      | some a => do
        let (removed, m) := Multicast.removeAll m a
        pure (.nat removed, m)
    | .contains d => do pure (.bool (m.contains (← delegateOf inv d)), m)
    | .clear => pure (.null, [])
    | .observe => pure (.null, m)
  note fun n => { n with multicasts := n.multicasts.insert id m }
  return .value (.record [("value", value), ("len", .nat m.length), ("empty", .bool m.isEmpty),
    ("list", ← multicastDatum m)])

/-- The reads of a stack, each with what it says of the stack afterwards. -/
def stackReads (s : Storage) : ArgStack → List StackRead → Play (List Datum)
  | _, [] => return []
  | stack, r :: rs => do
    let report (d : Datum) (stack : ArgStack) : Datum :=
      .list [d, .nat stack.size, .nat stack.remaining, .bool stack.isEmpty]
    match r with
    | .rewind => do
      let stack := stack.rewind
      return report .null stack :: (← stackReads s stack rs)
    | .next kind name before => do
      let p := Property.ofKind name kind
      let dest ← readHost kind before
      match stack.next p with
      | .error e => return report (Answer.ofPanic e).toDatum stack :: (← stackReads s stack rs)
      | .ok (arg, stack) => do
        let value ← hostDatum kind (dest.assign p ((← state).memory.get arg.cell))
        let caller := if arg.byRef then s.cells.findIdx? fun c => c.1 = arg.cell else none
        let read := Datum.record [("value", value), ("caller", .ofOption .nat caller)]
        return report read stack :: (← stackReads s stack rs)

/-- The property of a marshalling step. -/
def PropertySpec.property (p : PropertySpec) : Property :=
  Property.ofLayout p.name p.kind (p.layout.getD p.kind.hostLayout)

/-- How many raw bytes stand for a value of a replaced layout. -/
def rawSize : Nat := 16

/-- The host value of a marshalling step. -/
def readValue (p : PropertySpec) (d : Datum) : Play Value :=
  match p.layout with
  | none => readHost p.kind d
  | some _ => return .plain (ofBytes (sized rawSize (Hex.decode d.asText)))

def valueDatum (p : PropertySpec) (v : Value) : Play Datum :=
  match p.layout with
  | none => hostDatum p.kind v
  | some _ => return .text (Hex.encode (bytesOf (v.read rawSize)))

/-- The marshaller of a step: the one it names, or the registry's. -/
def marshallerOf (p : PropertySpec) : Play (Except LinkError Marshaller) := do
  match p.marshaller with
  | some m => return .ok m
  | none => return (← state).bridge.registry.resolve (PropertySpec.property p)

/-- What memory holds that nobody wrote. -/
def blank : List Octet := List.replicate 64 (.value 0xaa)

/-- The foreign side of a copy: what it is addressed by. -/
def copyPlace (inv : Invocation) (kind : Kind) : CopyPlace → Play Address
  | .null => return .null
  | .object value => do return (← foreignObject inv value).getD .null
  | .data value => do
    let octets ← readForeign kind value
    return .ofCell (← allot (.plain (octets ++ blank)))
  | .bytes bytes => do return .ofCell (← allot (.plain (ofBytes bytes ++ blank)))
  | .blank => do return .ofCell (← allot (.plain blank))

/-- What a copy left on the foreign side. -/
def copied (kind : Kind) (place : Address) : Play Datum := do
  match kind with
  | .string | .text | .object => describe ((← state).addressAt place).nonNull
  | .classRef => label ((← state).addressAt place)
  | _ => return .text (Hex.encode (bytesOf ((← state).readAt place rawSize)))

def copy (inv : Invocation) (p : PropertySpec) (host : Datum) (place : CopyPlace)
    (direction : Direction) : Play Answer := do
  let cell ← allot (← readValue p host)
  match ← marshallerOf p with
  | .error e => return .ofLinkError e
  | .ok m => do
    let foreign ← copyPlace inv p.kind place
    let outcome ← ask (.copy m (PropertySpec.property p) (.ofCell cell) foreign direction)
    let after ← valueDatum p ((← state).memory.get cell)
    match outcome with
    | .error e => return (Answer.ofBridgeError e).add [("host", after)]
    | .ok _ => do
      match direction with
      | .hostToForeign => do
        return .value (.record [("host", after), ("foreign", ← copied p.kind foreign)])
      | _ => return .value (.record [("host", after)])

/-- What a pointer that is passed points to. -/
def pointerDatum (p : PropertySpec) (host : Nat) (slot : Slot) (pointer : Address) :
    Play Datum := do
  if pointer = .ofCell host then return .text "host"
  else if pointer = slot.pointer then return .text "slot"
  else if pointer = slot.staging then
    return .record [("staging", ← foreignDatum p.kind pointer)]
  else
    match pointer with
    | .payload _ => do
      let bytes := bytesOf ((← state).readAt pointer p.kind.hostLayout.size)
      return .record [("data", .text (Hex.encode bytes))]
    | a => describe a.nonNull

def pass (p : PropertySpec) (host : Datum) (byRef add : Bool) : Play Answer := do
  let cell ← allot (← readValue p host)
  match ← marshallerOf p with
  | .error e => return .ofLinkError e
  | .ok m => do
    let slot : Slot := ⟨← allot (.plain []), 0⟩
    let property := PropertySpec.property p
    let outcome ←
      if add then ask (.addArgument m property (.ofCell cell) slot byRef)
      else do
        let passed ← ask (.pass m property (.ofCell cell) slot byRef)
        pure (passed.map fun a => (a, none))
    match outcome with
    | .error e => return .ofBridgeError e
    | .ok (pointer, root) => do
      let passed ← pointerDatum p cell slot pointer
      let after ← valueDatum p ((← state).memory.get cell)
      let slotFields ←
        if byRef then do
          let held := (← state).addressAt slot.pointer
          pure [("slot", ← pointerDatum p cell slot held)]
        else pure []
      let alive ← match root with
        | none => pure []
        | some hold => do
          let s ← state
          let target := ((s.grips.get? hold).bind fun g => g.target? s.heap).getD .null
          ask (.collect true)
          let first := (← state).heap.isAlive target
          ask (.letGo hold)
          ask (.collect true)
          let second := (← state).heap.isAlive target
          pure [("alive", Datum.list [.bool first, .bool second])]
      return .value (.record ([("passed", passed), ("host", after),
        ("roots", .nat root.toList.length)] ++ slotFields ++ alive))

def status : Play Datum := do
  let s ← state
  let b := s.bridge
  let counters := b.metrics.counters.entries.map fun (name, n) => (name, Datum.nat n)
  return .record [
    ("entries", .nat b.entries.size),
    ("no_entries", .bool b.entries.isEmpty),
    ("objects", .nat s.heap.objects.size),
    ("handles", .nat s.heap.handles.size),
    ("collections", .nat s.heap.collections),
    ("last_full", .ofOption .bool s.heap.lastFull),
    ("redirectors", .nat b.redirectors.size),
    ("factories", .nat b.factories.size),
    ("counters", .record counters),
    ("timings", .list [.nat (b.metrics.sampleCount Counter.sweepTime),
      .nat (b.metrics.sampleCount Counter.linkTime)])]

def describeForeign : Play String := do
  let s ← state
  return s!"SandboxForeign \x7b objects: {s.heap.objects.size}, handles: {s.heap.handles.size}, " ++
    s!"methods: {s.foreign.methods.length}, collections: {s.heap.collections} \x7d"

def describeBridge : Play String := do
  let b := (← state).bridge
  return s!"BridgeContext \x7b proxies: {b.entries.size}, redirectors: {b.redirectors.size}, " ++
    s!"config: {b.config.describe}, .. \x7d"

/-- Takes an action. -/
def act (inv : Invocation) : Action → Play Answer
  | .boundClass id fullName super => do
    let super ← hostClass super
    discard <| install (Library.proxyClass gameAssembly fullName)
    let name := String.ofList (Signature.splitClass fullName.toList).2
    let a ← ask (.defineClass ⟨name, fullName, gameAssembly, .native, false⟩ super)
    addClass id a
  | .hostClass id info super => do
    let a ← ask (.defineClass info (← hostClass super))
    addClass id a
  | .classInfo ref => do
    let a := (← hostClass ref).getD .null
    let host := (← state).host
    let info ← ofPanic (host.classInfo a)
    let super := ((host.classAt a).bind fun c => c.ancestors.head?).getD .null
    return .value (.record [("name", .text info.name), ("full", .text info.foreignName),
      ("super", ← label super), ("origin", .text (originName info.origin)),
      ("library", .bool info.isLibrary), ("assembly", .text info.assembly)])
  | .spawn id ref owner name => do
    let cls := (← hostClass ref).getD .null
    let owner ← hostObject inv owner
    let a ← ask (.spawn cls owner name)
    note fun n => { n with objects := n.objects.insert id a }
    return .value (.nat (← state).host.objects.length)
  | .mark ref reachable => do
    let a := (← hostObject inv ref).getD .null
    ask (.setReachable a reachable)
    return .value (.bool ((← state).host.isReachable a))
  | .objectInfo ref => do
    let a := (← hostObject inv ref).getD .null
    let host := (← state).host
    let cls ← ofPanic (host.classOf a)
    return .value (.record [("name", .ofOption (fun o => .text o.name) (host.objectAt a)),
      ("reachable", .bool (host.isReachable a)), ("class", ← label cls)])
  | .inScope object root => do
    let a := (← hostObject inv object).getD .null
    let root := (← hostObject inv root).getD .null
    return .value (.bool ((← state).host.isInScope a root))
  | .intern text number => do
    let n ← ask (.intern text number)
    return .value (.list [.nat n.comparison, .nat n.display, .nat n.number,
      .ofOption .text ((← state).host.nameText n)])
  | .defineType assembly fullName => do
    return .value (.nat (← ask (.defineType assembly fullName)))
  | .proxyType assembly fullName => installed (Library.proxyClass assembly fullName)
  | .staticType assembly fullName => installed (Library.staticClass assembly fullName)
  | .structType assembly fullName size => installed (Library.structType assembly fullName size)
  | .lookupType assembly fullName => do
    return .value (.ofOption .nat ((← state).foreign.lookupType assembly fullName))
  | .lookupMethod assembly key => do
    match Signature.parse key with
    | .error e => return .ofSignatureError e
    | .ok key => do
      let f := (← state).foreign
      match f.lookupMethod assembly key with
      | none => return .value .null
      | some i => return .value (.list (.nat i :: methodCounts f i))
  | .methodInfo i => do return .value (.list (methodCounts (← state).foreign i))
  | .callMethod method object args => do
    let receiver ← foreignObject inv object
    let args ← args.mapM fun a => do return (← foreignObject inv a).getD .null
    match ← ask (.call method receiver args) with
    | .ok result => return .value (← describe result)
    | .error x => return .ofException x
  | .instantiate type givenName => do
    let object ← ask (.instantiate type)
    setAlias givenName object
    return .value (← describe object)
  | .make value givenName => do
    let object ← foreignObject inv value
    setAlias givenName object
    return .value (← describe object)
  | .inspect object bytes => do
    let object ← foreignObject inv object
    let shown ← describe object
    match bytes, shown, object.bind (← state).heap.get? with
    | true, .record fields, some (.boxed octets len) =>
      return .value (.record (fields ++
        [("bytes", .text (Hex.encode (bytesOf (octets.take len))))]))
    | _, _, _ => return .value shown
  | .readString object => do return .value (.text (← stringOf (← foreignObject inv object)))
  | .unbox object => do
    let a := (← foreignObject inv object).getD .null
    discard <| ofPanic ((← state).unbox a)
    return .value (.bool true)
  | .setNative object native => do
    let object ← foreignObject inv object
    let native := (← hostObject inv native).getD .null
    ask (.setNative (object.getD .null) native)
    return .value (← describe object)
  | .collect full => do
    ask (.collect full)
    let heap := (← state).heap
    return .value (.list [.nat heap.objects.size, .nat heap.handles.size])
  | .handle id action => handle inv id action
  | .proxy ref givenName => do
    match ← hostObject inv ref with
    | none => return .value .null
    | some a => do
      match ← ask (.proxy a) with
      | .error e => return .ofBridgeError e
      | .ok object => do
        setAlias givenName (some object)
        return .value (← describe (some object))
  | .hostOf object => do
    match ← foreignObject inv object with
    | none => return .value .null
    | some a => return .value (← label ((← ask (.hostOf a)).getD .null))
  | .entry ref => do
    let a := (← hostObject inv ref).getD .null
    let s ← state
    let grip := s.bridge.entries.get? a
    let proxy ← match s.findProxy a with
      | none => pure Datum.null
      | some p => Datum.text <$> numberOf p
    return .value (.record [("contains", .bool grip.isSome), ("proxy", proxy),
      ("strength", .ofOption (fun g => .text g.strength.name) grip),
      ("gc", .ofOption .nat (grip.bind Grip.handle))])
  | .setRooted ref rooted => do
    let a := (← hostObject inv ref).getD .null
    let live ← ask (.setRooted a rooted)
    return .value (.bool live)
  | .sweep => do
    let r ← ask .sweep
    return .value (.record [("severed", .nat r.severed), ("remaining", .nat r.remaining)])
  | .teardown root => do
    let a := (← hostObject inv root).getD .null
    return .value (.nat (← ask (.teardown a)))
  | .shutdown => do return .value (.nat (← ask .shutdown))
  | .binding ref => do
    let a := (← hostClass ref).getD .null
    match ← ask (.bind a) with
    | .error e => return .ofLinkError e
    | .ok b => return .value (.record [("proxy_class", .text b.proxyClass),
        ("assembly", .text b.assembly), ("constructor", .text b.constructor.render)])
  | .structFactory info => do
    match ← ask (.structFactory info) with
    | .error e => return .ofLinkError e
    | .ok f => return .value (.record [("name", .text f.name),
        ("cached", .nat (← state).bridge.factories.size)])
  | .status => do return .value (← status)
  | .describeForeign => do return .value (.text (← describeForeign))
  | .describeBridge => do return .value (.text (← describeBridge))
  | .redirect function method => do
    let function ← ofPanic (function.mapError Panic.overflow)
    match method with
    | .error e => return .ofSignatureError e
    | .ok method => do
      let r ← ask (.redirect function method)
      return .value (.record [("qualified", .text r.function.qualifiedName),
        ("method", .text r.method.signature.render), ("state", .text (phaseName r.phase)),
        ("count", .nat (← state).bridge.redirectors.size)])
  | .phase key => do
    return .value (.ofOption (fun r => .list [.text (phaseName r.phase), .nat r.depth])
      ((← state).redirector? key))
  | .link key => do
    match ← ask (.link key) with
    | some (.error e) => return .ofLinkError e
    | _ => return .value .null
  | .invoke key target args result => do
    let target ← hostObject inv target
    let s ← storage inv args
    let result ← resultCell result
    let outcome ← ask (.invoke key target (.ofArgs s.args) (resultPlace result))
    let answer := match outcome with
      | some (.error e, _) => .ofBridgeError e
      | _ => .value .null
    afterCall answer s result
  | .readStack args reads => do
    let s ← storage inv args
    let stack := ArgStack.ofArgs s.args
    let first := Datum.list
      [.null, .nat stack.size, .nat stack.remaining, .bool stack.isEmpty]
    return .value (.list (first :: (← stackReads s stack reads)))
  | .delegate id action => delegate inv id action
  | .execute d args result => do
    let d ← delegateOf inv d
    let s ← storage inv args
    let result ← resultCell result
    let outcome ← ask (.execute d (.ofArgs s.args) (resultPlace result))
    afterCall (.ofExcept .bool outcome) s result
  | .multicast id action => multicast inv id action
  | .broadcast id args => do
    let m := ((← notes).multicasts.get? id).getD []
    let stores ← args.mapM (storage inv)
    let outcome ← ask (.broadcast m (stores.map fun s => .ofArgs s.args))
    let shown ← stores.mapM argsDatum
    return (Answer.ofExcept .nat outcome).add [("args", .list shown)]
  | .copy p host place direction => copy inv p host place direction
  | .pass p host byRef add => pass p host byRef add
  | .reset p host => do
    let v ← readValue p host
    return .value (← valueDatum p (v.reset (PropertySpec.property p)))
  | .assign p dest src => do
    let dest ← readValue p dest
    let src ← readValue p src
    let shown ← valueDatum p (dest.assign (PropertySpec.property p) src)
    return .value (.list [shown, ← valueDatum p src])
  | .read value => do return .value (← eval inv value)
  | .look value => do return .value (← describe (← foreignObject inv value))
  | .write i kind value => do
    let octets ← readForeign kind (← eval inv value)
    ask (.write (← ofPanic (inv.arg i)) octets)
    return .value .null
  | .setSlot i value => do
    let object ← foreignObject inv value
    ask (.write (← ofPanic (inv.arg i)) (object.getD .null).octets)
    return .value .null
  | .setString i value => do
    let text := (← eval inv value).asText
    let object ← ask (.allocate (.string text))
    ask (.write (← ofPanic (inv.arg i)) object.octets)
    return .value .null
  | .isNonNull i => do return .value (.bool (← ofPanic (inv.arg i)).nonNull.isSome)
  | .sameRuntime => return .value (.bool true)
where
  /-- The assembly that the classes of a game are in. -/
  gameAssembly : String := "Game"
  addClass (id : String) (a : Address) : Play Answer := do
    note fun n => { n with classes := n.classes.insert id a }
    return .value .null
  installed (d : Definitions Notes) : Play Answer := do
    let types ← install d
    return .value (.nat (types.headD 0))
  /-- The number of parameters and of calls of a method. -/
  methodCounts (f : Foreign) (i : Nat) : List Datum :=
    match f.methods[i]? with
    | some m => [.nat m.parameterCount, .nat m.calls]
    | none => [.nat 0, .nat 0]

end TwinHeap.Scenario.Play
