import TwinHeap.Proofs.Obedience

/-!
# Passage — crossings, redirected calls and requests keep every law
-/

namespace TwinHeap

variable {σ α β : Type}

/-! ## Crossing -/

theorem Property.data_eq_ok {p : Property} {foreign data : Address}
    (h : p.data foreign = .ok data) : data = foreign ∧ foreign ≠ .null := by
  unfold Property.data Address.nonNull at h
  by_cases hn : foreign = .null
  · rw [if_pos hn] at h
    cases h
  · rw [if_neg hn] at h
    cases h
    exact ⟨rfl, hn⟩

theorem Property.data_of_ne_null (p : Property) {foreign : Address} (h : foreign ≠ .null) :
    p.data foreign = .ok foreign := by
  unfold Property.data
  rw [show foreign.nonNull = some foreign from if_neg h]

namespace Marshaller

open Act

variable {L : Law σ} {r : List Owed} {w : World σ}

theorem proxyOrNull_obeys (hproxies : L.MakesProxies) (host : Address) :
    (proxyOrNull host : Act σ Address).Obeys L .plain r w := by
  unfold proxyOrNull
  split
  · exact hproxies _ _ _
  · exact .pure trivial

/-- What a marshaller stages is written to the staging record only. -/
theorem record_obeys {slot : Slot} (hs : L.mayWrite slot.staging) (os : List Octet)
    {sit : Situation} {x : List Owed} :
    (do edit (·.writeAt slot.staging os); return slot.staging : Act σ Address).Moves L sit r x x x w
      fun _ _ => True :=
  .edit_bind (.write hs os) (.pure trivial)

theorem newString_moves (text : String) {sit : Situation} {x z : List Owed} :
    (editGet (·.newString text) : Act σ Address).Moves L sit r x x z w fun _ _ => True :=
  .editGet (.string text) trivial

/-- The boxing methods of a struct that was passed are remembered. -/
theorem present_moves (hproxies : L.MakesProxies) (m : Marshaller) (p : Property) (host : Address)
    {slot : Slot} (hs : 0 < m.scratchBytes → L.mayWrite slot.staging) :
    (m.present p host slot : Act σ _).Moves L .plain r [] [] [] w fun _ v => m = .struct →
      ∀ info, p.structInfo = .ok info →
        ∃ f, v.state.bridge.factories.get? info.fullName = some f := by
  have hfew {m : Marshaller} {a : Address × Option Address} {v : World σ} (hm : m ≠ .struct) :
      (Pure.pure a : Act σ _).Moves L .plain r [] [] [] v fun _ v => m = .struct →
        ∀ info, p.structInfo = .ok info →
          ∃ f, v.state.bridge.factories.get? info.fullName = some f :=
    .pure fun h => absurd h hm
  unfold present
  refine .state_bind ?_
  cases m with
  | bool => exact hfew (by decide)
  | scalar => exact hfew (by decide)
  | enumeration => exact hfew (by decide)
  | name => exact .seq (record_obeys (hs (by decide)) _) fun _ _ _ => hfew (by decide)
  | text =>
    refine .seq (newString_moves _) fun _ _ _ => ?_
    exact .seq (record_obeys (hs (by decide)) _) fun _ _ _ => hfew (by decide)
  | string => exact .seq (newString_moves _) fun _ _ _ => hfew (by decide)
  | object => exact .seq (proxyOrNull_obeys hproxies _) fun _ _ _ => hfew (by decide)
  | classRef => exact .seq (record_obeys (hs (by decide)) _) fun _ _ _ => hfew (by decide)
  | softReference =>
    exact .seq (Engine.createSoftReference_obeys p host) fun _ _ _ => hfew (by decide)
  | collection =>
    exact .seq (Engine.createCollection_obeys p host) fun _ _ _ => hfew (by decide)
  | struct =>
    -- Nothing that the boxing does afterwards forgets the methods that were remembered for it.
    refine .ofPanic_bind fun info hinfo => ?_
    refine .bind (Engine.structFactory_moves info) fun found v _ hfound => .ofLink_bind ?_
    rintro f rfl
    refine .seq (Engine.boxStruct_obeys host (hfound f rfl)) ?_
    rintro (_ | box) u hg
    · exact .abandon
    · refine .state_bind (.ofPanic_bind fun _ _ => .pure fun _ info' hinfo' => ?_)
      cases hinfo.symm.trans hinfo'
      exact ⟨f, hg.factory _ _ (hfound f rfl)⟩

theorem pass_moves (hproxies : L.MakesProxies) (m : Marshaller) (p : Property) (host : Address)
    {slot : Slot} (hs : L.mayWrite slot.staging) (hp : L.mayWrite slot.pointer) (byRef : Bool) :
    (m.pass p host slot byRef : Act σ _).Moves L .plain r [] [] [] w fun _ v => m = .struct →
      ∀ info, p.structInfo = .ok info →
        ∃ f, v.state.bridge.factories.get? info.fullName = some f := by
  unfold pass
  refine .bind (present_moves hproxies m p host fun _ => hs) ?_
  rintro ⟨pointer, made⟩ v - hmet
  cases byRef with
  | false => exact .pure hmet
  | true =>
    have hkept (h : m = .struct) (info : StructInfo) (hinfo : p.structInfo = .ok info) :
        ∃ f, (v.state.writeAt slot.pointer pointer.octets).bridge.factories.get? info.fullName =
          some f := by
      obtain ⟨f, hf⟩ := hmet h info hinfo
      exact ⟨f, (v.state.grows_writeAt _ _).factory _ _ hf⟩
    refine .edit_bind (.write hp _) ?_
    cases m.isReference <;> exact .pure hkept

theorem pass_obeys (hproxies : L.MakesProxies) (m : Marshaller) (p : Property) (host : Address)
    {slot : Slot} (hs : L.mayWrite slot.staging) (hp : L.mayWrite slot.pointer) (byRef : Bool) :
    (m.pass p host slot byRef : Act σ _).Obeys L .plain r w :=
  (pass_moves hproxies m p host hs hp byRef).mono fun _ _ _ => trivial

theorem stage_obeys (hproxies : L.MakesProxies) (m : Marshaller) (p : Property) {host : Address}
    {slot : Slot} (hs : L.mayWrite slot.staging) (hp : L.mayWrite slot.pointer) (hh : L.mayWrite host)
    (byRef : Bool) : (m.stage p host slot byRef : Act σ _).Obeys L .plain r w := by
  unfold stage
  cases byRef with
  | false => exact pass_obeys hproxies m p host hs hp false
  | true => exact .edit_bind (.store hh _) (pass_obeys hproxies m p host hs hp true)

theorem toHost_obeys (m : Marshaller) (p : Property) {host : Address} (foreign : Address)
    (hh : L.mayWrite host) : (m.toHost p host foreign : Act σ Unit).Obeys L .plain r w := by
  unfold toHost
  cases m with
  | bool => exact .ofPanic_bind fun _ _ => .ofPanic_bind fun _ _ => .edit (.write hh _) trivial
  | scalar => exact .ofPanic_bind fun _ _ => .edit (.write hh _) trivial
  | enumeration =>
    exact .ofPanic_bind fun _ _ => .ofPanic_bind fun _ _ => .edit (.write hh _) trivial
  | name => exact .ofPanic_bind fun _ _ => .edit (.write hh _) trivial
  | text => exact .ofPanic_bind fun _ _ => .edit (.store hh _) trivial
  | string => exact .edit (.store hh _) trivial
  | object =>
    cases foreign.nonNull with
    | some proxy =>
      exact .seq (Identity.hostOf_obeys proxy) fun _ _ _ => .edit (.write hh _) trivial
    | none => exact .seq (.pure trivial) fun _ _ _ => .edit (.write hh _) trivial
  | classRef => exact .ofPanic_bind fun _ _ => .edit (.write hh _) trivial
  | softReference => exact Engine.writeSoftReference_obeys p host _
  | collection => exact Engine.writeCollection_obeys p host _
  | struct =>
    refine .ofPanic_bind fun info _ => ?_
    refine .bind (Engine.structFactory_moves info) fun found v _ hfound => .ofLink_bind ?_
    rintro f rfl
    exact .ofPanic_bind fun data _ => Engine.unboxStruct_obeys host data (hfound f rfl)

/-- A value of the host stays as it is where writing to it fails, as far as the bridge is concerned. -/
theorem toHost_fails (m : Marshaller) (p : Property) (host foreign : Address) :
    (m.toHost p host foreign : Act σ Unit).Fails L r w := by
  unfold toHost
  cases m with
  | bool => exact .ofPanic_bind fun _ _ => .ofPanic_bind fun _ _ => .edit
  | scalar => exact .ofPanic_bind fun _ _ => .edit
  | enumeration => exact .ofPanic_bind fun _ _ => .ofPanic_bind fun _ _ => .edit
  | name => exact .ofPanic_bind fun _ _ => .edit
  | text => exact .ofPanic_bind fun _ _ => .edit
  | string => exact .edit
  | object =>
    cases foreign.nonNull with
    | some proxy => exact .bind_edit (Identity.hostOf_obeys proxy)
    | none => exact .bind_edit (s := .plain) (Q := fun _ _ => True) (.pure trivial)
  | classRef => exact .ofPanic_bind fun _ _ => .edit
  | softReference => exact .of_moves (Engine.writeSoftReference_obeys p host _)
  | collection => exact .of_moves (Engine.writeCollection_obeys p host _)
  | struct =>
    refine .ofPanic_bind fun info _ => .of_moves (s := .plain) (y := []) (Q := fun _ _ => True) ?_
    refine .bind (Engine.structFactory_moves info) fun found v _ hfound => .ofLink_bind ?_
    rintro f rfl
    exact .ofPanic_bind fun data _ => Engine.unboxStruct_obeys host data (hfound f rfl)

theorem toForeign_obeys (hproxies : L.MakesProxies) (m : Marshaller) (p : Property)
    (host : Address) {foreign : Address} (hf : L.mayWrite foreign) :
    (m.toForeign p host foreign : Act σ Unit).Obeys L .plain r w := by
  unfold toForeign
  refine .ofPanic_bind fun dest hdest => ?_
  have hd : L.mayWrite dest := (Property.data_eq_ok hdest).1 ▸ hf
  cases m with
  | bool => exact .ofPanic_bind fun _ _ => .edit (.write hd _) trivial
  | scalar => exact .edit (.write hd _) trivial
  | enumeration => exact .ofPanic_bind fun _ _ => .edit (.write hd _) trivial
  | name => exact .edit (.write hd _) trivial
  | text =>
    exact .state_bind (.seq (newString_moves _) fun _ _ _ => .edit (.write hd _) trivial)
  | string =>
    exact .state_bind (.seq (newString_moves _) fun _ _ _ => .edit (.write hd _) trivial)
  | object =>
    exact .state_bind (.seq (proxyOrNull_obeys hproxies _) fun _ _ _ => .edit (.write hd _) trivial)
  | classRef => exact .edit (.write hd _) trivial
  | softReference => exact .abandon
  | struct => exact .abandon
  | collection => exact .abandon

theorem unwrap_obeys (m : Marshaller) (p : Property) (foreign : Address) :
    (m.unwrap p foreign : Act σ Address).Obeys L .plain r w := by
  unfold unwrap
  cases m.isReference with
  | true => exact .pure trivial
  | false =>
    refine .ofPanic_bind fun object _ => .state_bind ?_
    split
    · exact .ofPanic fun _ _ => trivial
    · split
      · exact .abandon
      · exact .pure trivial

theorem copyReturn_fails (m : Marshaller) (p : Property) (host foreign : Address) :
    (m.copy p host foreign .returnToHost : Act σ Unit).Fails L r w := by
  intro hb hready hrun ho f v hf hne
  change L.course.Runs (m.unwrap p foreign >>= fun a => m.toHost p host a) w at hrun
  change (m.unwrap p foreign >>= fun a => m.toHost p host a) L.call w = .error f v at hf
  have hunwrap := unwrap_obeys (L := L) (r := r) (w := w) m p foreign hb hready
    (L.course.closed hrun (.first .here)) ho
  cases ha : m.unwrap p foreign L.call w with
  | ok a u =>
    rw [bind_of_ok ha] at hf
    exact toHost_fails m p host a hb hready (L.course.closed hrun (.next .here hunwrap.strict ha))
      (hunwrap.ok a u ha).1 f v hf hne
  | error e u =>
    rw [bind_of_error ha] at hf
    cases hf
    exact (hunwrap.err f _ ha hne).1

/-- What a method returned is only read. -/
theorem copyReturn_obeys (m : Marshaller) (p : Property) {host : Address} (foreign : Address)
    (hh : L.mayWrite host) : (m.copy p host foreign .returnToHost : Act σ Unit).Obeys L .plain r w :=
  .seq (unwrap_obeys m p foreign) fun a _ _ => toHost_obeys m p a hh

theorem copy_obeys (hproxies : L.MakesProxies) (m : Marshaller) (p : Property) {host foreign : Address}
    (hh : L.mayWrite host) (hf : L.mayWrite foreign) (d : Direction) :
    (m.copy p host foreign d : Act σ Unit).Obeys L .plain r w := by
  cases d with
  | hostToForeign => exact toForeign_obeys hproxies m p host hf
  | foreignToHost => exact toHost_obeys m p foreign hh
  | returnToHost => exact copyReturn_obeys m p foreign hh

end Marshaller

/-! ## Redirected calls -/

theorem ArgStack.next_eq_ok {stack stack' : ArgStack} {p : Property} {a : StackArg} :
    stack.next p = .ok (a, stack') ↔
      stack.args[stack.cursor]? = some a ∧ stack' = { stack with cursor := stack.cursor + 1 } := by
  unfold ArgStack.next
  split
  · rename_i b hb
    rw [hb]
    constructor
    · intro h
      cases h
      exact ⟨rfl, rfl⟩
    · rintro ⟨⟨⟩, rfl⟩
      rfl
  · rename_i hnone
    rw [hnone]
    exact ⟨nofun, nofun⟩

namespace Redirection

open Act

variable {L : Law σ} {o : List Owed} {w : World σ}

/-- A redirector is bound at most once, and a call goes to what it was bound to. -/
theorem linked_moves {key : Redirector.Key} {r : Redirector}
    (hr : w.state.redirector? key = some r) {sit : Situation} {x : List Owed} :
    (linked key r : Act σ _).Moves L sit o x x x w fun a v => ∀ l m, a = .ok (l, m) →
      ∃ r', v.state.redirector? key = some r' ∧ r'.binding = .linked l m := by
  unfold linked
  cases hbinding : r.binding with
  | linked l m =>
    refine .pure ?_
    rintro _ _ ⟨⟩
    exact ⟨r, hr, hbinding⟩
  | failed e => exact .pure (by rintro _ _ ⟨⟩)
  | unbound =>
    refine .state_bind (.bind (recordTiming_moves _) ?_)
    -- The time that was recorded is in the metrics, and the redirector is still the unbound one.
    rintro _ _ - ⟨journal, metrics, rfl⟩
    cases hres : r.resolve w.state.bridge.registry w.state.foreign with
    | ok lm =>
      obtain ⟨l, m⟩ := lm
      refine .bind (report_moves _) ?_
      rintro _ _ - ⟨journal', metrics', rfl⟩
      refine .edit_bind (.bind hr hbinding ?_) (.pure ?_)
      · rintro _ _ ⟨⟩
        exact hres
      · rintro _ _ ⟨⟩
        refine ⟨{ r with binding := .linked l m }, ?_, rfl⟩
        have hr' : w.state.bridge.redirectors.get? key = some r := hr
        simp [State.redirector?, State.modifyRedirector, hr']
    | error e =>
      refine .bind (report_moves _) ?_
      rintro _ _ - ⟨journal', metrics', rfl⟩
      refine .bind (count_moves _ _) ?_
      rintro _ _ - ⟨journal'', metrics'', rfl⟩
      exact .edit_bind (.bind hr hbinding (by rintro _ _ ⟨⟩)) (.pure (by rintro _ _ ⟨⟩))

theorem link_obeys {key : Redirector.Key} {r : Redirector}
    (hr : w.state.redirector? key = some r) : (link key r : Act σ _).Obeys L .plain o w :=
  .bind (linked_moves hr) fun _ _ _ _ => .pure trivial

variable {key : Redirector.Key}

/-- The place of a parameter lies in the block of the call, or in a cell of its own. -/
theorem paramPlace_moves {block : Nat} (hblock : ∀ offset, L.mayWrite (.cell block offset))
    (p : Property) :
    (paramPlace block p : Act σ Address).Moves L .plain (.frame key :: o) [] [] [] w
      fun place _ => L.mayWrite place := by
  unfold paramPlace
  have hcell : (do return .ofCell (← editGet (·.frameCell (Value.default p))) :
      Act σ Address).Moves L .plain (.frame key :: o) [] [] [] w fun place _ => L.mayWrite place :=
    .bind .frameCell fun c _ _ hc => .pure (hc 0)
  cases p.kind.storage with
  | plain => exact .pure (hblock _)
  | flag => exact .pure (hblock _)
  | string => exact hcell
  | container => exact hcell
  | delegate => exact hcell
  | multicast => exact hcell

/-- The parameters are stored in places of the call; outputs go there, or to cells of the caller. -/
theorem loadParams_moves {block : Nat} (hblock : ∀ offset, L.mayWrite (.cell block offset))
    (ps : List Property) (stack : ArgStack) :
    (loadParams block ps stack : Act σ _).Moves L .plain (.frame key :: o) [] [] [] w
      fun loaded _ => ∀ param ∈ loaded.1, L.mayWrite param.place ∧ (param.output = param.place ∨
        ∃ a ∈ stack.args, a.byRef = true ∧ param.output = .ofCell a.cell) := by
  induction ps generalizing w stack with
  | nil => exact .pure (by rintro _ ⟨⟩)
  | cons p ps ih =>
    unfold loadParams
    refine .bind (paramPlace_moves hblock p) fun place _ _ hplace => ?_
    split
    · refine .bind (ih stack) fun loaded _ _ hrest => .pure ?_
      exact List.forall_mem_cons.2 ⟨⟨hplace, .inl rfl⟩, hrest⟩
    · refine .ofPanic_bind fun ⟨a, stack'⟩ hnext => .edit_bind (.store hplace _) ?_
      obtain ⟨ha, rfl⟩ := ArgStack.next_eq_ok.1 hnext
      refine .bind (ih _) fun loaded _ _ hrest => .pure ?_
      refine List.forall_mem_cons.2 ⟨⟨hplace, ?_⟩, hrest⟩
      cases hby : a.byRef with
      | true => exact .inr ⟨a, List.mem_of_getElem? ha, hby, rfl⟩
      | false => exact .inl rfl

/-- Staging writes to the places of the parameters and to the scratch memory. -/
theorem stageArgs_obeys (hproxies : L.MakesProxies) {params : List Parameter} {scratch : Nat}
    (hp : ∀ param ∈ params, L.mayWrite param.place)
    (hs : ∀ offset, L.mayWrite (.cell scratch offset)) (args : List LinkedArg) :
    (stageArgs params scratch args : Act σ _).Obeys L .plain (.frame key :: o) w := by
  induction args generalizing w with
  | nil => exact .pure trivial
  | cons a as ih =>
    unfold stageArgs
    split
    · exact ih
    · rename_i param hparam
      have hslot (offset : Nat) : L.mayWrite (Slot.staging ⟨scratch, offset⟩) := hs _
      refine .seq (Marshaller.stage_obeys hproxies _ _ (hslot _) (hs _)
        (hp param (List.mem_of_getElem? hparam)) _) ?_
      rintro ⟨pointer, _ | object⟩ v -
      · refine .seq ih ?_
        rintro ⟨pointers, staged⟩ u -
        exact .pure trivial
      · refine .edit_bind (.root object) (.seq ih ?_)
        rintro ⟨pointers, staged⟩ u -
        exact .pure trivial

/-- Writing back copies the outputs of the parameters that are linked by reference. -/
theorem writeBack_obeys_of_toHost {staged : List StagedArg} {i : Nat} {params : List Parameter}
    (hp : ∀ j param t, params[j]? = some param →
      (staged.find? fun t => t.arg.param == i + j) = some t → t.arg.byRef = true →
      ∀ foreign v, (t.arg.marshaller.toHost param.property param.output foreign : Act σ Unit).Obeys
        L .plain o v) :
    (writeBack staged i params : Act σ Unit).Obeys L .plain o w := by
  induction params generalizing w i with
  | nil => exact .pure trivial
  | cons param params ih =>
    have ih {v : World σ} : (writeBack staged (i + 1) params : Act σ Unit).Obeys L .plain o v :=
      ih fun j q t hq ht => hp (j + 1) q t hq (Nat.add_right_comm i 1 j ▸ ht)
    unfold writeBack
    split
    · rename_i t ht
      split
      · rename_i hby
        exact .state_bind (.seq (hp 0 param t rfl ht hby _ _) fun _ _ _ => ih)
      · exact ih
    · exact ih

/-- Writing back writes to the outputs of the parameters that are linked by reference. -/
theorem writeBack_obeys {staged : List StagedArg} {i : Nat} {params : List Parameter}
    (hp : ∀ j param t, params[j]? = some param →
      (staged.find? fun t => t.arg.param == i + j) = some t → t.arg.byRef = true →
      L.mayWrite param.output) :
    (writeBack staged i params : Act σ Unit).Obeys L .plain o w :=
  writeBack_obeys_of_toHost fun j param t hj ht hby foreign _ =>
    Marshaller.toHost_obeys _ _ foreign (hp j param t hj ht hby)

/-- The object that a call goes to: the proxy of its target, unless the function is static. -/
def receiverOf (function : Function) (target : Option Address) : Act σ (Option Address) :=
  match target with
  | some object => if function.flags.static then pure none else some <$> Identity.proxyFor object
  | none => pure none

/-- What comes before the method is called: the arguments are staged and the receiver is found. -/
def prepare (function : Function) (l : Linkage) (target : Option Address)
    (params : List Parameter) : Act σ (List Address × List StagedArg × Option Address) := do
  let scratch ← editGet (·.frameCell (.plain []))
  let (pointers, staged) ← stageArgs params scratch l.args
  let receiver ← receiverOf function target
  return (pointers, staged, receiver)

/-- A call without arguments and without a target has little to prepare. -/
theorem prepare_of_nil {l : Linkage} (hl : l.args = []) (function : Function)
    (params : List Parameter) (call : Invoker σ) :
    prepare function l none params call w = .ok ([], [], none) { w with
      state := (w.state.frameCell (.plain [])).2 } := by
  unfold prepare
  rw [hl]
  rfl

/-- The return value goes to where the caller wants it. -/
def copyResult (function : Function) (l : Linkage) (returned result : Option Address) :
    Act σ Unit :=
  match returnOf function l, returned, result with
  | some (p, m), some value, some place => m.copy p place value .returnToHost
  | _, _, _ => pure ()

/-- The place of the return value is reset. -/
def resetResult (function : Function) (l : Linkage) (result : Option Address) (s : State) : State :=
  match returnOf function l, result with
  | some (p, _), some place => s.resetAt p place
  | _, _ => s

/-- What a call does with the outcome of the method. -/
def finish (function : Function) (l : Linkage) (params : List Parameter)
    (staged : List StagedArg) (result : Option Address) :
    Except ForeignException (Option Address) → Act σ Unit
  | .error x => do
    report (.foreignException function.qualifiedName x.message x.stackTrace)
    count Counter.foreignExceptions 1
    edit (resetResult function l result)
    fail (.foreign x)
  | .ok returned => do
    writeBack staged 0 params
    copyResult function l returned result

/-- A call prepares, calls the method once and finishes. -/
theorem run_eq (function : Function) (l : Linkage) (m : Nat) (target : Option Address)
    (params : List Parameter) (result : Option Address) :
    (run function l m target params result : Act σ Unit) = (do
      let (pointers, staged, receiver) ← prepare function l target params
      let answer ← callMethod m receiver pointers
      finish function l params staged result answer) := by
  have hfinish (answer : Except ForeignException (Option Address)) (staged : List StagedArg) :
      (match answer with
        | .error x => do
          report (.foreignException function.qualifiedName x.message x.stackTrace)
          count Counter.foreignExceptions 1
          match returnOf function l, result with
          | some (p, _), some place => edit (·.resetAt p place)
          | _, _ => pure ()
          fail (.foreign x)
        | .ok returned => do
          writeBack staged 0 params
          match returnOf function l, returned, result with
          | some (p, m), some value, some place => m.copy p place value .returnToHost
          | _, _, _ => pure () : Act σ Unit) = finish function l params staged result answer := by
    -- Without an exception both sides are the same term; with one, they differ in where the match on
    -- the result stands.
    cases answer with
    | ok returned => rfl
    | error x =>
      refine bind_congr fun _ => bind_congr fun _ => ?_
      unfold resetResult
      cases returnOf function l with
      | none => rfl
      | some pm => cases result <;> rfl
  unfold run prepare receiverOf
  simp only [bind_assoc, pure_bind]
  refine bind_congr fun scratch => bind_congr fun staged => ?_
  cases target with
  | none =>
    simp only [pure_bind]
    exact bind_congr fun answer => hfinish answer _
  | some object =>
    cases function.flags.static with
    | true => exact bind_congr fun answer => hfinish answer _
    | false =>
      refine (bind_congr fun receiver => bind_congr fun answer => hfinish answer _).trans ?_
      rfl

theorem receiverOf_obeys (hproxies : L.MakesProxies) (function : Function) (target : Option Address) :
    (receiverOf function target : Act σ _).Obeys L .plain o w := by
  unfold receiverOf
  split
  · split
    · exact .pure trivial
    · exact .map (hproxies _ _ _) fun _ _ _ => trivial
  · exact .pure trivial

theorem prepare_obeys (hproxies : L.MakesProxies) (function : Function) (l : Linkage)
    (target : Option Address) {params : List Parameter} (hp : ∀ param ∈ params, L.mayWrite param.place) :
    (prepare function l target params : Act σ _).Obeys L .plain (.frame key :: o) w := by
  unfold prepare
  refine .bind .frameCell fun scratch _ _ hscratch => ?_
  refine .seq (stageArgs_obeys hproxies hp hscratch l.args) ?_
  rintro ⟨pointers, staged⟩ v -
  exact .seq (receiverOf_obeys hproxies function target) fun _ _ _ => .pure trivial

theorem resetResult_change {T : Terms} {s : State} (function : Function) (l : Linkage)
    {result : Option Address} (hr : ∀ a, result = some a → T.mayWrite a) :
    Change T o s o (resetResult function l result s) := by
  unfold resetResult
  split
  · exact .store (hr _ rfl) _
  · exact .note s.journal s.bridge.metrics

theorem finish_obeys (function : Function) (l : Linkage) {params : List Parameter}
    (hp : ∀ param ∈ params, L.mayWrite param.output) (staged : List StagedArg)
    {result : Option Address} (hr : ∀ a, result = some a → L.mayWrite a)
    (answer : Except ForeignException (Option Address)) :
    (finish function l params staged result answer : Act σ Unit).Obeys L .plain o w := by
  cases answer with
  | error x =>
    refine .bind (report_moves _) fun _ _ _ _ => .bind (count_moves _ _) fun _ _ _ _ => ?_
    exact .edit_bind (resetResult_change function l hr) .fail
  | ok returned =>
    refine .seq (writeBack_obeys fun j param t hj _ _ => hp param (List.mem_of_getElem? hj))
      fun _ _ _ => ?_
    unfold copyResult
    split
    · exact Marshaller.copyReturn_obeys _ _ _ (hr _ rfl)
    · exact .pure trivial

/-- A method is called that a redirected function is linked to. -/
theorem callMethod_obeys {l : Linkage} {m : Nat}
    (hlinked : ∃ r, w.state.redirector? key = some r ∧ r.binding = .linked l m)
    (receiver : Option Address) (args : List Address) :
    (callMethod m receiver args : Act σ _).Obeys L .plain o w := by
  obtain ⟨r, hk, hl⟩ := hlinked
  exact .of_ready fun hready => (Moves.callMethod (y := []) (.linked hready hk hl) ⟨rfl, rfl, rfl⟩
    (.inl rfl)).mono fun _ _ _ => trivial

theorem run_obeys (hproxies : L.MakesProxies) {l : Linkage} {m : Nat}
    (hlinked : ∃ r, w.state.redirector? key = some r ∧ r.binding = .linked l m)
    (function : Function) (target : Option Address) {params : List Parameter}
    (hp : ∀ param ∈ params, L.mayWrite param.place) {result : Option Address}
    (hfinish : ∀ pointers staged receiver u answer v,
      prepare function l target params L.call w = .ok (pointers, staged, receiver) u →
      (finish function l params staged result answer : Act σ Unit).Obeys L .plain
        (.frame key :: o) v) :
    (run function l m target params result : Act σ Unit).Obeys L .plain (.frame key :: o) w := by
  rw [run_eq]
  refine .bind_of_run (prepare_obeys hproxies function l target hp) ?_
  rintro ⟨pointers, staged, receiver⟩ v hprepare hg -
  obtain ⟨r, hk, hl⟩ := hlinked
  refine .seq (callMethod_obeys (hg.linked key r l m hk hl) receiver pointers) fun answer u _ => ?_
  exact hfinish pointers staged receiver v answer u hprepare

theorem checkFrame_obeys (size align : Nat) {sit : Situation} {x : List Owed} :
    (checkFrame size align : Act σ Unit).Moves L sit o x x x w fun _ _ => True := by
  unfold checkFrame
  split
  · exact .pure trivial
  · exact .abandon
  · exact .abandon

/-- The part of a call that comes before its arguments are staged. -/
def load (key : Redirector.Key) (r : Redirector) (l : Linkage) (stack : ArgStack) :
    Act σ (List Parameter × ArgStack) := do
  let depth := ((← state).redirector? key).elim 0 Redirector.depth
  report (.redirectCall r.function.qualifiedName depth)
  count Counter.calls 1
  checkFrame r.function.block.size r.function.block.align
  checkFrame l.scratchSize addressSize
  let block ← editGet (·.frameCell (.plain []))
  loadParams block r.function.params stack

/-- A call links its function, loads its parameters and runs, with a frame of its own. -/
theorem invoke_eq (key : Redirector.Key) (r : Redirector) (target : Option Address)
    (stack : ArgStack) (result : Option Address) :
    (invoke key r target stack result : Act σ _) = (do
      match ← linked key r with
      | .error e => return (.error (.link e), stack)
      | .ok (l, m) => do
        edit (·.enter key)
        ensuring (·.leave key) do
          let (params, rest) ← load key r l stack
          let outcome ← attempt (run r.function l m target params result)
          return (outcome, rest)) := by
  unfold invoke load
  simp only [bind_assoc] <;> rfl

theorem load_moves (r : Redirector) (l : Linkage) (stack : ArgStack) :
    (load key r l stack : Act σ _).Moves L .plain (.frame key :: o) [] [] [] w
      fun loaded _ => ∀ param ∈ loaded.1, L.mayWrite param.place ∧ (param.output = param.place ∨
        ∃ a ∈ stack.args, a.byRef = true ∧ param.output = .ofCell a.cell) := by
  unfold load
  refine .state_bind (.bind (report_moves _) fun _ _ _ _ => .bind (count_moves _ _) fun _ _ _ _ => ?_)
  refine .seq (checkFrame_obeys _ _) fun _ _ _ => .seq (checkFrame_obeys _ _) fun _ _ _ => ?_
  exact .bind .frameCell fun block _ _ hblock => loadParams_moves hblock _ stack

/-- What a call does in its frame. -/
def inFrame (key : Redirector.Key) (r : Redirector) (l : Linkage) (m : Nat) (target : Option Address)
    (stack : ArgStack) (result : Option Address) : Act σ (Except BridgeError Unit × ArgStack) := do
  let (params, rest) ← load key r l stack
  let outcome ← attempt (run r.function l m target params result)
  return (outcome, rest)

theorem inFrame_obeys (hproxies : L.MakesProxies) {l : Linkage} {m : Nat}
    (hlinked : ∃ r', w.state.redirector? key = some r' ∧ r'.binding = .linked l m) (r : Redirector)
    (target : Option Address) (stack : ArgStack) (result : Option Address)
    (hfinish : ∀ params rest u pointers staged receiver u' answer v',
      load key r l stack L.call w = .ok (params, rest) u →
      (∀ param ∈ params, L.mayWrite param.place ∧ (param.output = param.place ∨
        ∃ a ∈ stack.args, a.byRef = true ∧ param.output = .ofCell a.cell)) →
      prepare r.function l target params L.call u = .ok (pointers, staged, receiver) u' →
      (finish r.function l params staged result answer : Act σ Unit).Obeys L .plain
        (.frame key :: o) v') :
    (inFrame key r l m target stack result : Act σ _).Obeys L .plain (.frame key :: o) w := by
  refine .bind_of_run (load_moves r l stack) ?_
  rintro ⟨params, rest⟩ u hu hg hparams
  obtain ⟨r', hr', hl'⟩ := hlinked
  have hrun : (run r.function l m target params result : Act σ Unit).Obeys L .plain
      (.frame key :: o) u :=
    run_obeys hproxies (hg.linked key r' l m hr' hl') r.function target
      (fun param hparam => (hparams param hparam).1) fun pointers staged receiver u' answer v' =>
        hfinish params rest u pointers staged receiver u' answer v' hu hparams
  exact .seq (hrun.attempt (R := fun _ _ => True) (fun _ _ _ => trivial) fun _ _ => trivial)
    fun _ _ _ => .pure trivial

/-- A call keeps the law as far as it does when it finishes. -/
theorem invoke_obeys_of_finish (hproxies : L.MakesProxies) {r : Redirector}
    (hr : w.state.redirector? key = some r) (target : Option Address) (stack : ArgStack)
    (result : Option Address)
    (hfinish : ∀ l m v params rest u pointers staged receiver u' answer v',
      linked key r L.call w = .ok (.ok (l, m)) v →
      load key r l stack L.call { v with state := v.state.enter key } = .ok (params, rest) u →
      (∀ param ∈ params, L.mayWrite param.place ∧ (param.output = param.place ∨
        ∃ a ∈ stack.args, a.byRef = true ∧ param.output = .ofCell a.cell)) →
      prepare r.function l target params L.call u = .ok (pointers, staged, receiver) u' →
      (finish r.function l params staged result answer : Act σ Unit).Obeys L .plain
        (.frame key :: o) v') :
    (invoke key r target stack result : Act σ _).Obeys L .redirected o w := by
  rw [invoke_eq]
  refine .bind_of_run (linked_moves hr) ?_
  rintro (e | ⟨l, m⟩) v hv - hlinked
  · exact .pure trivial
  obtain ⟨r', hr', hl'⟩ := hlinked l m rfl
  refine .edit_bind (d := [.frame key]) (.enter key ⟨r', l, m, hr', hl'⟩) ?_
  refine .ensuring (y := [.frame key]) (z := [.frame key]) ?_ (fun _ hb => .leave hb)
    fun _ hb => .leave hb
  refine .lift ?_ (fun t (ht : Situation.plain.Fits t) => ht.append ⟨rfl, rfl, rfl⟩) rfl rfl
  exact inFrame_obeys hproxies ((v.state.grows_enter key).linked key r' l m hr' hl') r target stack
    result fun params rest u pointers staged receiver u' answer v' =>
      hfinish l m v params rest u pointers staged receiver u' answer v' hv

theorem invoke_obeys (hproxies : L.MakesProxies) {r : Redirector}
    (hr : w.state.redirector? key = some r)
    (target : Option Address) {stack : ArgStack}
    (hstack : ∀ a ∈ stack.args, a.byRef = true → L.mayWrite (.ofCell a.cell))
    {result : Option Address} (hresult : ∀ a, result = some a → L.mayWrite a) :
    (invoke key r target stack result : Act σ _).Obeys L .redirected o w := by
  refine invoke_obeys_of_finish hproxies hr target stack result ?_
  intro l m v params rest u pointers staged receiver u' answer v' _ _ hparams _
  refine finish_obeys r.function l (fun param hparam => ?_) staged hresult answer
  obtain ⟨hplace, hout | ⟨a, ha, hby, hout⟩⟩ := hparams param hparam
  · exact hout ▸ hplace
  · exact hout ▸ hstack a ha hby

end Redirection

/-! ## Delegates -/

theorem State.redirector?_of_resolveDelegate {s : State} {d : Delegate} {key : Redirector.Key}
    {r : Redirector} (h : s.resolveDelegate d = .ok (some (key, r))) :
    s.redirector? key = some r := by
  have hnearest (as : List Address)
      (h : resolveDelegate.nearest s d as = .ok (some (key, r))) : s.redirector? key = some r := by
    induction as with
    | nil => cases h
    | cons a as ih =>
      unfold resolveDelegate.nearest at h
      cases hinfo : s.host.classInfo a with
      | error p => rw [hinfo] at h; cases h
      | ok info =>
        rw [hinfo] at h
        dsimp only [bind, Except.bind] at h
        split at h
        · cases h
          assumption
        · exact ih h
  unfold resolveDelegate at h
  split at h
  · cases h
  · rename_i object _
    cases hc : s.host.classOf object with
    | error p => rw [hc] at h; cases h
    | ok c =>
      rw [hc] at h
      exact hnearest _ h

theorem Delegate.execute_obeys {L : Law σ} {o : List Owed} {w : World σ}
    (hproxies : L.MakesProxies) (d : Delegate) {stack : ArgStack}
    (hstack : ∀ a ∈ stack.args, a.byRef = true → L.mayWrite (.ofCell a.cell))
    {result : Option Address} (hresult : ∀ a, result = some a → L.mayWrite a) :
    (d.execute stack result : Act σ Bool).Obeys L .redirected o w := by
  unfold execute
  split
  · exact .pure trivial
  refine .state_bind (.ofPanic_bind ?_)
  rintro (_ | ⟨key, r⟩) hd
  · exact .pure trivial
  refine .seq (Redirection.invoke_obeys hproxies (State.redirector?_of_resolveDelegate hd) _
    hstack hresult) ?_
  rintro ⟨e | _, stack'⟩ v -
  · exact .fail
  · exact .pure trivial

theorem Multicast.broadcast_obeys {L : Law σ} {o : List Owed} {w : World σ}
    (hproxies : L.MakesProxies) (ds : Multicast) {supplied : List ArgStack}
    (hsupplied : ∀ stack ∈ supplied, ∀ a ∈ stack.args, a.byRef = true → L.mayWrite (.ofCell a.cell)) :
    (Multicast.broadcast ds supplied : Act σ Nat).Obeys L .redirected o w := by
  induction ds generalizing w supplied with
  | nil => exact .pure trivial
  | cons d ds ih =>
    have hfirst : ∀ a ∈ (supplied.headD (.ofArgs [])).args, a.byRef = true →
        L.mayWrite (.ofCell a.cell) := by
      cases supplied with
      | nil => exact fun a ha => nomatch ha
      | cons stack rest => exact hsupplied stack List.mem_cons_self
    unfold broadcast
    refine .seq (d.execute_obeys hproxies hfirst nofun) fun _ _ _ => ?_
    refine .seq (ih fun stack hstack => hsupplied stack (List.mem_of_mem_tail hstack)) fun _ _ _ => ?_
    exact .pure trivial

/-! ## Requests -/

/-- Where a request stands when it calls foreign code. -/
def Request.situation : Request → Situation
  | .sweep | .teardown _ | .shutdown => .severing
  | .invoke .. | .execute .. | .broadcast .. => .redirected
  | _ => .plain

/-- The host objects whose entries a request removes. -/
def Request.severed (s : State) : Request → List Address
  | .sweep => s.unreached
  | .teardown root => s.owned root
  | .shutdown => s.bridge.entries.keys
  | _ => []

/-- The places in storage that a request names to be written to. -/
def Request.Writes : Request → Address → Prop
  | .discard cell => fun a => a = .ofCell cell
  | .store place _ | .write place _ => fun a => a = place
  | .invoke _ _ stack result | .execute _ stack result =>
    fun a => (∃ arg ∈ stack.args, arg.byRef = true ∧ a = .ofCell arg.cell) ∨ result = some a
  | .broadcast _ supplied =>
    fun a => ∃ stack ∈ supplied, ∃ arg ∈ stack.args, arg.byRef = true ∧ a = .ofCell arg.cell
  | .pass _ _ _ slot _ => fun a => a = slot.staging ∨ a = slot.pointer
  | .addArgument _ _ host slot _ => fun a => a = slot.staging ∨ a = slot.pointer ∨ a = host
  | .copy _ _ host foreign _ => fun a => a = host ∨ a = foreign
  | _ => fun _ => False

/-- Whatever is asked for, the bridge keeps the law. -/
theorem Request.perform_obeys {L : Law σ} {o : List Owed} {w : World σ} {r : Request}
    (hproxies : L.MakesProxies) (hw : ∀ a, r.Writes a → L.mayWrite a)
    (hhold : ∀ a, L.mayAsk (.hold a .strong)) (hr : L.mayAsk r) (hs : ∀ reason,
      (Identity.sever reason (r.severed w.state) : Act σ Nat).Obeys L .severing o w) :
    (r.perform : Act σ _).Obeys L r.situation o w := by
  have answer {α : Type} {f : State → α × State}
      (hf : ∃ g, r.alone? = some g ∧ g w.state = (f w.state).2) :
      (Act.editGet f : Act σ α).Obeys L r.situation o w := by
    obtain ⟨g, hg, heq⟩ := hf
    exact .of_ready fun hready => .editGet (heq ▸ Change.alone hready hr hg) trivial
  have change {f : State → State} (hf : r.alone? = some f) :
      (Act.edit f : Act σ Unit).Obeys L r.situation o w :=
    .of_ready fun hready => .edit (.alone hready hr hf) trivial
  -- What is carried out at once is one change that the law admits; the others are followed through the
  -- functions that carry them out.
  cases r with
  | defineClass | spawn | intern | defineType | allocate =>
    unfold perform
    exact answer ⟨_, rfl, rfl⟩
  | allot | instantiate | hold | setRooted | redirect =>
    unfold perform
    exact answer ⟨_, rfl, rfl⟩
  | setReachable | discard | store | write => exact change rfl
  | setNative | collect | regrip | letGo => exact change rfl
  | call m receiver args =>
    refine .of_ready fun hready => ?_
    exact .callMethod (y := []) (.direct hready hr) ⟨rfl, rfl, rfl⟩ (.inl rfl)
  | proxy host =>
    exact (hproxies host _ _).attempt (fun _ _ _ => trivial) fun _ _ => trivial
  | hostOf object => exact Identity.hostOf_obeys object
  | sweep => exact Identity.sweep_obeys hs
  | teardown root => exact Identity.teardown_obeys hs
  | shutdown => exact Identity.shutdown_obeys hs
  | bind classRef => exact (Identity.bindingFor_moves classRef).mono fun _ _ _ => trivial
  | structFactory info => exact (Engine.structFactory_moves info).mono fun _ _ _ => trivial
  | link key =>
    refine .state_bind ?_
    split
    · exact .pure trivial
    · exact .seq (Redirection.link_obeys ‹_›) fun _ _ _ => .pure trivial
  | invoke key target stack result =>
    refine .state_bind ?_
    split
    · exact .pure trivial
    · exact .seq (Redirection.invoke_obeys hproxies ‹_› _
        (fun a ha hby => hw _ (.inl ⟨a, ha, hby, rfl⟩)) fun a ha => hw a (.inr ha)) fun _ _ _ =>
        .pure trivial
  | execute d stack result =>
    exact (d.execute_obeys hproxies (fun a ha hby => hw _ (.inl ⟨a, ha, hby, rfl⟩))
      fun a ha => hw a (.inr ha)).attempt (fun _ _ _ => trivial) fun _ _ => trivial
  | broadcast ds supplied =>
    exact (Multicast.broadcast_obeys hproxies ds fun stack hs a ha hby =>
      hw _ ⟨stack, hs, a, ha, hby, rfl⟩).attempt (fun _ _ _ => trivial) fun _ _ => trivial
  | pass m p host slot byRef =>
    refine Act.Moves.attempt (Q := fun _ _ => True) ?_ (fun _ _ _ => trivial) fun _ _ => trivial
    exact .seq (m.pass_obeys hproxies p host (hw _ (.inl rfl)) (hw _ (.inr rfl)) byRef)
      fun _ _ _ => .pure trivial
  | addArgument m p host slot byRef =>
    refine Act.Moves.attempt (Q := fun _ _ => True) ?_ (fun _ _ _ => trivial) fun _ _ => trivial
    refine .seq (m.stage_obeys hproxies p (hw _ (.inl rfl)) (hw _ (.inr (.inl rfl)))
      (hw _ (.inr (.inr rfl))) byRef) ?_
    rintro ⟨pointer, _ | object⟩ v -
    · exact .pure trivial
    · refine .of_ready fun hready => ?_
      exact .seq (.editGet (y := []) (.alone hready (hhold object) rfl) trivial)
        fun _ _ _ => .pure trivial
  | copy m p host foreign d =>
    exact (m.copy_obeys hproxies p (hw _ (.inl rfl)) (hw _ (.inr rfl)) d).attempt
      (fun _ _ _ => trivial) fun _ _ => trivial

end TwinHeap
