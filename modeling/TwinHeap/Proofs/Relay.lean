import TwinHeap.Proofs.Dispatch

/-!
# Relay — the host is handed from call to call

The bridge does not change the host by itself. So an operation lists its calls of foreign code in an
order in which each is given the host as the call before it has left it: the first that of the
operation, and the operation leaves the host of the last (`Relay`). What becomes of the host in an
operation is what becomes of it in its calls, one after the other.
-/

namespace TwinHeap

variable {σ α β : Type}

/-- The world that was left, with an answer or with a failure. -/
def World.leftBy : EStateM.Result Failure (World σ) α → World σ
  | .ok _ v => v
  | .error _ v => v

/-- The calls hand the host on: the first is given `h`, each other one what the call before it has left,
and the last leaves `h'`. -/
inductive Relay (call : Invoker σ) : Host → List (Nat × Invocation × World σ) → Host → Prop
  | nil {h : Host} : Relay call h [] h
  | cons {m : Nat} {inv : Invocation} {u : World σ} {calls : List (Nat × Invocation × World σ)}
      {h : Host} (hrest : Relay call (World.leftBy (call m inv u)).state.host calls h) :
      Relay call u.state.host ((m, inv, u) :: calls) h

theorem Relay.append {call : Invoker σ} {h h' h'' : Host}
    {calls calls' : List (Nat × Invocation × World σ)} (hr : Relay call h calls h')
    (hr' : Relay call h' calls' h'') : Relay call h (calls ++ calls') h'' := by
  induction hr with
  | nil => exact hr'
  | cons _ ih => exact .cons (ih hr')

namespace Act

/-- The action is made of changes that leave the host alone, and of calls. -/
inductive SparesHost : {α : Type} → Act σ α → Prop
  | pure {α : Type} (a : α) : SparesHost (Pure.pure a)
  | raise {α : Type} (f : Failure) : SparesHost (throw f : Act σ α)
  | state : SparesHost Act.state
  | edit {f : State → State} (hf : ∀ s, (f s).host = s.host) : SparesHost (Act.edit f)
  | editGet {α : Type} {f : State → α × State} (hf : ∀ s, (f s).2.host = s.host) :
      SparesHost (Act.editGet f)
  | callMethod (m : Nat) (receiver : Option Address) (args : List Address) :
      SparesHost (Act.callMethod m receiver args)
  | bind {α β : Type} {act : Act σ α} {f : α → Act σ β} (h : SparesHost act)
      (hf : ∀ a, SparesHost (f a)) : SparesHost (act >>= f)
  | attempt {α : Type} {act : Act σ α} (h : SparesHost act) : SparesHost act.attempt
  | ensuring {α : Type} {act : Act σ α} {cleanup : State → State} (h : SparesHost act)
      (hc : ∀ s, (cleanup s).host = s.host) : SparesHost (Act.ensuring cleanup act)

/-- Such an action has its calls in an order in which they hand the host on. -/
theorem SparesHost.relays {act : Act σ α} (h : act.SparesHost) (call : Invoker σ) (w : World σ) :
    ∃ calls, act.OnlyCalls call w (fun m inv u => (m, inv, u) ∈ calls) ∧
      Relay call w.state.host calls (World.leftBy (act call w)).state.host := by
  -- Nothing is called where the action is but a change.
  have still {α : Type} {act : Act σ α} {w : World σ} (hc : ∀ call', act call' w = act call w)
      (hw : (World.leftBy (act call w)).state.host = w.state.host) :
      ∃ calls, act.OnlyCalls call w (fun m inv u => (m, inv, u) ∈ calls) ∧
        Relay call w.state.host calls (World.leftBy (act call w)).state.host :=
    ⟨[], .of_const hc, hw ▸ .nil⟩
  induction h generalizing w with
  | pure | raise | state => exact still (fun _ => rfl) rfl
  | edit hf | editGet hf => exact still (fun _ => rfl) (hf _)
  | callMethod m receiver args =>
    refine ⟨[(m, ⟨receiver, args⟩, w)], fun call' hc => ?_, .cons .nil⟩
    exact hc _ _ _ (List.mem_singleton.2 rfl)
  | @bind α β act f _ _ ih ihf =>
    obtain ⟨calls, honly, hrelay⟩ := ih w
    cases ha : act call w with
    | error e v =>
      rw [ha] at hrelay
      rw [bind_of_error ha]
      refine ⟨calls, honly.bind fun a u hu => ?_, hrelay⟩
      rw [ha] at hu
      cases hu
    | ok a v =>
      obtain ⟨calls', honly', hrelay'⟩ := ihf a v
      rw [ha] at hrelay
      rw [bind_of_ok ha]
      refine ⟨calls ++ calls', ?_, hrelay.append hrelay'⟩
      refine (honly.mono fun _ _ _ hm => List.mem_append_left _ hm).bind fun a' u hu => ?_
      rw [ha] at hu
      cases hu
      exact honly'.mono fun _ _ _ hm => List.mem_append_right _ hm
  | @attempt α act _ ih =>
    obtain ⟨calls, honly, hrelay⟩ := ih w
    refine ⟨calls, honly.attempt, ?_⟩
    have hleft : World.leftBy (act.attempt call w) = World.leftBy (act call w) := by
      unfold Act.attempt
      cases act call w with
      | ok a v => rfl
      | error f v => cases f <;> rfl
    rw [hleft]
    exact hrelay
  | @ensuring α act cleanup _ hc ih =>
    obtain ⟨calls, honly, hrelay⟩ := ih w
    refine ⟨calls, honly.ensuring, ?_⟩
    have hleft : (World.leftBy (Act.ensuring cleanup act call w)).state.host =
        (World.leftBy (act call w)).state.host := by
      unfold Act.ensuring
      cases act call w <;> exact hc _
    rw [hleft]
    exact hrelay

namespace SparesHost

theorem fail (e : BridgeError) : (Act.fail e : Act σ α).SparesHost := .raise _

theorem abandon (p : Panic) : (Act.abandon p : Act σ α).SparesHost := .raise _

theorem ofPanic (x : Except Panic α) : (Act.ofPanic x : Act σ α).SparesHost := by
  cases x with
  | ok a => exact .pure a
  | error p => exact .abandon p

theorem ofLink (x : Except LinkError α) : (Act.ofLink x : Act σ α).SparesHost := by
  cases x with
  | ok a => exact .pure a
  | error e => exact .fail _

theorem ofForeign (x : Except ForeignException α) : (Act.ofForeign x : Act σ α).SparesHost := by
  cases x with
  | ok a => exact .pure a
  | error x => exact .fail _

theorem discard {act : Act σ α} (h : act.SparesHost) :
    (Functor.discard act : Act σ Unit).SparesHost :=
  .bind h fun _ => .pure ()

theorem callForeign (m : Nat) (receiver : Option Address) (args : List Address) :
    (Act.callMethod m receiver args >>= Act.ofForeign : Act σ _).SparesHost :=
  .bind (.callMethod m receiver args) .ofForeign

theorem callDiscard (m : Nat) (receiver : Option Address) (args : List Address) :
    (Act.callMethod m receiver args >>= fun a =>
      Functor.discard (Act.ofForeign a) : Act σ Unit).SparesHost :=
  .bind (.callMethod m receiver args) fun a => (ofForeign a).discard

theorem report (e : Log.Event) : (Act.report e : Act σ Unit).SparesHost := .edit fun _ => rfl

theorem recordTiming (name : String) : (Act.recordTiming name : Act σ Unit).SparesHost :=
  .edit fun _ => rfl

theorem count (name : String) (n : Nat) : (Act.count name n : Act σ Unit).SparesHost := by
  refine .bind .state fun s => .bind ?_ fun _ => .edit fun _ => rfl
  cases s.bridge.metrics.add name n with
  | ok metrics => exact .pure metrics
  | error o => exact .abandon _

theorem withCell {v : Value} {f : Address → Act σ α} (hf : ∀ a, (f a).SparesHost) :
    (Act.withCell v f).SparesHost :=
  .bind (.editGet fun _ => rfl) fun _ => .ensuring (hf _) fun _ => rfl

end SparesHost

end Act

open Act

namespace State

theorem host_writeAt (s : State) (a : Address) (os : List Octet) : (s.writeAt a os).host = s.host := by
  cases a <;> rfl

theorem host_storeAt (s : State) (a : Address) (v : Value) : (s.storeAt a v).host = s.host := by
  cases a <;> rfl

end State

/-! ## The engine library -/

namespace Engine

theorem structFactory_sparesHost (info : StructInfo) :
    (structFactory info : Act σ _).SparesHost := by
  refine .bind .state fun s => ?_
  split
  · exact .pure _
  · split
    · exact .pure _
    · exact .bind (.report _) fun _ => .bind (.edit fun _ => rfl) fun _ => .pure _

theorem disconnect_sparesHost (proxy : Address) : (disconnect proxy : Act σ Unit).SparesHost := by
  refine .bind .state fun s => .bind (.callMethod _ _ _) ?_
  rintro (x | a)
  · exact .report _
  · exact .pure _

theorem nativePtr_sparesHost (proxy : Address) : (nativePtr proxy : Act σ _).SparesHost := by
  refine .bind .state fun s => .bind (.callMethod _ _ _) ?_
  rintro (x | _ | boxed)
  · exact .bind (.report _) fun _ => .pure _
  · exact .pure _
  · exact .bind .state fun _ => .bind (.ofPanic _) fun _ => .pure _

theorem withPointer_sparesHost {a : Address} {f : Address → Act σ α} (hf : ∀ a, (f a).SparesHost) :
    (withPointer a f).SparesHost :=
  .withCell hf

theorem create_sparesHost (m : Nat) (host : Address) : (create m host : Act σ _).SparesHost :=
  withPointer_sparesHost fun _ => withPointer_sparesHost fun _ => .callForeign _ _ _

theorem createCollection_sparesHost (p : Property) (host : Address) :
    (createCollection p host : Act σ _).SparesHost :=
  .bind .state fun _ => .bind (.ofPanic _) fun _ => create_sparesHost _ _

theorem createSoftReference_sparesHost (p : Property) (host : Address) :
    (createSoftReference p host : Act σ _).SparesHost :=
  .bind .state fun _ => .bind (.ofPanic _) fun _ => create_sparesHost _ _

theorem writeCollection_sparesHost (p : Property) (host : Address) (collection : Option Address) :
    (writeCollection p host collection : Act σ Unit).SparesHost :=
  .bind .state fun _ => .bind (.ofPanic _) fun _ => withPointer_sparesHost fun _ =>
    withPointer_sparesHost fun _ => .callDiscard _ _ _

theorem writeSoftReference_sparesHost (p : Property) (host : Address) (soft : Option Address) :
    (writeSoftReference p host soft : Act σ Unit).SparesHost :=
  .bind .state fun _ => .bind (.ofPanic _) fun _ => withPointer_sparesHost fun _ =>
    .callDiscard _ _ _

theorem boxStruct_sparesHost (f : StructFactory) (host : Address) :
    (boxStruct f host : Act σ _).SparesHost :=
  withPointer_sparesHost fun _ => .withCell fun _ => .callForeign _ _ _

theorem unboxStruct_sparesHost (f : StructFactory) (host data : Address) :
    (unboxStruct f host data : Act σ Unit).SparesHost :=
  withPointer_sparesHost fun _ => .withCell fun _ => .callDiscard _ _ _

end Engine

/-! ## Identity -/

namespace Identity

theorem bindingFor_sparesHost (classRef : Address) : (bindingFor classRef : Act σ _).SparesHost := by
  refine .bind .state fun s => ?_
  split
  · exact .pure _
  · refine .bind (.ofPanic _) fun info => .bind (.ofPanic _) ?_
    rintro (e | b)
    · exact .bind (.report _) fun _ => .bind (.count _ _) fun _ => .pure _
    · exact .bind (.report _) fun _ => .bind (.edit fun _ => rfl) fun _ => .pure _

theorem construct_sparesHost (b : ProxyBinding) (proxy host : Address) :
    (construct b proxy host : Act σ Unit).SparesHost := by
  have hbefore : (Engine.beforeConstruct proxy host : Act σ Unit).SparesHost :=
    Engine.withPointer_sparesHost fun _ => .bind .state fun _ => .callDiscard _ _ _
  refine .bind hbefore fun _ => .bind (Engine.withPointer_sparesHost fun _ => ?_) fun _ => ?_
  · exact .callDiscard _ _ _
  · exact .bind .state fun _ => .callDiscard _ _ _

theorem proxyFor_sparesHost (host : Address) : (proxyFor host : Act σ _).SparesHost := by
  refine .bind .state fun s => ?_
  split
  · exact .pure _
  refine .bind (.edit fun s => s.host_dropEntry host) fun _ => .bind .state fun _ => ?_
  refine .bind (.ofPanic _) fun classRef => .bind (bindingFor_sparesHost _) fun found => ?_
  refine .bind (.ofLink _) fun b => .bind (.editGet fun s => s.host_instantiate _) ?_
  rintro (_ | proxy)
  · exact .fail _
  refine .bind (.edit fun _ => rfl) fun _ => .bind (.attempt (construct_sparesHost _ _ _)) ?_
  rintro (e | _)
  · exact .bind (Engine.disconnect_sparesHost _) fun _ =>
      .bind (.edit fun s => s.host_dropEntry host) fun _ => .fail _
  · exact .bind (.report _) fun _ => .bind (.count _ _) fun _ => .pure _

theorem severOne_sparesHost (reason : String) (host : Address) :
    (severOne reason host : Act σ _).SparesHost := by
  refine .bind .state fun s => ?_
  split
  · exact .pure _
  refine .bind (.edit fun _ => rfl) fun _ => .bind (.ensuring ?_ fun _ => rfl) fun _ =>
    .bind (.report _) fun _ => .pure _
  split
  · exact Engine.disconnect_sparesHost _
  · exact .pure _

theorem sever_sparesHost (reason : String) (hosts : List Address) :
    (sever reason hosts : Act σ _).SparesHost := by
  refine .bind ?_ fun counts => .bind (.count _ _) fun _ => .pure _
  induction hosts with
  | nil => exact .pure _
  | cons host hosts ih =>
    rw [List.mapM_cons]
    exact .bind (severOne_sparesHost reason host) fun _ => .bind ih fun _ => .pure _

theorem sweep_sparesHost : (sweep : Act σ _).SparesHost := by
  refine .ensuring (.bind .state fun s => .bind (sever_sparesHost _ _) fun _ => ?_) fun _ => rfl
  refine .bind .state fun _ => .bind (.edit fun _ => rfl) fun _ => .bind (.report _) fun _ => ?_
  refine .bind .state fun _ => .bind (.count _ _) fun _ => .bind (.recordTiming _) fun _ => ?_
  exact .bind (.report _) fun _ => .pure _

theorem teardown_sparesHost (root : Address) : (teardown root : Act σ _).SparesHost :=
  .bind .state fun _ => .bind (sever_sparesHost _ _) fun _ => .bind (.report _) fun _ => .pure _

theorem shutdown_sparesHost : (shutdown : Act σ _).SparesHost :=
  .bind .state fun _ => .bind (sever_sparesHost _ _) fun _ => .bind (.report _) fun _ => .pure _

end Identity

/-! ## Crossing -/

namespace Marshaller

theorem proxyOrNull_sparesHost (host : Address) : (proxyOrNull host : Act σ _).SparesHost := by
  unfold proxyOrNull
  split
  · exact Identity.proxyFor_sparesHost _
  · exact .pure _

theorem present_sparesHost (m : Marshaller) (p : Property) (host : Address) (slot : Slot) :
    (m.present p host slot : Act σ _).SparesHost := by
  have hrecord (os : List Octet) : (do
      edit (·.writeAt slot.staging os)
      return slot.staging : Act σ Address).SparesHost :=
    .bind (.edit fun s => s.host_writeAt _ _) fun _ => .pure _
  have hstring (text : String) : (editGet (·.newString text) : Act σ Address).SparesHost :=
    .editGet fun _ => rfl
  refine .bind .state fun s => ?_
  cases m with
  | bool | scalar | enumeration => exact .pure _
  | name => exact .bind (hrecord _) fun _ => .pure _
  | text => exact .bind (hstring _) fun _ => .bind (hrecord _) fun _ => .pure _
  | string => exact .bind (hstring _) fun _ => .pure _
  | object => exact .bind (proxyOrNull_sparesHost _) fun _ => .pure _
  | classRef => exact .bind (hrecord _) fun _ => .pure _
  | softReference => exact .bind (Engine.createSoftReference_sparesHost _ _) fun _ => .pure _
  | struct =>
    refine .bind (.ofPanic _) fun info => .bind (Engine.structFactory_sparesHost _) fun found => ?_
    refine .bind (.ofLink _) fun factory => .bind (Engine.boxStruct_sparesHost _ _) ?_
    rintro (_ | box)
    · exact .abandon _
    · exact .bind .state fun _ => .bind (.ofPanic _) fun _ => .pure _
  | collection => exact .bind (Engine.createCollection_sparesHost _ _) fun _ => .pure _

theorem pass_sparesHost (m : Marshaller) (p : Property) (host : Address) (slot : Slot)
    (byRef : Bool) : (m.pass p host slot byRef : Act σ _).SparesHost := by
  refine .bind (present_sparesHost m p host slot) fun presented => ?_
  cases byRef with
  | false => exact .pure _
  | true =>
    refine .bind (.edit fun s => s.host_writeAt _ _) fun _ => ?_
    dsimp only
    split <;> exact .pure _

theorem stage_sparesHost (m : Marshaller) (p : Property) (host : Address) (slot : Slot)
    (byRef : Bool) : (m.stage p host slot byRef : Act σ _).SparesHost := by
  cases byRef with
  | false => exact pass_sparesHost m p host slot false
  | true =>
    exact .bind (.edit fun s => s.host_storeAt _ _) fun _ => pass_sparesHost m p host slot true

theorem toHost_sparesHost (m : Marshaller) (p : Property) (host foreign : Address) :
    (m.toHost p host foreign : Act σ Unit).SparesHost := by
  have hwrite {f : State → List Octet} :
      (edit fun s => s.writeAt host (f s) : Act σ Unit).SparesHost :=
    .edit fun s => s.host_writeAt _ _
  unfold toHost
  cases m with
  | bool => exact .bind (.ofPanic _) fun _ => .bind (.ofPanic _) fun _ => hwrite
  | scalar | name | classRef => exact .bind (.ofPanic _) fun _ => hwrite
  | enumeration => exact .bind (.ofPanic _) fun _ => .bind (.ofPanic _) fun _ => hwrite
  | text => exact .bind (.ofPanic _) fun _ => .edit fun s => s.host_storeAt _ _
  | string => exact .edit fun s => s.host_storeAt _ _
  | object =>
    dsimp only
    split
    · exact .bind (Engine.nativePtr_sparesHost _) fun _ => hwrite
    · exact .bind (.pure _) fun _ => hwrite
  | softReference => exact Engine.writeSoftReference_sparesHost _ _ _
  | struct =>
    exact .bind (.ofPanic _) fun _ => .bind (Engine.structFactory_sparesHost _) fun _ =>
      .bind (.ofLink _) fun _ => .bind (.ofPanic _) fun _ => Engine.unboxStruct_sparesHost _ _ _
  | collection => exact Engine.writeCollection_sparesHost _ _ _

theorem unwrap_sparesHost (m : Marshaller) (p : Property) (foreign : Address) :
    (m.unwrap p foreign : Act σ _).SparesHost := by
  unfold unwrap
  split
  · exact .pure _
  refine .bind (.ofPanic _) fun object => .bind .state fun s => ?_
  split
  · exact .ofPanic _
  · split
    · exact .abandon _
    · exact .pure _

theorem toForeign_sparesHost (m : Marshaller) (p : Property) (host foreign : Address) :
    (m.toForeign p host foreign : Act σ Unit).SparesHost := by
  refine .bind (.ofPanic _) fun dest => ?_
  have hwrite {f : State → List Octet} :
      (edit fun s => s.writeAt dest (f s) : Act σ Unit).SparesHost :=
    .edit fun s => s.host_writeAt _ _
  cases m with
  | bool | enumeration => exact .bind (.ofPanic _) fun _ => hwrite
  | scalar | name | classRef => exact hwrite
  | text | string => exact .bind .state fun _ => .bind (.editGet fun _ => rfl) fun _ => hwrite
  | object => exact .bind .state fun _ => .bind (proxyOrNull_sparesHost _) fun _ => hwrite
  | softReference | struct | collection => exact .abandon _

theorem copy_sparesHost (m : Marshaller) (p : Property) (host foreign : Address) (d : Direction) :
    (m.copy p host foreign d : Act σ Unit).SparesHost := by
  cases d with
  | hostToForeign => exact toForeign_sparesHost m p host foreign
  | foreignToHost => exact toHost_sparesHost m p host foreign
  | returnToHost => exact .bind (unwrap_sparesHost m p foreign) fun _ => toHost_sparesHost m p host _

end Marshaller

/-! ## Redirected calls -/

namespace Redirection

theorem linked_sparesHost (key : Redirector.Key) (r : Redirector) :
    (linked key r : Act σ _).SparesHost := by
  unfold linked
  split
  · exact .pure _
  · exact .pure _
  · refine .bind .state fun s => .bind (.recordTiming _) fun _ => ?_
    split
    · exact .bind (.report _) fun _ => .bind (.edit fun _ => rfl) fun _ => .pure _
    · exact .bind (.report _) fun _ => .bind (.count _ _) fun _ =>
        .bind (.edit fun _ => rfl) fun _ => .pure _

theorem loadParams_sparesHost (block : Nat) (ps : List Property) (stack : ArgStack) :
    (loadParams block ps stack : Act σ _).SparesHost := by
  induction ps generalizing stack with
  | nil => exact .pure _
  | cons p ps ih =>
    unfold loadParams
    refine .bind ?_ fun place => ?_
    · unfold paramPlace
      split
      · exact .pure _
      · exact .pure _
      · exact .bind (.editGet fun _ => rfl) fun _ => .pure _
    · split
      · exact .bind (ih stack) fun _ => .pure _
      · exact .bind (.ofPanic _) fun _ => .bind (.edit fun s => s.host_storeAt _ _) fun _ =>
          .bind (ih _) fun _ => .pure _

theorem stageArgs_sparesHost (params : List Parameter) (scratch : Nat) (args : List LinkedArg) :
    (stageArgs params scratch args : Act σ _).SparesHost := by
  induction args with
  | nil => exact .pure _
  | cons a as ih =>
    unfold stageArgs
    split
    · exact ih
    · refine .bind (Marshaller.stage_sparesHost _ _ _ _ _) ?_
      rintro ⟨pointer, _ | object⟩
      · exact .bind ih fun _ => .pure _
      · exact .bind (.edit fun s => s.host_root _) fun _ => .bind ih fun _ => .pure _

theorem writeBack_sparesHost (staged : List StagedArg) (i : Nat) (params : List Parameter) :
    (writeBack staged i params : Act σ Unit).SparesHost := by
  induction params generalizing i with
  | nil => exact .pure _
  | cons param params ih =>
    unfold writeBack
    split
    · split
      · exact .bind .state fun _ => .bind (Marshaller.copy_sparesHost _ _ _ _ _) fun _ => ih _
      · exact .bind (.pure ()) fun _ => ih _
    · exact .bind (.pure ()) fun _ => ih _

theorem prepare_sparesHost (function : Function) (l : Linkage) (target : Option Address)
    (params : List Parameter) : (prepare function l target params : Act σ _).SparesHost := by
  refine .bind (.editGet fun _ => rfl) fun scratch => .bind (stageArgs_sparesHost _ _ _) fun _ => ?_
  refine .bind ?_ fun receiver => .pure _
  unfold receiverOf
  split
  · split
    · exact .pure _
    · exact .bind (Identity.proxyFor_sparesHost _) fun _ => .pure _
  · exact .pure _

theorem finish_sparesHost (function : Function) (l : Linkage) (params : List Parameter)
    (staged : List StagedArg) (result : Option Address)
    (answer : Except ForeignException (Option Address)) :
    (finish function l params staged result answer : Act σ Unit).SparesHost := by
  cases answer with
  | error x =>
    refine .bind (.report _) fun _ => .bind (.count _ _) fun _ => .bind (.edit fun s => ?_) fun _ =>
      .fail _
    unfold resetResult
    split
    · exact s.host_storeAt _ _
    · rfl
  | ok returned =>
    refine .bind (writeBack_sparesHost _ _ _) fun _ => ?_
    unfold copyResult
    split
    · exact Marshaller.copy_sparesHost _ _ _ _ _
    · exact .pure _

theorem run_sparesHost (function : Function) (l : Linkage) (m : Nat) (target : Option Address)
    (params : List Parameter) (result : Option Address) :
    (run function l m target params result : Act σ Unit).SparesHost := by
  rw [run_eq]
  exact .bind (prepare_sparesHost _ _ _ _) fun _ => .bind (.callMethod _ _ _) fun _ =>
    finish_sparesHost _ _ _ _ _ _

theorem checkFrame_sparesHost (size align : Nat) :
    (checkFrame size align : Act σ Unit).SparesHost := by
  unfold checkFrame
  split
  · exact .pure _
  · exact .abandon _
  · exact .abandon _

theorem invoke_sparesHost (key : Redirector.Key) (r : Redirector) (target : Option Address)
    (stack : ArgStack) (result : Option Address) :
    (invoke key r target stack result : Act σ _).SparesHost := by
  refine .bind (linked_sparesHost key r) ?_
  rintro (e | ⟨l, m⟩)
  · exact .pure _
  refine .bind (.edit fun _ => rfl) fun _ => .ensuring ?_ fun s => s.host_leave key
  refine .bind .state fun _ => .bind (.report _) fun _ => .bind (.count _ _) fun _ => ?_
  refine .bind (checkFrame_sparesHost _ _) fun _ => .bind (checkFrame_sparesHost _ _) fun _ => ?_
  refine .bind (.editGet fun _ => rfl) fun block => .bind (loadParams_sparesHost _ _ _) fun loaded => ?_
  exact .bind (.attempt (run_sparesHost _ _ _ _ _ _)) fun _ => .pure _

end Redirection

theorem Delegate.execute_sparesHost (d : Delegate) (stack : ArgStack) (result : Option Address) :
    (d.execute stack result : Act σ Bool).SparesHost := by
  unfold execute
  split
  · exact .pure _
  refine .bind .state fun s => .bind (.ofPanic _) ?_
  rintro (_ | ⟨key, r⟩)
  · exact .pure _
  refine .bind (Redirection.invoke_sparesHost _ _ _ _ _) ?_
  rintro ⟨e | _, stack'⟩
  · exact .fail _
  · exact .pure _

theorem Multicast.broadcast_sparesHost (ds : Multicast) (supplied : List ArgStack) :
    (Multicast.broadcast ds supplied : Act σ Nat).SparesHost := by
  induction ds generalizing supplied with
  | nil => exact .pure _
  | cons d ds ih =>
    unfold broadcast
    exact .bind (d.execute_sparesHost _ _) fun _ => .bind (ih _) fun _ => .pure _

/-- The bridge leaves the host alone, apart from what it is asked to change. -/
theorem Request.perform_sparesHost {r : Request} (hr : r.alone? = none) :
    (r.perform : Act σ _).SparesHost := by
  -- Only what is carried out at once can change the host; the cases follow the others through.
  unfold perform
  cases r with
  | call m receiver args => exact .callMethod _ _ _
  | proxy host => exact .attempt (Identity.proxyFor_sparesHost _)
  | hostOf object => exact Engine.nativePtr_sparesHost _
  | sweep => exact Identity.sweep_sparesHost
  | teardown root => exact Identity.teardown_sparesHost _
  | shutdown => exact Identity.shutdown_sparesHost
  | bind classRef => exact Identity.bindingFor_sparesHost _
  | structFactory info => exact Engine.structFactory_sparesHost _
  | link key =>
    refine .bind .state fun s => ?_
    split
    · exact .pure _
    · exact .bind (.bind (Redirection.linked_sparesHost _ _) fun _ => .pure _) fun _ => .pure _
  | invoke key target stack result =>
    refine .bind .state fun s => ?_
    split
    · exact .pure _
    · exact .bind (Redirection.invoke_sparesHost _ _ _ _ _) fun _ => .pure _
  | execute d stack result => exact .attempt (d.execute_sparesHost _ _)
  | broadcast ds supplied => exact .attempt (Multicast.broadcast_sparesHost _ _)
  | pass m p host slot byRef =>
    exact .attempt (.bind (Marshaller.pass_sparesHost _ _ _ _ _) fun _ => .pure _)
  | addArgument m p host slot byRef =>
    refine .attempt (.bind (Marshaller.stage_sparesHost _ _ _ _ _) ?_)
    rintro ⟨pointer, _ | object⟩
    · exact .pure _
    · exact .bind (.editGet fun _ => rfl) fun _ => .pure _
  | copy m p host foreign d => exact .attempt (Marshaller.copy_sparesHost _ _ _ _ _)
  | _ => cases hr

/-- A request is a change that needs no calls, or it has its calls in an order in which they hand the
host on. -/
theorem Request.alone_or_relays (r : Request) (call : Invoker σ) (w : World σ) :
    (∃ f reply, r.alone? = some f ∧
      ∀ call', r.perform call' w = .ok reply { w with state := f w.state }) ∨
    ∃ calls, r.perform.OnlyCalls call w (fun m inv u => (m, inv, u) ∈ calls) ∧
      Relay call w.state.host calls (World.leftBy (r.perform call w)).state.host := by
  cases hf : r.alone? with
  | some f =>
    obtain ⟨reply, hreply⟩ := Request.perform_alone hf w
    exact .inl ⟨f, reply, rfl, hreply⟩
  | none => exact .inr ((Request.perform_sparesHost hf).relays call w)

end TwinHeap
