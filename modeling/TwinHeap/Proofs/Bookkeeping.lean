import TwinHeap.Proofs.Books

/-!
# Bookkeeping — what the operations of the bridge enter in the books

One theorem an operation, in the order in which the operations are defined. Only a redirected call, an
attempt to link and the search for a proxy class enter anything.
-/

namespace TwinHeap

variable {σ α β : Type}

open Act

variable {P : Books → σ → Prop} {call : Invoker σ}

/-! ## The engine library -/

namespace Engine

theorem structFactory_keeps (info : StructInfo) : (structFactory info : Act σ _).Keeps P call := by
  refine .state_bind fun w => ?_
  split
  · exact Keeps.pure _ w
  · split
    · exact Keeps.pure _ w
    · exact (Keeps.report rfl rfl w).bind fun _ =>
        .seq (.edit fun _ => State.books_of_bridge rfl rfl rfl) (.pure _)

theorem withPointer_keeps {a : Address} {f : Address → Act σ α} (hf : ∀ a, (f a).Keeps P call) :
    (withPointer a f).Keeps P call :=
  .withCell hf

variable (hc : call.Keeps P)
include hc

theorem disconnect_keeps (proxy : Address) : (disconnect proxy : Act σ Unit).Keeps P call := by
  refine .state_bind fun w => (Keeps.callMethod hc _ _ _ w).bind ?_
  rintro (x | a)
  · exact .report rfl rfl
  · exact .pure _

theorem nativePtr_keeps (proxy : Address) : (nativePtr proxy : Act σ _).Keeps P call := by
  refine .state_bind fun w => (Keeps.callMethod hc _ _ _ w).bind ?_
  rintro (x | _ | boxed)
  · exact .seq (.report rfl rfl) (.pure _)
  · exact .pure _
  · exact .state_bind fun v => (Keeps.ofPanic _ v).bind fun _ => .pure _

theorem beforeConstruct_keeps (proxy host : Address) :
    (beforeConstruct proxy host : Act σ Unit).Keeps P call :=
  withPointer_keeps fun _ => .state_bind fun w => Keeps.callDiscard hc _ _ _ w

theorem afterConstruct_keeps (proxy : Address) :
    (afterConstruct proxy : Act σ Unit).Keeps P call :=
  .state_bind fun w => Keeps.callDiscard hc _ _ _ w

theorem create_keeps (m : Nat) (host : Address) : (create m host : Act σ _).Keeps P call :=
  withPointer_keeps fun _ => withPointer_keeps fun _ => .callForeign hc _ _ _

theorem createCollection_keeps (p : Property) (host : Address) :
    (createCollection p host : Act σ _).Keeps P call :=
  .state_bind fun w => (Keeps.ofPanic _ w).bind fun _ => create_keeps hc _ _

theorem createSoftReference_keeps (p : Property) (host : Address) :
    (createSoftReference p host : Act σ _).Keeps P call :=
  .state_bind fun w => (Keeps.ofPanic _ w).bind fun _ => create_keeps hc _ _

theorem writeCollection_keeps (p : Property) (host : Address) (collection : Option Address) :
    (writeCollection p host collection : Act σ Unit).Keeps P call :=
  .state_bind fun w => (Keeps.ofPanic _ w).bind fun _ => withPointer_keeps fun _ =>
    withPointer_keeps fun _ => .callDiscard hc _ _ _

theorem writeSoftReference_keeps (p : Property) (host : Address) (soft : Option Address) :
    (writeSoftReference p host soft : Act σ Unit).Keeps P call :=
  .state_bind fun w => (Keeps.ofPanic _ w).bind fun _ => withPointer_keeps fun _ =>
    .callDiscard hc _ _ _

theorem boxStruct_keeps (f : StructFactory) (host : Address) :
    (boxStruct f host : Act σ _).Keeps P call :=
  withPointer_keeps fun _ => .withCell fun _ => .callForeign hc _ _ _

theorem unboxStruct_keeps (f : StructFactory) (host data : Address) :
    (unboxStruct f host data : Act σ Unit).Keeps P call :=
  withPointer_keeps fun _ => .withCell fun _ => .callDiscard hc _ _ _

end Engine

/-! ## Identity -/

namespace Identity

/-- A class that has no proxy class is reported and counted like a function that cannot be
linked. -/
theorem bindingFor_keeps (hrefuse : ∀ b m, P b m → P b.refuse m) (classRef : Address) :
    (bindingFor classRef : Act σ _).Keeps P call := by
  refine .state_bind fun w => ?_
  split
  · exact Keeps.pure _ w
  · refine (Keeps.ofPanic _ w).bind fun info => .bind (.ofPanic _) ?_
    rintro (e | b)
    · exact .refuse hrefuse (.pure _)
    · exact .seq (.report rfl rfl) (.seq (.edit fun _ => State.books_of_bridge rfl rfl rfl) (.pure _))

variable (hc : call.Keeps P)
include hc

theorem construct_keeps (b : ProxyBinding) (proxy host : Address) :
    (construct b proxy host : Act σ Unit).Keeps P call :=
  .seq (Engine.beforeConstruct_keeps hc _ _)
    (.seq (Engine.withPointer_keeps fun _ => .callDiscard hc _ _ _)
      (Engine.afterConstruct_keeps hc _))

theorem proxyFor_keeps (hrefuse : ∀ b m, P b m → P b.refuse m) (host : Address) :
    (proxyFor host : Act σ _).Keeps P call := by
  refine .state_bind fun w => ?_
  split
  · exact Keeps.pure _ w
  refine (Keeps.edit (fun s => s.books_dropEntry host) w).bind fun _ => .state_bind fun v => ?_
  refine (Keeps.ofPanic _ v).bind fun classRef => .bind (bindingFor_keeps hrefuse _) fun found => ?_
  refine .bind (.ofLink _) fun b => .bind (.editGet fun s => s.books_instantiate _) ?_
  rintro (_ | proxy)
  · exact .fail _
  refine .seq (.edit fun s => State.books_of_bridge rfl rfl rfl) ?_
  refine .bind (.attempt (construct_keeps hc _ _ _)) ?_
  rintro (e | _)
  · exact .seq (Engine.disconnect_keeps hc _)
      (.seq (.edit fun s => s.books_dropEntry host) (.fail _))
  · exact .seq (.report rfl rfl) (.seq (.count (by decide) (by decide) _) (.pure _))

theorem severOne_keeps (reason : String) (host : Address) :
    (severOne reason host : Act σ _).Keeps P call := by
  refine .state_bind fun w => ?_
  split
  · exact Keeps.pure _ w
  refine KeepsAt.edit_bind (State.books_of_bridge rfl rfl rfl) (Keeps.seq ?_ ?_ _)
  · refine .ensuring (fun s => State.books_of_bridge rfl rfl rfl) ?_
    split
    · exact Engine.disconnect_keeps hc _
    · exact .pure _
  · exact .seq (.report rfl rfl) (.pure _)

theorem sever_keeps (reason : String) (hosts : List Address) :
    (sever reason hosts : Act σ _).Keeps P call := by
  refine .bind ?_ fun counts => .seq (.count (by decide) (by decide) _) (.pure _)
  induction hosts with
  | nil => exact .pure _
  | cons host hosts ih =>
    rw [List.mapM_cons]
    exact .bind (severOne_keeps hc reason host) fun _ => .bind ih fun _ => .pure _

theorem sweep_keeps : (sweep : Act σ _).Keeps P call := by
  refine .ensuring (fun s => s.books_report rfl rfl) (.state_bind fun w => ?_)
  refine (sever_keeps hc _ _ w).bind fun severed => .state_bind fun v => ?_
  refine KeepsAt.edit_bind (State.books_of_bridge rfl rfl rfl) ?_
  refine Keeps.seq (.report rfl rfl) (.state_bind fun u => ?_) _
  refine (Keeps.count (by decide) (by decide) _ u).bind fun _ => ?_
  exact .seq (.recordTiming (by decide)) (.seq (.report rfl rfl) (.pure _))

theorem teardown_keeps (root : Address) : (teardown root : Act σ _).Keeps P call :=
  .state_bind fun w => (sever_keeps hc _ _ w).bind fun _ => .seq (.report rfl rfl) (.pure _)

theorem shutdown_keeps : (shutdown : Act σ _).Keeps P call :=
  .state_bind fun w => (sever_keeps hc _ _ w).bind fun _ => .seq (.report rfl rfl) (.pure _)

end Identity

/-! ## Crossing -/

namespace Marshaller

variable (hc : call.Keeps P) (hrefuse : ∀ b m, P b m → P b.refuse m)
include hc hrefuse

theorem proxyOrNull_keeps (host : Address) : (proxyOrNull host : Act σ _).Keeps P call := by
  unfold proxyOrNull
  split
  · exact Identity.proxyFor_keeps hc hrefuse _
  · exact .pure _

theorem present_keeps (m : Marshaller) (p : Property) (host : Address) (slot : Slot) :
    (m.present p host slot : Act σ _).Keeps P call := by
  have hrecord (os : List Octet) : (do
      edit (·.writeAt slot.staging os)
      return slot.staging : Act σ Address).Keeps P call :=
    .seq (.edit fun s => s.books_writeAt _ _) (.pure _)
  have hstring (text : String) : (editGet (·.newString text) : Act σ Address).Keeps P call :=
    .editGet fun _ => State.books_of_bridge rfl rfl rfl
  -- Foreign code is called for objects, structs, soft references and collections; all else the bridge
  -- writes on its own.
  refine .state_bind fun w => ?_
  cases m with
  | bool | scalar | enumeration => exact Keeps.pure _ w
  | name => exact (hrecord _ w).bind fun _ => .pure _
  | text => exact (hstring _ w).bind fun _ => .bind (hrecord _) fun _ => .pure _
  | string => exact (hstring _ w).bind fun _ => .pure _
  | object => exact (proxyOrNull_keeps hc hrefuse _ w).bind fun _ => .pure _
  | classRef => exact (hrecord _ w).bind fun _ => .pure _
  | softReference => exact (Engine.createSoftReference_keeps hc _ _ w).bind fun _ => .pure _
  | struct =>
    refine (Keeps.ofPanic _ w).bind fun info => .bind (Engine.structFactory_keeps _) fun found => ?_
    refine .bind (.ofLink _) fun factory => .bind (Engine.boxStruct_keeps hc _ _) ?_
    rintro (_ | box)
    · exact .abandon _
    · exact .state_bind fun v => (Keeps.ofPanic _ v).bind fun _ => .pure _
  | collection => exact (Engine.createCollection_keeps hc _ _ w).bind fun _ => .pure _

theorem pass_keeps (m : Marshaller) (p : Property) (host : Address) (slot : Slot) (byRef : Bool) :
    (m.pass p host slot byRef : Act σ _).Keeps P call := by
  refine .bind (present_keeps hc hrefuse m p host slot) fun presented => ?_
  cases byRef with
  | false => exact .pure _
  | true =>
    refine .seq (.edit fun s => s.books_writeAt _ _) ?_
    dsimp only
    split <;> exact .pure _

theorem stage_keeps (m : Marshaller) (p : Property) (host : Address) (slot : Slot) (byRef : Bool) :
    (m.stage p host slot byRef : Act σ _).Keeps P call := by
  cases byRef with
  | false => exact pass_keeps hc hrefuse m p host slot false
  | true =>
    exact .seq (.edit fun s => s.books_storeAt _ _) (pass_keeps hc hrefuse m p host slot true)

omit hrefuse

theorem toHost_keeps (m : Marshaller) (p : Property) (host foreign : Address) :
    (m.toHost p host foreign : Act σ Unit).Keeps P call := by
  have hwrite {f : State → List Octet} :
      (edit fun s => s.writeAt host (f s) : Act σ Unit).Keeps P call :=
    .edit fun s => s.books_writeAt _ _
  unfold toHost
  cases m with
  | bool => exact .bind (.ofPanic _) fun _ => .bind (.ofPanic _) fun _ => hwrite
  | scalar | name | classRef => exact .bind (.ofPanic _) fun _ => hwrite
  | enumeration => exact .bind (.ofPanic _) fun _ => .bind (.ofPanic _) fun _ => hwrite
  | text => exact .bind (.ofPanic _) fun _ => .edit fun s => s.books_storeAt _ _
  | string => exact .edit fun s => s.books_storeAt _ _
  | object =>
    dsimp only
    split
    · exact .bind (Engine.nativePtr_keeps hc _) fun _ => hwrite
    · exact .bind (.pure _) fun _ => hwrite
  | softReference => exact Engine.writeSoftReference_keeps hc _ _ _
  | struct =>
    exact .bind (.ofPanic _) fun _ => .bind (Engine.structFactory_keeps _) fun _ =>
      .bind (.ofLink _) fun _ => .bind (.ofPanic _) fun _ => Engine.unboxStruct_keeps hc _ _ _
  | collection => exact Engine.writeCollection_keeps hc _ _ _

omit hc in
theorem unwrap_keeps (m : Marshaller) (p : Property) (foreign : Address) :
    (m.unwrap p foreign : Act σ _).Keeps P call := by
  unfold unwrap
  split
  · exact .pure _
  refine .bind (.ofPanic _) fun object => .state_bind fun w => ?_
  split
  · exact Keeps.ofPanic _ w
  · split
    · exact Keeps.abandon _ w
    · exact Keeps.pure _ w

include hrefuse

theorem toForeign_keeps (m : Marshaller) (p : Property) (host foreign : Address) :
    (m.toForeign p host foreign : Act σ Unit).Keeps P call := by
  refine .bind (.ofPanic _) fun dest => ?_
  have hwrite {f : State → List Octet} :
      (edit fun s => s.writeAt dest (f s) : Act σ Unit).Keeps P call :=
    .edit fun s => s.books_writeAt _ _
  cases m with
  | bool | enumeration => exact .bind (.ofPanic _) fun _ => hwrite
  | scalar | name | classRef => exact hwrite
  | text | string =>
    exact .state_bind fun w => (Keeps.editGet (fun _ => State.books_of_bridge rfl rfl rfl) w).bind
      fun _ => hwrite
  | object =>
    exact .state_bind fun w => (proxyOrNull_keeps hc hrefuse _ w).bind fun _ => hwrite
  | softReference | struct | collection => exact .abandon _

theorem copy_keeps (m : Marshaller) (p : Property) (host foreign : Address) (d : Direction) :
    (m.copy p host foreign d : Act σ Unit).Keeps P call := by
  cases d with
  | hostToForeign => exact toForeign_keeps hc hrefuse m p host foreign
  | foreignToHost => exact toHost_keeps hc m p host foreign
  | returnToHost => exact .bind (unwrap_keeps m p foreign) fun _ => toHost_keeps hc m p host _

end Marshaller

/-! ## Linking -/

namespace Redirection

variable {key : Redirector.Key} {r : Redirector} {w : World σ}

theorem linked_of_failed {e : LinkError} (h : r.binding = .failed e) :
    (linked key r : Act σ _) call w = .ok (.error e) w := by
  unfold linked
  rw [h]
  rfl

theorem linked_of_linked {l : Linkage} {m : Nat} (h : r.binding = .linked l m) :
    (linked key r : Act σ _) call w = .ok (.ok (l, m)) w := by
  unfold linked
  rw [h]
  rfl

/-- The first time that a function is asked for, it is linked. -/
theorem linked_of_resolved (h : r.binding = .unbound) {l : Linkage} {m : Nat}
    (hres : r.resolve w.state.bridge.registry w.state.foreign = .ok (l, m)) :
    (linked key r : Act σ _) call w = .ok (.ok (l, m)) { w with
      state := (w.state.timed.report (.functionLinked r.function.qualifiedName
        r.method.signature.render l.args.length l.scratchSize)).settle key (.linked l m) } := by
  unfold linked
  rw [h]
  dsimp only
  rw [Act.state_bind, hres]
  rfl

/-- A failure is reported and counted when the function is first asked for. -/
theorem linked_of_unresolved (h : r.binding = .unbound) {e : LinkError}
    (hres : r.resolve w.state.bridge.registry w.state.foreign = .error e) {metrics : Metrics}
    (hadd : w.state.timed.bridge.metrics.add Counter.linkFailures 1 = .ok metrics) :
    (linked key r : Act σ _) call w = .ok (.error e) { w with
      state := ((w.state.timed.report (.linkFailure r.function.qualifiedName e.message)).withMetrics
        metrics).settle key (.failed e) } := by
  have hcount : (Act.count Counter.linkFailures 1 : Act σ Unit) call { w with
      state := w.state.timed.report (.linkFailure r.function.qualifiedName e.message) } = _ :=
    Act.count_of_ok hadd
  have hsettle := Act.bind_of_ok (f := fun _ => do
    Act.edit (·.settle key (.failed e))
    return (.error e : Except LinkError (Linkage × Nat))) hcount
  unfold linked
  rw [h]
  dsimp only
  rw [Act.state_bind, hres]
  exact hsettle

/-- A failure that cannot be counted is not remembered. -/
theorem linked_of_uncounted (h : r.binding = .unbound) {e : LinkError}
    (hres : r.resolve w.state.bridge.registry w.state.foreign = .error e) {o : Overflow}
    (hadd : w.state.timed.bridge.metrics.add Counter.linkFailures 1 = .error o) :
    (linked key r : Act σ _) call w = .error (.panic (.overflow o)) { w with
      state := w.state.timed.report (.linkFailure r.function.qualifiedName e.message) } := by
  have hcount : (Act.count Counter.linkFailures 1 : Act σ Unit) call { w with
      state := w.state.timed.report (.linkFailure r.function.qualifiedName e.message) } = _ :=
    Act.count_of_error hadd
  have hsettle := Act.bind_of_error (f := fun _ => do
    Act.edit (·.settle key (.failed e))
    return (.error e : Except LinkError (Linkage × Nat))) hcount
  unfold linked
  rw [h]
  dsimp only
  rw [Act.state_bind, hres]
  exact hsettle

/-! ## Redirected calls -/

variable (hlast : Books.Lasts P)
include hlast

/-- An attempt to link is on record, and so is what came of it. -/
theorem linked_keepsAt (hr : w.state.redirector? key = some r) :
    (linked key r : Act σ _).KeepsAt P call w := by
  intro hw
  cases hb : r.binding with
  | linked l m => exact Meets.of_ok (fun _ => linked_of_linked hb) hw
  | failed e => exact Meets.of_ok (fun _ => linked_of_failed hb) hw
  | unbound =>
    have hget : w.state.books.bindings.get? key = some .unbound := hb ▸ State.get?_books hr
    cases hres : r.resolve w.state.bridge.registry w.state.foreign with
    | ok resolved =>
      obtain ⟨l, m⟩ := resolved
      refine Meets.of_ok (fun _ => linked_of_resolved hb hres) ?_
      show P (State.settle _ key _).books w.memory
      rw [State.books_settle, State.books_report _ rfl rfl, State.books_timed]
      exact hlast _ _ _ hw (.link hget l m)
    | error e =>
      -- A failure is counted before it is settled: where the counter is full the attempt ends there.
      cases hadd : w.state.timed.bridge.metrics.add Counter.linkFailures 1 with
      | ok metrics =>
        refine Meets.of_ok (fun _ => linked_of_unresolved hb hres hadd) ?_
        show P (State.settle _ key _).books w.memory
        rw [State.books_settle, State.books_refuse_of_ok hadd, State.books_timed]
        exact hlast _ _ _ hw (.fail hget e)
      | error o =>
        refine Meets.of_error (fun _ => linked_of_uncounted hb hres hadd) fun _ => ?_
        show P (State.report _ _).books w.memory
        rw [State.books_refuse_of_error hadd, State.books_timed]
        have hfull : wordModulus ≤ w.state.timed.books.failures + 1 := Metrics.full_of_add hadd
        rw [State.books_timed] at hfull
        exact hlast _ _ _ hw (.overflow hget hfull)

theorem link_keepsAt (hr : w.state.redirector? key = some r) :
    (link key r : Act σ _).KeepsAt P call w :=
  (linked_keepsAt hlast hr).bind fun _ => .pure _

omit hlast

theorem paramPlace_keeps (block : Nat) (p : Property) :
    (paramPlace block p : Act σ _).Keeps P call := by
  unfold paramPlace
  split
  · exact .pure _
  · exact .pure _
  · exact .bind (.editGet fun s => s.books_frameCell _) fun _ => .pure _

theorem loadParams_keeps (block : Nat) (ps : List Property) (stack : ArgStack) :
    (loadParams block ps stack : Act σ _).Keeps P call := by
  induction ps generalizing stack with
  | nil => exact .pure _
  | cons p ps ih =>
    unfold loadParams
    refine .bind (paramPlace_keeps _ _) fun place => ?_
    split
    · exact .bind (ih stack) fun _ => .pure _
    · exact .bind (.ofPanic _) fun _ => .seq (.edit fun s => s.books_storeAt _ _)
        (.bind (ih _) fun _ => .pure _)

theorem checkFrame_keeps (size align : Nat) : (checkFrame size align : Act σ Unit).Keeps P call := by
  unfold checkFrame
  split
  · exact .pure _
  · exact .abandon _
  · exact .abandon _

variable (hc : call.Keeps P) (hrefuse : ∀ b m, P b m → P b.refuse m)
include hc hrefuse

theorem stageArgs_keeps (params : List Parameter) (scratch : Nat) (args : List LinkedArg) :
    (stageArgs params scratch args : Act σ _).Keeps P call := by
  induction args with
  | nil => exact .pure _
  | cons a as ih =>
    unfold stageArgs
    split
    · exact ih
    · refine .bind (Marshaller.stage_keeps hc hrefuse _ _ _ _ _) ?_
      rintro ⟨pointer, _ | object⟩
      · exact .bind ih fun _ => .pure _
      · exact .seq (.edit fun s => s.books_root _) (.bind ih fun _ => .pure _)

theorem writeBack_keeps (staged : List StagedArg) (i : Nat) (params : List Parameter) :
    (writeBack staged i params : Act σ Unit).Keeps P call := by
  induction params generalizing i with
  | nil => exact .pure _
  | cons param params ih =>
    unfold writeBack
    split
    · split
      · exact .state_bind fun w => (Marshaller.copy_keeps hc hrefuse _ _ _ _ _ w).bind fun _ => ih _
      · exact .bind (.pure ()) fun _ => ih _
    · exact .bind (.pure ()) fun _ => ih _

theorem receiverOf_keeps (function : Function) (target : Option Address) :
    (receiverOf function target : Act σ _).Keeps P call := by
  unfold receiverOf
  split
  · split
    · exact .pure _
    · exact (Identity.proxyFor_keeps hc hrefuse _).map _
  · exact .pure _

theorem prepare_keeps (function : Function) (l : Linkage) (target : Option Address)
    (params : List Parameter) : (prepare function l target params : Act σ _).Keeps P call :=
  .bind (.editGet fun s => s.books_frameCell _) fun _ =>
    .bind (stageArgs_keeps hc hrefuse _ _ _) fun _ =>
      .bind (receiverOf_keeps hc hrefuse _ _) fun _ => .pure _

theorem finish_keeps (function : Function) (l : Linkage) (params : List Parameter)
    (staged : List StagedArg) (result : Option Address)
    (answer : Except ForeignException (Option Address)) :
    (finish function l params staged result answer : Act σ Unit).Keeps P call := by
  cases answer with
  | error x =>
    refine .seq (.report rfl rfl) (.seq (.count (by decide) (by decide) _) (.seq (.edit fun s => ?_)
      (.fail _)))
    unfold resetResult
    split
    · exact s.books_storeAt _ _
    · rfl
  | ok returned =>
    refine .seq (writeBack_keeps hc hrefuse _ _ _) ?_
    unfold copyResult
    split
    · exact Marshaller.copy_keeps hc hrefuse _ _ _ _ _
    · exact .pure _

theorem run_keeps (function : Function) (l : Linkage) (m : Nat) (target : Option Address)
    (params : List Parameter) (result : Option Address) :
    (run function l m target params result : Act σ Unit).Keeps P call := by
  rw [run_eq]
  exact .bind (prepare_keeps hc hrefuse _ _ _ _) fun _ => .bind (.callMethod hc _ _ _)
    fun _ => finish_keeps hc hrefuse _ _ _ _ _ _

omit hc hrefuse in
/-- A call is on record before its parameters are loaded. -/
theorem load_yields (key : Redirector.Key) (r : Redirector) (l : Linkage) (stack : ArgStack)
    (hw : P w.state.books.enter w.memory) :
    (load key r l stack : Act σ _).Yields P call w := by
  have hrest : Act.Keeps (do
      checkFrame r.function.block.size r.function.block.align
      checkFrame l.scratchSize addressSize
      let block ← editGet (·.frameCell (.plain []))
      loadParams block r.function.params stack : Act σ _) P call :=
    .seq (checkFrame_keeps _ _) (.seq (checkFrame_keeps _ _)
      (.bind (.editGet fun s => s.books_frameCell _) fun _ => loadParams_keeps _ _ _))
  exact Meets.state_bind (Keeps.reportCount_yields (f := fun _ => _) (fun _ _ => State.books_enter_of_ok)
    (fun _ _ => State.books_enter_of_error) hrest hw)

/-- The part of a call that comes after its function was found to be linked. -/
def serve (key : Redirector.Key) (r : Redirector) (l : Linkage) (m : Nat) (target : Option Address)
    (stack : ArgStack) (result : Option Address) : Act σ (Except BridgeError Unit × ArgStack) := do
  edit (·.enter key)
  ensuring (·.leave key) do
    let (params, rest) ← load key r l stack
    let outcome ← attempt (run r.function l m target params result)
    return (outcome, rest)

/-- A call is on record once, however it ends. -/
theorem serve_yields (key : Redirector.Key) (r : Redirector) (l : Linkage) (m : Nat)
    (target : Option Address) (stack : ArgStack) (result : Option Address)
    (hw : P w.state.books.enter w.memory) :
    (serve key r l m target stack result : Act σ _).Yields P call w := by
  refine Meets.bind (.edit (Q := fun _ v => v = { w with state := w.state.enter key }) rfl) ?_
  rintro _ _ - rfl
  have hleave (v : World σ) (hv : v.Records P) :
      ({ v with state := v.state.leave key } : World σ).Records P := by
    show P (v.state.leave key).books v.memory
    rw [State.books_leave]
    exact hv
  refine Meets.ensuring (Meets.mono (Q := fun _ v => v.Records P)
    (E := fun f v => f ≠ .exhausted → v.Records P) ?_ (fun _ _ _ h => h) (fun _ => hleave)
    fun _ v hv hf => hleave v (hv hf))
  refine Meets.bind (load_yields key r l stack ?_) fun loaded v _ hv => ?_
  · show P (w.state.enter key).books.enter w.memory
    rw [State.books_enter]
    exact hw
  · exact Keeps.bind (.attempt (run_keeps hc hrefuse _ _ _ _ _ _)) (fun _ => .pure _) v hv

omit hc hrefuse

theorem invoke_keepsAt (hlast : Books.Lasts P) (hc : call.Keeps P)
    (hr : w.state.redirector? key = some r) (target : Option Address) (stack : ArgStack)
    (result : Option Address) : (invoke key r target stack result : Act σ _).KeepsAt P call w := by
  rw [invoke_eq]
  refine (linked_keepsAt hlast hr).bind ?_
  rintro (e | ⟨l, m⟩)
  · exact .pure _
  · exact fun v hv => serve_yields hc (fun _ _ hb => hlast _ _ _ hb .refuse) key r l m target stack
      result (hlast _ _ _ hv .enter)

end Redirection

variable (hlast : Books.Lasts P) (hc : call.Keeps P)
include hlast hc

theorem Delegate.execute_keeps (d : Delegate) (stack : ArgStack) (result : Option Address) :
    (d.execute stack result : Act σ Bool).Keeps P call := by
  unfold execute
  split
  · exact .pure _
  refine .state_bind fun w => .ofPanic_bind ?_
  rintro (_ | ⟨key, r⟩) hd
  · exact Keeps.pure _ w
  refine (Redirection.invoke_keepsAt hlast hc (State.redirector?_of_resolveDelegate hd) _ _ _).bind ?_
  rintro ⟨e | _, stack'⟩
  · exact .fail _
  · exact .pure _

theorem Multicast.broadcast_keeps (ds : Multicast) (supplied : List ArgStack) :
    (Multicast.broadcast ds supplied : Act σ Nat).Keeps P call := by
  induction ds generalizing supplied with
  | nil => exact .pure _
  | cons d ds ih =>
    unfold broadcast
    exact .bind (d.execute_keeps hlast hc _ _) fun _ => .bind (ih _) fun _ => .pure _

/-- Whatever is asked for, a property of the books that lasts is kept. -/
theorem Request.perform_keeps (r : Request) : (r.perform : Act σ _).Keeps P call := by
  have hrefuse (b : Books) (m : σ) (hb : P b m) : P b.refuse m := hlast _ _ _ hb .refuse
  have answer {α : Type} {f : State → α × State} (hf : ∀ s, ∃ g, r.alone? = some g ∧ g s = (f s).2)
      (hr : ∀ function method, r ≠ .redirect function method) : (Act.editGet f).Keeps P call := by
    refine .editGet fun s => ?_
    obtain ⟨g, hg, heq⟩ := hf s
    exact heq ▸ (Request.outcome hg s).books hr
  have change {f : State → State} (hf : r.alone? = some f)
      (hr : ∀ function method, r ≠ .redirect function method) : (Act.edit f).Keeps P call :=
    .edit fun s => (Request.outcome hf s).books hr
  -- Of the requests that call nobody only a registration is entered in the books.
  cases r with
  | defineClass | spawn | intern | defineType | allocate | allot | instantiate | hold | setRooted =>
    unfold perform
    exact answer (fun _ => ⟨_, rfl, rfl⟩) fun _ _ h => by cases h
  | setReachable | discard | store | write => exact change rfl fun _ _ h => by cases h
  | setNative | collect | regrip | letGo => exact change rfl fun _ _ h => by cases h
  | redirect function method =>
    intro w hw
    refine Meets.editGet (f := (·.redirect function method)) ?_
    show P (w.state.redirect function method).2.books w.memory
    obtain h | ⟨hnone, h⟩ := w.state.books_redirect function method
    · rw [h]
      exact hw
    · rw [h]
      exact hlast _ _ _ hw (.register hnone)
  | call m receiver args => exact .callMethod hc _ _ _
  | proxy host => exact .attempt (Identity.proxyFor_keeps hc hrefuse _)
  | hostOf object => exact Engine.nativePtr_keeps hc _
  | sweep => exact Identity.sweep_keeps hc
  | teardown root => exact Identity.teardown_keeps hc _
  | shutdown => exact Identity.shutdown_keeps hc
  | bind classRef => exact Identity.bindingFor_keeps hrefuse _
  | structFactory info => exact Engine.structFactory_keeps _
  | link key =>
    refine .state_bind fun w => ?_
    split
    · exact Keeps.pure _ w
    · exact (Redirection.link_keepsAt hlast ‹_›).bind fun _ => .pure _
  | invoke key target stack result =>
    refine .state_bind fun w => ?_
    split
    · exact Keeps.pure _ w
    · exact (Redirection.invoke_keepsAt hlast hc ‹_› _ _ _).bind fun _ => .pure _
  | execute d stack result => exact .attempt (d.execute_keeps hlast hc _ _)
  | broadcast ds supplied => exact .attempt (Multicast.broadcast_keeps hlast hc _ _)
  | pass m p host slot byRef =>
    exact .attempt (.bind (Marshaller.pass_keeps hc hrefuse _ _ _ _ _) fun _ => .pure _)
  | addArgument m p host slot byRef =>
    refine .attempt (.bind (Marshaller.stage_keeps hc hrefuse _ _ _ _ _) ?_)
    rintro ⟨pointer, _ | object⟩
    · exact .pure _
    · exact .bind (.editGet fun s => State.books_of_bridge rfl rfl rfl) fun _ => .pure _
  | copy m p host foreign d => exact .attempt (Marshaller.copy_keeps hc hrefuse _ _ _ _ _)

end TwinHeap
