import TwinHeap.Proofs.Moves

/-!
# Obedience — the operations of the engine library and of identity keep every law

One theorem an operation, in the order in which the operations are defined. The two operations that
owe more than cells are the making of a proxy (`Identity.proxyFor_obeys`) and the removal of an entry
(`Identity.severOne_obeys`).
-/

namespace TwinHeap

variable {σ α β : Type}

/-! ## The engine library -/

namespace Engine

open Act

variable {L : Law σ} {r : List Owed} {w : World σ}

theorem withPointer_moves {sit : Situation} {x y z : List Owed} {a : Address}
    {act : Address → Act σ α}
    (h : (act (.ofCell w.state.memory.next)).Moves L sit r (.cell w.state.memory.next :: x)
      (.cell w.state.memory.next :: y) (.cell w.state.memory.next :: z)
      { w with state := (w.state.allot (.plain a.octets)).2 } fun _ _ => True) :
    (withPointer a act).Moves L sit r x y z w fun _ _ => True :=
  .withCell h

/-- A proxy is disconnected when its entry went, or when its construction failed. -/
theorem disconnect_moves {sit : Situation} {x y : List Owed} {proxy : Address}
    (hr : Reason L.toTerms (x ++ r) w.state w.state.bridge.helpers.disconnect ⟨some proxy, []⟩
      (y ++ r) (y ++ r)) (hx : sit.Fits x) :
    (disconnect proxy : Act σ Unit).Moves L sit r x y y w fun _ _ => True := by
  unfold disconnect
  refine .state_bind (.bind (.callMethod hr hx (.inr (.inl rfl))) ?_)
  rintro (e | a) v - -
  · exact (report_moves _).mono fun _ _ _ => trivial
  · exact .pure trivial

theorem nativePtr_obeys (proxy : Address) :
    (nativePtr proxy : Act σ _).Obeys L .plain r w := by
  unfold nativePtr
  refine .of_ready fun hready => .state_bind (.bind (.callMethod (y := []) (.nativePtr hready)
    ⟨rfl, rfl, rfl⟩ (.inl rfl)) ?_)
  rintro (e | _ | boxed) v - -
  · exact .bind (report_moves _) fun _ _ _ _ => .pure trivial
  · exact .pure trivial
  · exact .state_bind (.ofPanic_bind fun _ _ => .pure trivial)

/-- A new proxy is told its host object. -/
theorem beforeConstruct_moves {host proxy : Address} (hf : w.state.findProxy host = some proxy)
    (hn : w.state.heap.nativeOf proxy = some .null) :
    (beforeConstruct proxy host : Act σ Unit).Moves L .plain r [.making host proxy .raw]
      [.making host proxy .told] [.making host proxy .broken] w fun _ _ => True := by
  unfold beforeConstruct
  refine withPointer_moves (.state_bind (.callMethod_discard (.connect ?_ hf hn) ⟨rfl, rfl, rfl⟩
    (.inr (.inr rfl))))
  simp [State.allot, Memory.allot, Memory.get]

theorem afterConstruct_moves {host proxy : Address} :
    (afterConstruct proxy : Act σ Unit).Moves L .plain r [.making host proxy .told]
      [.making host proxy .told] [.making host proxy .broken] w fun _ _ => True := by
  unfold afterConstruct
  exact .state_bind (.callMethod_discard .complete ⟨rfl, rfl, rfl⟩ (.inl rfl))

/-- A call of the factory class. -/
theorem callFactory_moves {x : List Owed} {m : Nat} {args : List Address}
    (hm : m ∈ w.state.bridge.helpers.ofFactory) (hx : Situation.plain.Fits x)
    (hs : x.countP Owed.isOpen = 0) (hk : x.countP Owed.isMaking = 0) :
    (callMethod m none args : Act σ _).Moves L .plain r x x x w fun _ _ => True :=
  .of_ready fun hready => .callMethod (.factory (L.ready_append hready hk) hm) hx (.inl hs)

theorem create_obeys {m : Nat} (hm : m ∈ w.state.bridge.helpers.ofFactory) (host : Address) :
    (create m host : Act σ _).Obeys L .plain r w := by
  unfold create
  refine withPointer_moves (withPointer_moves (.bind (callFactory_moves hm ⟨rfl, rfl, rfl⟩ rfl rfl) ?_))
  exact fun _ _ _ _ => .ofForeign fun _ _ => trivial

theorem createCollection_obeys (p : Property) (host : Address) :
    (createCollection p host : Act σ _).Obeys L .plain r w := by
  unfold createCollection
  refine .state_bind (.ofPanic_bind ?_)
  rintro ⟨make, write⟩ h
  exact create_obeys (Helpers.mem_ofFactory_of_collection h).1 host

theorem createSoftReference_obeys (p : Property) (host : Address) :
    (createSoftReference p host : Act σ _).Obeys L .plain r w := by
  unfold createSoftReference
  refine .state_bind (.ofPanic_bind ?_)
  rintro ⟨make, write⟩ h
  exact create_obeys (Helpers.mem_ofFactory_of_softReference h).1 host

theorem writeCollection_obeys (p : Property) (host : Address) (collection : Option Address) :
    (writeCollection p host collection : Act σ _).Obeys L .plain r w := by
  unfold writeCollection
  refine .state_bind (.ofPanic_bind ?_)
  rintro ⟨make, write⟩ h
  have hw := (Helpers.mem_ofFactory_of_collection h).2
  refine withPointer_moves (withPointer_moves (.bind (callFactory_moves hw ⟨rfl, rfl, rfl⟩ rfl rfl) ?_))
  exact fun _ _ _ _ => .discard_ofForeign

theorem writeSoftReference_obeys (p : Property) (host : Address) (soft : Option Address) :
    (writeSoftReference p host soft : Act σ _).Obeys L .plain r w := by
  unfold writeSoftReference
  refine .state_bind (.ofPanic_bind ?_)
  rintro ⟨make, write⟩ h
  have hw := (Helpers.mem_ofFactory_of_softReference h).2
  refine withPointer_moves (.bind (callFactory_moves hw ⟨rfl, rfl, rfl⟩ rfl rfl) ?_)
  exact fun _ _ _ _ => .discard_ofForeign

/-- The boxing methods that are found are remembered. -/
theorem structFactory_moves (info : StructInfo) {sit : Situation} {x z : List Owed} :
    (structFactory info : Act σ _).Moves L sit r x x z w fun a v => ∀ f, a = .ok f →
      v.state.bridge.factories.get? info.fullName = some f := by
  unfold structFactory
  refine .state_bind ?_
  split
  · rename_i f hf
    exact .pure fun g hg => by cases hg; exact hf
  · rename_i hn
    split
    · exact .pure fun g hg => by cases hg
    · rename_i f hf
      refine .bind (report_moves _) ?_
      rintro _ _ - ⟨journal, metrics, rfl⟩
      refine .edit_bind (.meetStruct hf hn) (.pure ?_)
      rintro g ⟨⟩
      simp

theorem boxStruct_obeys {name : String} {f : StructFactory} (host : Address)
    (hf : w.state.bridge.factories.get? name = some f) :
    (boxStruct f host : Act σ _).Obeys L .plain r w := by
  unfold boxStruct
  refine withPointer_moves (.withCell (.of_ready fun hready => .bind (.callMethod
    (.box (L.ready_append hready rfl) hf (.inl rfl)) ⟨rfl, rfl, rfl⟩ (.inl rfl)) ?_))
  exact fun _ _ _ _ => .ofForeign fun _ _ => trivial

theorem unboxStruct_obeys {name : String} {f : StructFactory} (host data : Address)
    (hf : w.state.bridge.factories.get? name = some f) :
    (unboxStruct f host data : Act σ _).Obeys L .plain r w := by
  unfold unboxStruct
  refine withPointer_moves (.withCell (.of_ready fun hready => .bind (.callMethod
    (.box (L.ready_append hready rfl) hf (.inr rfl)) ⟨rfl, rfl, rfl⟩ (.inl rfl)) ?_))
  exact fun _ _ _ _ => .discard_ofForeign

end Engine

/-! ## Identity -/

/-- As far as the law is concerned, any host object may be given a proxy. -/
def Law.MakesProxies (L : Law σ) : Prop :=
  ∀ host r w, (Identity.proxyFor host : Act σ Address).Obeys L .plain r w

namespace State

/-- The objects with an entry that the host no longer reaches. -/
def unreached (s : State) : List Address :=
  s.bridge.entries.keys.filter fun a => !s.host.isReachable a

/-- The objects with an entry that `root` owns, itself included. -/
def owned (s : State) (root : Address) : List Address :=
  s.bridge.entries.keys.filter fun a => s.host.isInScope a root

end State

namespace Identity

open Act

variable {L : Law σ} {r : List Owed} {w : World σ}

/-- A binding that is found is remembered; the entries, the heap and the host stay as they are. -/
theorem bindingFor_moves (classRef : Address) {sit : Situation} {x : List Owed} :
    (bindingFor classRef : Act σ _).Moves L sit r x x x w fun a v =>
      (∀ b, a = .ok b → v.state.bridge.bindings.get? classRef = some b) ∧
        v.state.bridge.entries = w.state.bridge.entries ∧ v.state.host = w.state.host ∧
        v.state.heap = w.state.heap := by
  unfold bindingFor
  refine .state_bind ?_
  split
  · rename_i b hb
    exact .pure ⟨fun _ hc => by cases hc; exact hb, rfl, rfl, rfl⟩
  · rename_i hn
    refine .ofPanic_bind fun info _ => .ofPanic_bind ?_
    rintro (e | b) hres
    · refine .bind (report_moves _) ?_
      rintro _ _ - ⟨journal, metrics, rfl⟩
      refine .bind (count_moves _ _) ?_
      rintro _ _ - ⟨journal, metrics, rfl⟩
      exact .pure ⟨by rintro _ ⟨⟩, rfl, rfl, rfl⟩
    · refine .bind (report_moves _) ?_
      rintro _ _ - ⟨journal, metrics, rfl⟩
      refine .edit_bind (.resolve hres hn) (.pure ⟨?_, rfl, rfl, rfl⟩)
      rintro b' ⟨⟩
      simp

/-- A new proxy is connected and runs its constructor. -/
theorem construct_moves {classRef : Address} {b : ProxyBinding} {host proxy : Address}
    (hb : w.state.bridge.bindings.get? classRef = some b)
    (hf : w.state.findProxy host = some proxy) (hn : w.state.heap.nativeOf proxy = some .null) :
    (construct b proxy host : Act σ Unit).Moves L .plain r [.making host proxy .raw]
      [.making host proxy .told] [.making host proxy .broken] w fun _ _ => True := by
  unfold construct
  refine .seq (Engine.beforeConstruct_moves hf hn) fun _ v hg => ?_
  refine .seq (y := [.making host proxy .told]) (Engine.withPointer_moves ?_)
    fun _ _ _ => Engine.afterConstruct_moves
  refine .callMethod_discard (.construct (hg.binding _ _ hb) ?_) ⟨rfl, rfl, rfl⟩ (.inl rfl)
  simp [State.allot, Memory.allot, Memory.get]

/-- Only the handle of the entry goes with it. -/
theorem objects_dropEntry (s : State) (host : Address) :
    (s.dropEntry host).heap.objects = s.heap.objects ∧
      (s.dropEntry host).heap.nextObject = s.heap.nextObject := by
  unfold State.dropEntry
  split
  · exact ⟨rfl, rfl⟩
  · rename_i g _
    obtain ⟨_ | k, st⟩ := g <;> exact ⟨rfl, rfl⟩

theorem get?_dropEntry_self (s : State) (host : Address) :
    (s.dropEntry host).bridge.entries.get? host = none := by
  unfold State.dropEntry
  split
  · assumption
  · simp

/-- An instance that becomes a proxy is made and entered at once. -/
theorem instantiate_addEntry (s : State) (host : Address) {type : Nat}
    (ht : s.foreign.isType type = true) :
    (s.instantiate type).1 = some (.foreign s.heap.nextObject) ∧
      (s.instantiate type).2.addEntry host (.foreign s.heap.nextObject) = s.addProxy host type := by
  unfold State.addProxy
  refine ⟨?_, rfl⟩
  rw [State.instantiate_of_isType ht]

/-- A new proxy is found, and stands for nothing yet. -/
theorem findProxy_addProxy (s : State) (host : Address) {type : Nat}
    (ht : s.foreign.isType type = true) :
    (s.addProxy host type).findProxy host = some (.foreign s.heap.nextObject) ∧
      (s.addProxy host type).heap.nativeOf (.foreign s.heap.nextObject) = some .null := by
  unfold State.addProxy State.instantiate
  rw [if_pos ht]
  unfold State.findProxy State.addEntry Grip.make
  simp [Heap.createHandle, Heap.allocate, Grip.target?, Heap.target?, State.heap, Heap.isAlive,
    Heap.get?, Heap.nativeOf]

/-- The entry of a new proxy holds it strongly. -/
theorem strong_addProxy (s : State) (host : Address) {type : Nat}
    (ht : s.foreign.isType type = true) :
    ∃ g, (s.addProxy host type).bridge.entries.get? host = some g ∧ g.strength = .strong := by
  unfold State.addProxy State.instantiate
  rw [if_pos ht]
  unfold State.addEntry Grip.make
  exact ⟨_, (Table.get?_insert _ _ _ _).trans (if_pos rfl), rfl⟩

theorem host_addProxy (s : State) (host : Address) (type : Nat) :
    (s.addProxy host type).host = s.host := by
  unfold State.addProxy State.instantiate
  split <;> rfl

/-- A host object is entered with a new instance, which is to be its proxy. -/
def enter (host : Address) : Act σ (ProxyBinding × Address) := do
  edit (·.dropEntry host)
  let classRef ← ofPanic ((← state).host.classOf host)
  let binding ← ofLink (← bindingFor classRef)
  match ← editGet (·.instantiate binding.type) with
  | none => fail (.link (.allocationFailed binding.proxyClass))
  | some proxy => do
    edit (·.addEntry host proxy)
    return (binding, proxy)

/-- A new proxy is counted when it was constructed; if it could not be, it is taken back. -/
def conclude (binding : ProxyBinding) (proxy host : Address) :
    Except BridgeError Unit → Act σ Address
  | .ok _ => do
    report (.proxyCreated host binding.proxyClass)
    count Counter.proxiesCreated 1
    return proxy
  | .error e => do
    Engine.disconnect proxy
    edit (·.dropEntry host)
    fail e

/-- An object that has a proxy is answered with it. -/
theorem proxyFor_of_found {host p : Address} (h : w.state.findProxy host = some p)
    (call : Invoker σ) : proxyFor host call w = .ok p w := by
  unfold proxyFor
  rw [state_bind, h]
  rfl

theorem proxyFor_obeys_of_found {host p : Address} (h : w.state.findProxy host = some p) :
    (proxyFor host : Act σ Address).Obeys L .plain r w :=
  .congr (.pure trivial) (proxyFor_of_found h)

/-- A proxy is made in three steps. -/
theorem proxyFor_eq_enter (hn : w.state.findProxy host = none) (call : Invoker σ) :
    proxyFor host call w = (enter host >>= fun made =>
      (construct made.1 made.2 host).attempt >>= conclude made.1 made.2 host) call w := by
  unfold proxyFor enter
  rw [state_bind, hn]
  simp only [bind_assoc]
  refine congrArg (fun act : Act σ Address => act call w) ?_
  refine bind_congr fun _ => bind_congr fun s => bind_congr fun classRef => bind_congr fun found =>
    bind_congr fun b => bind_congr fun made => ?_
  cases made with
  | none => rfl
  | some proxy =>
    simp only [bind_assoc, pure_bind]
    refine bind_congr fun _ => bind_congr fun outcome => ?_
    cases outcome <;> rfl

/-- What is known of a new entry: how the class of the object is bound, and that nothing else has
happened to the objects of the foreign heap. -/
structure Entered (w : World σ) (host : Address) (b : ProxyBinding) (v : World σ) : Prop where
  bound : ∃ classRef, v.state.host.classOf host = .ok classRef ∧
    v.state.bridge.bindings.get? classRef = some b
  opened : ∃ s : State, s.heap.objects = w.state.heap.objects ∧
    s.heap.nextObject = w.state.heap.nextObject ∧ s.foreign.isType b.type = true ∧
    v.state = s.addProxy host b.type

/-- An object without a live proxy is entered with a new one. -/
theorem enter_moves {host : Address} (hmake : L.mayMake host)
    (hnone : w.state.findProxy host = none) :
    (enter host : Act σ _).Moves L .plain r []
      [.making host (.foreign w.state.heap.nextObject) .raw] [] w fun made v =>
        made.2 = .foreign w.state.heap.nextObject ∧ Entered w host made.1 v := by
  unfold enter
  refine .edit_bind (.clear hnone) (.state_bind (.ofPanic_bind fun classRef hclass => ?_))
  refine .bind (bindingFor_moves classRef) ?_
  rintro found u - ⟨hb, hentries, hhost, hheap⟩
  refine .ofLink_bind ?_
  rintro b rfl
  have hb := hb b rfl
  have habsent : u.state.bridge.entries.get? host = none := by
    rw [hentries]
    exact get?_dropEntry_self w.state host
  rw [← hhost] at hclass
  obtain ⟨hobjects, hnext⟩ := objects_dropEntry w.state host
  rw [← hheap] at hobjects hnext
  -- Instances are made only of types that exist.
  cases ht : u.state.foreign.isType b.type with
  | false =>
    exact .editGet_bind_of_eq (State.instantiate_of_not_isType ht) .fail
  | true =>
    obtain ⟨hsome, hadd⟩ := instantiate_addEntry u.state host ht
    rw [← hnext]
    refine .edits_bind (d := [.making host (.foreign u.state.heap.nextObject) .raw])
      (by rw [hsome]) (hadd ▸ Change.make hmake habsent hclass ht) (.pure ⟨rfl, ?_⟩)
    refine ⟨⟨classRef, ?_, ?_⟩, u.state, hobjects, hnext, ht, hadd⟩
    · rw [hadd]
      show (u.state.addProxy host b.type).host.classOf host = _
      rw [host_addProxy, hclass]
    · rw [hadd]
      exact ((u.state.grows_instantiate b.type).trans
        (State.Grows.of_bridge ⟨rfl, rfl, rfl, rfl, rfl, rfl⟩ (Nat.le_refl _))).binding _ _ hb

/-- The new proxy is reported and counted. -/
theorem conclude_moves_ok {host proxy : Address} {b : ProxyBinding} (a : Unit) :
    (conclude b proxy host (.ok a) : Act σ Address).Moves L .plain r [.making host proxy .told] []
      [] w fun _ _ => True := by
  have hmade (s : State) (hbase : L.base <:+ r) :
      Change L.toTerms ([.making host proxy .told] ++ r) s ([] ++ r) s :=
    .made hbase (by decide)
  refine .settle (.settle_ok ?_ hmade) hmade
  refine .bind (report_moves _) fun _ _ _ _ => .bind (count_moves _ _) fun _ _ _ _ => ?_
  exact .pure trivial

/-- The new proxy is disconnected before its entry goes. -/
theorem conclude_moves_error {host proxy : Address} {b : ProxyBinding} (e : BridgeError) :
    (conclude b proxy host (.error e) : Act σ Address).Moves L .plain r
      [.making host proxy .broken] [] [] w fun _ _ => True := by
  have hmade (s : State) (hbase : L.base <:+ r) :
      Change L.toTerms ([.making host proxy .broken] ++ r) s ([] ++ r) s :=
    .made hbase (by decide)
  refine .seq (y := [.making host proxy .broken])
    ((Engine.disconnect_moves .undo ⟨rfl, rfl, rfl⟩).settle hmade) fun _ v _ => ?_
  intro hbase
  exact Moves.edit_bind (d := []) (.unmake hbase) .fail hbase

theorem proxyFor_obeys {host : Address} (hmake : L.mayMake host) :
    (proxyFor host : Act σ Address).Obeys L .plain r w := by
  cases hfind : w.state.findProxy host with
  | some p => exact proxyFor_obeys_of_found hfind
  | none =>
    refine .congr ?_ (proxyFor_eq_enter hfind)
    refine .bind (enter_moves hmake hfind) ?_
    rintro ⟨b, p⟩ v - ⟨rfl, ⟨classRef, -, hb⟩, s, -, hnext, ht, heq⟩
    obtain ⟨hf, hn⟩ := findProxy_addProxy s host ht
    rw [hnext, ← heq] at hf hn
    exact .attempt_bind (construct_moves hb hf hn) (fun a _ _ _ => conclude_moves_ok a)
      (fun e _ _ => conclude_moves_error e) fun _ hbase => .made hbase (by decide)

theorem makesProxies (h : ∀ host, L.mayMake host) : L.MakesProxies :=
  fun host _ _ => proxyFor_obeys (h host)

theorem hostOf_obeys (proxy : Address) : (hostOf proxy : Act σ _).Obeys L .plain r w :=
  Engine.nativePtr_obeys proxy

/-- An entry is removed with its hold kept until its proxy is disconnected. -/
theorem severOne_obeys (reason : String) {host : Address} (hs : L.maySever host) :
    (severOne reason host : Act σ Nat).Obeys L .severing r w := by
  unfold severOne
  refine .state_bind ?_
  split
  · exact .pure trivial
  rename_i g hg
  refine .of_ready fun hready => .edit_bind
    (d := [.severing g (g.target? w.state.heap) (g.target? w.state.heap).isNone])
    (.sever hready hs hg) ?_
  refine .seq (y := []) (.ensuring (y := [.severing g (g.target? w.state.heap) true])
    (z := [.severing g (g.target? w.state.heap) true]) ?_ ?_ ?_)
    fun _ _ _ => .bind (report_moves _) fun _ _ _ _ => .pure trivial
  · cases g.target? w.state.heap with
    | some proxy => exact Engine.disconnect_moves .sever ⟨rfl, rfl, rfl⟩
    | none => exact .pure trivial
  · exact fun _ hbase => .severed hbase
  · exact fun _ hbase => .severed hbase

theorem mapM_obeys {f : α → Act σ β} {sit : Situation} {as : List α}
    (h : ∀ a ∈ as, ∀ v, (f a).Obeys L sit r v) : (as.mapM f).Obeys L sit r w := by
  induction as generalizing w with
  | nil =>
    rw [List.mapM_nil]
    exact .pure trivial
  | cons a as ih =>
    rw [List.mapM_cons]
    obtain ⟨ha, has⟩ := List.forall_mem_cons.1 h
    exact .seq (ha w) fun _ _ _ => .seq (ih has) fun _ _ _ => .pure trivial

theorem sever_obeys (reason : String) {hosts : List Address} (hs : ∀ a ∈ hosts, L.maySever a) :
    (sever reason hosts : Act σ Nat).Obeys L .severing r w := by
  unfold sever
  refine .seq (mapM_obeys fun a ha _ => severOne_obeys reason (hs a ha)) fun _ _ _ => ?_
  exact .bind (count_moves _ _) fun _ _ _ _ => .pure trivial

theorem sweep_obeys
    (hs : ∀ reason, (sever reason w.state.unreached : Act σ Nat).Obeys L .severing r w) :
    (sweep : Act σ _).Obeys L .severing r w := by
  unfold sweep
  refine .ensuring (y := []) (z := []) ?_ (fun s _ => .note _ s.bridge.metrics)
    fun s _ => .note _ s.bridge.metrics
  refine .state_bind (.seq (hs _) fun _ v _ => .state_bind ?_)
  refine .of_ready fun hready => .edit_bind (d := []) (.collect hready _) ?_
  refine .bind (report_moves _) fun _ _ _ _ => .state_bind ?_
  refine .bind (count_moves _ _) fun _ _ _ _ => .bind (recordTiming_moves _) fun _ _ _ _ => ?_
  exact .bind (report_moves _) fun _ _ _ _ => .pure trivial

theorem teardown_obeys {root : Address}
    (hs : ∀ reason, (sever reason (w.state.owned root) : Act σ Nat).Obeys L .severing r w) :
    (teardown root : Act σ Nat).Obeys L .severing r w := by
  unfold teardown
  refine .state_bind (.seq (hs _) fun _ _ _ => ?_)
  exact .bind (report_moves _) fun _ _ _ _ => .pure trivial

theorem shutdown_obeys (hs : ∀ reason,
      (sever reason w.state.bridge.entries.keys : Act σ Nat).Obeys L .severing r w) :
    (shutdown : Act σ Nat).Obeys L .severing r w := by
  unfold shutdown
  refine .state_bind (.seq (hs _) fun _ _ _ => ?_)
  exact .bind (report_moves _) fun _ _ _ _ => .pure trivial

end Identity

end TwinHeap
