import TwinHeap.Proofs.Startup

/-!
# Identities — each host object and its proxy know each other

On the stock library the identity table and the back-references of the foreign instances are two
sides of one pairing. It is out of step only while a new proxy is told its host object and while a
severed one forgets it, and then no other code is in control.
-/

namespace TwinHeap

variable {σ : Type}

/-! ## The stock bodies -/

/-- An address that something lives at fits in a word. -/
theorem Address.fits_of_hostObject {a : Address} (h : ∃ i, a = .hostObject i) :
    ∀ v, a = .raw v → v < octetRange 8 := by
  obtain ⟨i, rfl⟩ := h
  rintro v ⟨⟩

theorem State.addressAt_ofCell {s : State} {c : Nat} {a : Address}
    (hc : s.memory.get c = .plain a.octets) (ha : ∀ v, a = .raw v → v < octetRange 8) :
    s.addressAt (.ofCell c) = a := by
  have htake : (Value.plain a.octets).read addressSize = a.octets ++ [] := by
    simp [Value.read, Value.octets, addressSize, List.take_of_length_le]
  have hread : s.readAt (.ofCell c) addressSize = a.octets ++ [] := by
    show ((s.memory.get c).skip 0).read addressSize = _
    rw [hc]
    exact htake
  show Address.ofOctets (s.readAt (.ofCell c) addressSize) = _
  rw [hread]
  exact Address.ofOctets_octets _ [] ha

theorem run_connect (call : Invoker σ) (w : World σ) (proxy place : Address) :
    ((Library.connect ⟨some proxy, [place]⟩).toProgram).run call w = .ok (.ok none) { w with
      state := w.state.withHeap (w.state.heap.setNative proxy (w.state.addressAt place)) } :=
  rfl

theorem run_disconnect (call : Invoker σ) (w : World σ) (proxy : Address) :
    ((Library.disconnect ⟨some proxy, []⟩).toProgram).run call w = .ok (.ok none) { w with
      state := w.state.withHeap (w.state.heap.setNative proxy .null) } :=
  rfl

theorem run_nativePtr (call : Invoker σ) (w : World σ) (proxy : Address) :
    ((Library.nativePtr ⟨some proxy, []⟩).toProgram).run call w =
      .ok (.ok (some (.foreign w.state.heap.nextObject))) { w with
        state := w.state.withHeap (w.state.heap.allocate
          (Heap.box ((w.state.heap.nativeOf proxy).getD .null).octets)).2 } :=
  rfl

/-! ## Asking a proxy -/

/-- A box with an address is read back as the address that its octets are. -/
theorem State.unbox_allocate {s s' : State} {a : Address}
    (hs : s' = s.withHeap (s.heap.allocate (Heap.box a.octets)).2) :
    s'.unbox (.foreign s.heap.nextObject) = .ok (.payload s.heap.nextObject) ∧
      s'.addressAt (.payload s.heap.nextObject) = Address.ofOctets (a.octets ++ []) := by
  have hbox : Heap.box a.octets = .boxed a.octets 8 := by
    simp [Heap.box]
  have hget : s'.heap.objects.get? s.heap.nextObject = some (.boxed a.octets 8) := by
    rw [hs, ← hbox]
    show (s.heap.objects.insert s.heap.nextObject _).get? _ = _
    rw [Table.get?_insert, if_pos rfl]
  have hread : s'.readAt (.payload s.heap.nextObject) addressSize = a.octets ++ [] := by
    have htake : (Value.plain a.octets).read addressSize = a.octets ++ [] := by
      simp [Value.read, Value.octets, addressSize, List.take_of_length_le]
    unfold readAt
    dsimp only
    rw [hget]
    exact htake
  constructor
  · have hget : s'.heap.get? (.foreign s.heap.nextObject) = some (.boxed a.octets 8) := hget
    unfold unbox
    rw [hget]
  · unfold addressAt
    rw [hread]

/-- The bridge believes the box that a proxy answers with. -/
theorem Engine.nativePtr_eq {call : Invoker σ} {w u : World σ} {p boxed payload : Address}
    (hc : call w.state.bridge.helpers.nativePtr ⟨some p, []⟩ w = .ok (.ok (some boxed)) u)
    (hu : u.state.unbox boxed = .ok payload) :
    nativePtr p call w = .ok (u.state.addressAt payload).nonNull u := by
  have hpayload : (Act.ofPanic (u.state.unbox boxed) : Act σ Address) call u = .ok payload u := by
    rw [hu]
    rfl
  unfold nativePtr
  rw [Act.state_bind, Act.bind_of_ok hc]
  exact Act.state_bind.trans (Act.bind_of_ok hpayload)

/-- The world in which a proxy has been asked what it stands for. -/
def World.asked (w : World σ) (p : Address) : World σ :=
  let u := w.countCall w.state.bridge.helpers.nativePtr
  let answer := Heap.box ((w.state.heap.nativeOf p).getD .null).octets
  { u with state := u.state.withHeap (u.state.heap.allocate answer).2 }

/-- A proxy says what it stands for, and a dead one that it stands for nothing. -/
theorem Identity.hostOf_of_stock {w : World σ} (p : Address)
    (hb : w.bodies[w.state.bridge.helpers.nativePtr]? =
      some fun inv => (Library.nativePtr inv).toProgram) (n : Nat) :
    hostOf p (callAt (n + 1)) w = .ok
      (Address.ofOctets (((w.state.heap.nativeOf p).getD .null).octets ++ [])).nonNull
      (w.asked p) := by
  have hheap : (w.countCall w.state.bridge.helpers.nativePtr).state.heap = w.state.heap := rfl
  have hcall := callAt_succ n w.state.bridge.helpers.nativePtr ⟨some p, []⟩ (w := w)
  rw [hb] at hcall
  dsimp only at hcall
  rw [run_nativePtr, hheap] at hcall
  obtain ⟨hunbox, hread⟩ := State.unbox_allocate
    (s := (w.countCall w.state.bridge.helpers.nativePtr).state)
    (a := (w.state.heap.nativeOf p).getD .null) rfl
  have hask := Engine.nativePtr_eq hcall hunbox
  dsimp only at hask hread
  rw [hheap] at hask hread
  rw [hread] at hask
  exact hask

theorem Identity.hostOf_eq {e : EngineBinding} {w : World σ} {p : Address} {i : Nat}
    (hs : w.Stocked e) (hn : w.state.heap.nativeOf p = some (.hostObject i)) (n : Nat) :
    ∃ u, hostOf p (callAt (n + 1)) w = .ok (some (.hostObject i)) u := by
  have hask := hostOf_of_stock p hs.nativePtr n
  rw [hn, Option.getD_some, Address.ofOctets_octets _ [] (by rintro v ⟨⟩)] at hask
  exact ⟨_, hask⟩

/-! ## Every run -/

/-- What is owed and the world agree on handles and on identity, nothing went wrong in a
construction, and the methods that the bridge relies on are those of the stock library. -/
structure World.Identified (e : EngineBinding) (o : List Owed) (w : World σ) : Prop where
  tallied : w.Tallied o
  paired : w.state.Paired o
  unbroken : ∀ host p, .making host p .broken ∉ o
  stocked : w.Stocked e

namespace World

variable {e : EngineBinding} {o o' b : List Owed} {w : World σ} {m : Nat}

theorem Tallied.setNative (h : w.Tallied o) (p native : Address) :
    World.Tallied o { w with state := w.state.withHeap (w.state.heap.setNative p native) } := by
  have hc : Change (.asking (fun _ => True) fun _ => True) o w.state o
      (w.state.withHeap (w.state.heap.setNative p native)) :=
    .alone (r := .setNative p native) trivial trivial rfl
  exact hc.tallied h

namespace Stocked

theorem signatureAt_of_offers (hm : w.state.Offers e m) :
    ∃ sig, w.state.signatureAt m = some sig := by
  obtain ⟨sig, hs, -⟩ := hm
  exact ⟨sig, hs⟩

/-- The methods that connect proxies are not offered. -/
theorem not_offers (h : w.Stocked e)
    (hm : m ∈ [w.state.bridge.helpers.beforeConstruct, w.state.bridge.helpers.afterConstruct,
      w.state.bridge.helpers.disconnect]) : ¬w.state.Offers e m := by
  obtain ⟨sig, hs, hres⟩ := h.reserved m hm
  rintro ⟨sig', hs', hres'⟩
  rw [hs] at hs'
  cases hs'
  exact hres' hres

/-- Every method that is called for a reason is there, and if it does not connect proxies, nothing
more or less is owed after it. -/
theorem of_reason (h : w.Stocked e) {inv : Invocation} {T : Terms}
    (hr : Reason T o w.state m inv o' b) (hask : ∀ r, T.mayAsk r → r.Tame e) :
    (∃ sig, w.state.signatureAt m = some sig) ∧
      (w.state.Offers e m → o' = o ∧ b = o ∧ T.ready o) := by
  have hreserved {m : Nat} {p : Prop} (hm : ∃ sig, w.state.signatureAt m = some sig ∧ e.Reserves sig) :
      (∃ sig, w.state.signatureAt m = some sig) ∧ (w.state.Offers e m → p) := by
    obtain ⟨sig, hs, hres⟩ := hm
    refine ⟨⟨sig, hs⟩, fun ⟨sig', hs', hres'⟩ => ?_⟩
    rw [hs] at hs'
    cases hs'
    exact absurd hres hres'
  have hoffers {m : Nat} {p : Prop} (hm : w.state.Offers e m) (hp : p) :
      (∃ sig, w.state.signatureAt m = some sig) ∧ (w.state.Offers e m → p) :=
    ⟨signatureAt_of_offers hm, fun _ => hp⟩
  -- The methods that connect proxies are reserved; all others are offered to whoever calls them.
  cases hr with
  | connect => exact hreserved (h.reserved _ (by simp))
  | construct hb =>
    obtain ⟨sig, hs, hctor, -⟩ := h.bindings hb
    exact hreserved ⟨sig, hs, .inl hctor⟩
  | complete => exact hreserved (h.reserved _ (by simp))
  | undo => exact hreserved (h.reserved _ (by simp))
  | sever => exact hreserved (h.reserved _ (by simp))
  | nativePtr hready => exact hoffers (h.offered _ List.mem_cons_self) ⟨rfl, rfl, hready⟩
  | factory hready hm => exact hoffers (h.offered _ (List.mem_cons_of_mem _ hm)) ⟨rfl, rfl, hready⟩
  | box hready hf hm =>
    obtain rfl | rfl := hm
    · exact hoffers (h.factories hf).1 ⟨rfl, rfl, hready⟩
    · exact hoffers (h.factories hf).2 ⟨rfl, rfl, hready⟩
  | linked hready hk hl => exact hoffers ((h.redirectors hk).2 _ _ hl) ⟨rfl, rfl, hready⟩
  | direct _ h => exact (hask _ h).elim

theorem body_of_signatureAt (h : w.Stocked e) {sig : Signature}
    (hs : w.state.signatureAt m = some sig) : ∃ body, w.bodies[m]? = some body := by
  obtain ⟨info, hm, -⟩ := Option.map_eq_some_iff.1 hs
  exact ⟨_, List.getElem?_eq_getElem (h.length ▸ (List.getElem?_eq_some_iff.1 hm).1)⟩

end Stocked

namespace Identified

/-- A debt that is no proxy in the making or in removal does not matter for identity. -/
theorem setNative {p native : Address} (h : w.Identified e o)
    (hcore : o'.map Owed.core = o.map Owed.core) (hu : ∀ host q, .making host q .broken ∉ o')
    (hp : (w.state.withHeap (w.state.heap.setNative p native)).Paired o') :
    World.Identified e o' { w with
      state := w.state.withHeap (w.state.heap.setNative p native) } :=
  ⟨(h.tallied.congr hcore).setNative p native, hp, hu, h.stocked.of_same rfl ⟨rfl, rfl, rfl, rfl⟩⟩

theorem countCall (h : w.Identified e o) (m : Nat) : (w.countCall m).Identified e o :=
  ⟨h.tallied.countCall m, h.paired.of_heap rfl rfl, h.unbroken, h.stocked.countCall m⟩

/-- The stock methods that connect proxies do what they are called for. -/
theorem stock (h : w.Identified e o) {inv : Invocation} {body : Invocation → Program σ}
    {T : Terms} (hr : Reason T o w.state m inv o' b) (hask : ∀ r, T.mayAsk r → r.Tame e)
    (hb : w.bodies[m]? = some body) (hm : ¬w.state.Offers e m) (call : Invoker σ) :
    Ends ((body inv).run call (w.countCall m)) (fun a v => v.Identified e (Owed.after a o' b))
      fun f v => f ≠ .exhausted → v.Identified e b := by
  have h' := h.countCall m
  have hs := h.stocked
  -- Of the methods that are not offered each does its part in connecting or disconnecting a proxy.
  cases hr with
  | @connect o _ c host proxy hc hf hn =>
    cases hs.connect.symm.trans hb
    obtain ⟨g, hg, -⟩ := State.findProxy_eq_some.1 hf
    have hread : (w.countCall w.state.bridge.helpers.beforeConstruct).state.addressAt (.ofCell c) =
        host :=
      State.addressAt_ofCell hc (Address.fits_of_hostObject (h.paired.proper hg))
    have hpaired := ((State.Paired.cons_iff rfl (by rintro _ _ ⟨⟩)).1 h'.paired).connect hf hn
    rw [run_connect, hread]
    refine h'.setNative rfl ?_ ((State.Paired.cons_iff rfl (by rintro _ _ ⟨⟩)).2 hpaired)
    have hu := h.unbroken
    simpa [Owed.after] using hu
  | @construct o _ c host proxy classRef binding hbinding hc =>
    obtain ⟨sig, hsig, hctor, hparams⟩ := hs.bindings hbinding
    obtain ⟨-, ⟨hp, rfl⟩ | ⟨-, rfl⟩⟩ := hs.constructor hsig hb hctor
    · have htakes : binding.takesNative = true := by
        rw [hparams] at hp
        cases ht : binding.takesNative with
        | true => rfl
        | false => rw [ht] at hp; cases hp
      have htold : .making host proxy .told ∈ .cell c :: .making host proxy .told :: o := by simp
      obtain ⟨hf, hn⟩ := h.paired.told htold
      obtain ⟨g, hg, -⟩ := State.findProxy_eq_some.1 hf
      have hread : (w.countCall binding.method).state.addressAt (.ofCell c) = host :=
        State.addressAt_ofCell hc (Address.fits_of_hostObject (h.paired.proper hg))
      rw [htakes, if_pos rfl, run_connect, hread]
      exact h'.setNative rfl h.unbroken (h'.paired.setNative_self hn)
    · exact h'
  | complete =>
    cases hs.complete.symm.trans hb
    exact h'
  | undo => exact absurd List.mem_cons_self (h.unbroken _ _)
  | sever =>
    cases hs.disconnect.symm.trans hb
    rw [run_disconnect]
    refine h'.setNative rfl ?_ ((State.Paired.cons_iff rfl (by rintro _ _ ⟨⟩)).2 h'.paired.disconnect)
    have hu := h.unbroken
    simpa [Owed.after] using hu
  | nativePtr => exact absurd (hs.offered _ List.mem_cons_self) hm
  | factory _ hmem => exact absurd (hs.offered _ (List.mem_cons_of_mem _ hmem)) hm
  | box _ hf hmem =>
    obtain rfl | rfl := hmem
    · exact absurd (hs.factories hf).1 hm
    · exact absurd (hs.factories hf).2 hm
  | linked _ hk hl => exact absurd ((hs.redirectors hk).2 _ _ hl) hm
  | direct _ h => exact (hask _ h).elim

end Identified

end World

/-- Host objects and proxies know each other whatever tame code does. -/
def identityRealm (σ : Type) (e : EngineBinding) : Realm σ where
  mayAsk := Request.Tame e
  tame := Program.Tame e
  enters w m := w.state.Offers e m
  ready o := o.countP Owed.isMaking = 0
  holds o w := w.Identified e o
  ready_nil := rfl
  ready_cons hd hr := by rw [List.countP_cons_of_neg (by simp [hd]), hr]
  hold _ := trivial
  observe ht s memory := ht s memory
  remember ht := ht
  define ht i := ht.2 i
  ask ht := ht
  change ho hc :=
    ⟨hc.tallied ho.tallied, hc.paired (fun _ hr => hr) ho.paired ho.tallied.balanced id ho.unbroken,
      hc.unbroken ho.unbroken, hc.stocked (fun _ hr => hr) ho.stocked⟩
  remembered _ ho := ⟨ho.tallied.remember _, ho.paired, ho.unbroken, { ho.stocked with }⟩
  defined ht ho :=
    ⟨ho.tallied.define _ _, ho.paired.of_heap rfl rfl, ho.unbroken, ho.stocked.define ht.1⟩
  unknown ho hr hb := by
    obtain ⟨⟨sig, hs⟩, -⟩ := ho.stocked.of_reason hr fun _ hr => hr
    obtain ⟨body, hbody⟩ := ho.stocked.body_of_signatureAt hs
    rw [hb] at hbody
    cases hbody
  entered ho hr hb he := by
    obtain ⟨rfl, rfl, hready⟩ := (ho.stocked.of_reason hr fun _ hr => hr).2 he
    obtain ⟨sig, hs, hres⟩ := he
    exact ⟨ho.stocked.tame hs hb hres _, hready, ho.countCall _, fun _ hv => hv⟩
  stock ho hr hb he n := ho.stock hr (fun _ hr => hr) hb he (callAt n)

/-- A bridge to a fresh side with the stock library owes nothing, and all identities agree. -/
theorem World.identified_connect {config : Config} {registry : Registry} {side : ForeignSide σ}
    {memory : σ} {w : World σ}
    (hside : ForeignSide.empty.install (Library.engine config.engine) = .ok side)
    (hw : World.connect config registry side memory = .ok w) : w.Identified config.engine [] := by
  have hstocked := World.stocked_connect hside hw
  have htallied := World.tallied_connect (ForeignSide.installs_of_install hside).heap hw
  refine ⟨htallied, ?_, nofun, hstocked⟩
  have hheap := (ForeignSide.installs_of_install hside).heap
  obtain ⟨helpers, -, hw⟩ := ok_of_bind hw
  cases hw
  refine ⟨nofun, ?_, nofun, nofun, nofun, nofun, nofun⟩
  intro p host hn
  have hn : side.foreign.heap.nativeOf p = some host := hn
  rw [hheap] at hn
  cases p <;> cases hn

/-- Where nothing is half connected, host objects and proxies know each other. -/
theorem World.Identified.pairing {e : EngineBinding} {o : List Owed} {w : World σ}
    (h : w.Identified e o) (ho : o.countP Owed.isOpen = 0) {host p : Address} :
    (w.state.findProxy host = some p → w.state.heap.nativeOf p = some host) ∧
      (w.state.heap.nativeOf p = some host → host ≠ .null → w.state.findProxy host = some p) := by
  have hclosed {d : Owed} (hd : d ∈ o) : d.isOpen = false := by
    cases hopen : d.isOpen with
    | false => rfl
    | true =>
      have hpos := List.countP_pos_iff.2 ⟨d, hd, hopen⟩
      omega
  constructor
  · intro hf
    refine (h.paired.forward hf).resolve_right fun hm => ?_
    have hraw := hclosed hm
    cases hraw
  · intro hn hne
    refine (h.paired.backward hn hne).resolve_right fun ⟨g, hg⟩ => ?_
    have hsevering := hclosed hg
    cases hsevering

/-- Wherever the host or tame foreign code is in control, the identity table and the instances agree:
the proxy that is found for a host object is alive, stands for it and says so, and an instance that
stands for a host object is the proxy that is found for it. So no host object has two proxies, and no
proxy serves two host objects. -/
theorem identity_one_to_one {config : Config} {registry : Registry} {side : ForeignSide σ}
    {memory : σ} {start v : World σ} {rs : List Request}
    (hside : ForeignSide.empty.install (Library.engine config.engine) = .ok side)
    (hstart : World.connect config registry side memory = .ok start)
    (hv : Session.Sees (fun w m => w.state.Offers config.engine m) (Program.Tame config.engine)
      start rs v) :
    (∀ host p, v.state.findProxy host = some p →
      v.state.heap.isAlive p = true ∧ v.state.heap.nativeOf p = some host ∧
        ∀ n, ∃ u, Identity.hostOf p (callAt (n + 1)) v = .ok (some host) u) ∧
    (∀ host p, v.state.heap.nativeOf p = some host → host ≠ .null →
      v.state.findProxy host = some p) ∧
    (∀ host p p', v.state.heap.nativeOf p = some host → v.state.heap.nativeOf p' = some host →
      host ≠ .null → p = p') ∧
    ∀ host host' p, v.state.findProxy host = some p → v.state.findProxy host' = some p →
      host = host' := by
  obtain ⟨w, p, n, hw, hp, hvisit⟩ := hv
  have hstock (o : List Owed) (u : World σ) (m : Nat) (hu : u.Identified config.engine o)
      (hm : u.state.Offers config.engine m) :
      m ≠ u.state.bridge.helpers.disconnect ∧ m ≠ u.state.bridge.helpers.beforeConstruct :=
    ⟨fun he => hu.stocked.not_offers (by simp) (he ▸ hm),
      fun he => hu.stocked.not_offers (by simp) (he ▸ hm)⟩
  have hidentified := Realm.session (R := identityRealm σ config.engine)
    (World.identified_connect hside hstart) hw
  obtain ⟨o, ho, hopen⟩ := Realm.visits_closed (R := identityRealm σ config.engine) (o := [])
    hvisit hstock hp rfl hidentified rfl
  have ho : v.Identified config.engine o := ho
  refine ⟨fun host q hf => ?_, fun host q => (ho.pairing hopen).2, fun host q q' hq hq' hne => ?_,
    fun host host' q hf hf' => ho.paired.unique hf hf'⟩
  · have hn := (ho.pairing hopen).1 hf
    obtain ⟨g, hg, -⟩ := State.findProxy_eq_some.1 hf
    obtain ⟨i, rfl⟩ := ho.paired.proper hg
    exact ⟨Heap.isAlive_of_nativeOf hn, hn, Identity.hostOf_eq ho.stocked hn⟩
  · have hf := (ho.pairing hopen).2 hq hne
    rw [(ho.pairing hopen).2 hq' hne] at hf
    exact (Option.some.inj hf).symm

namespace Sample

/-- Defines a proxy class, and makes the proxy of an object of it. -/
def connecting : Program Unit :=
  .ask (.defineType "G" "P") fun _ =>
  .define ⟨"G", ⟨"", "P", ".ctor", some ["intptr"]⟩, 1, 0⟩
    (fun inv => (Library.connect inv).toProgram) fun _ =>
  .ask (.defineClass ⟨"P", "P", "G", .native, false⟩ none) fun c =>
  .ask (.spawn c none "o") fun h =>
  .ask (.proxy h) fun _ => .done none

theorem tame_connecting : connecting.Tame config.engine :=
  ⟨trivial, fun _ => ⟨.inr ⟨rfl, .inl ⟨rfl, rfl⟩⟩, fun _ => ⟨trivial, fun _ => ⟨trivial, fun _ =>
    ⟨trivial, fun _ => trivial⟩⟩⟩⟩⟩

/-- The first object has its proxy. -/
def isConnected (w : World Unit) : Bool :=
  w.state.findProxy (.hostObject 0) == some (.foreign 0)

/-- Whether a program ends so once the bridge was started with the stock library alone. -/
def endsInStock (n : Nat) (p : Program Unit) (check : World Unit → Bool) : Bool :=
  match ForeignSide.empty.install (Library.engine config.engine) with
  | .error _ => false
  | .ok side => endsFrom side () n p check

theorem sees_of_endsInStock {n : Nat} {p : Program Unit} {check : World Unit → Bool}
    (h : endsInStock n p check = true) :
    ∃ side start w a, ForeignSide.empty.install (Library.engine config.engine) = .ok side ∧
      World.connect config .default side () = .ok start ∧ p.run (callAt n) start = .ok a w ∧
      Session.Sees (fun _ _ => True) (fun _ => True) start [] w ∧ check w = true := by
  unfold endsInStock at h
  split at h
  · cases h
  · rename_i side hside
    obtain ⟨start, w, a, hw⟩ := sees_of_endsFrom h
    exact ⟨side, start, w, a, hside, hw⟩

theorem run_connecting : endsInStock 2 connecting isConnected = true := by
  decide +kernel

end Sample

/-- `identity_one_to_one` where a proxy was made. -/
theorem identity_one_to_one_connected :
    ∃ (side : ForeignSide Unit) (start v : World Unit),
      ForeignSide.empty.install (Library.engine Sample.config.engine) = .ok side ∧
      World.connect Sample.config .default side () = .ok start ∧
      Session.Sees (fun w m => w.state.Offers Sample.config.engine m)
        (Program.Tame Sample.config.engine) start [] v ∧
      v.state.findProxy (.hostObject 0) = some (.foreign 0) ∧
      v.state.heap.nativeOf (.foreign 0) = some (.hostObject 0) := by
  obtain ⟨side, start, v, a, hside, hstart, hr, -, hrun⟩ :=
    Sample.sees_of_endsInStock Sample.run_connecting
  have hfind : v.state.findProxy (.hostObject 0) = some (.foreign 0) := beq_iff_eq.1 hrun
  have hv : Session.Sees (fun w m => w.state.Offers Sample.config.engine m)
      (Program.Tame Sample.config.engine) start [] v :=
    ⟨v, .done none, 0, .ended .start Sample.tame_connecting hr, trivial, .here⟩
  refine ⟨side, start, v, hside, hstart, hv, hfind, ?_⟩
  exact ((identity_one_to_one hside hstart hv).1 _ _ hfind).2.1

end TwinHeap
