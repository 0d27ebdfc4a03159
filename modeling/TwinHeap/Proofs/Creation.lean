import TwinHeap.Proofs.Failures
import TwinHeap.Proofs.Severing
import TwinHeap.Proofs.Sparing
import TwinHeap.Proofs.Standing

/-!
# Creation — what becomes of a proxy whose making is re-entered

The entry of a host object is made before its proxy is constructed, and the constructor may ask the
bridge for anything, for the same object, too. Where nothing that it asks for severs or loosens this
entry, the proxy that is answered is the one that the table finds, and a proxy that could not be
constructed leaves nothing that stands for the host object (`proxy_kept_or_undone`). An entry that is
severed on the way is gone when the proxy is answered; and where it was made anew, the failure of the
first construction takes back the second proxy without disconnecting it.
-/

namespace TwinHeap

variable {σ α β : Type}

/-! ## Actions that only call -/

/-- In the runs of the course the action carries `P` along: it holds wherever it calls foreign code. -/
def Act.Carries (act : Act σ α) {call : Invoker σ} (course : Act.Course call) (P : World σ → Prop) :
    Prop :=
  ∀ w, course.Runs act w → P w →
    act.Meets call w (fun _ _ v => P v) (fun _ v => P v) fun f v => f ≠ .exhausted → P v

/-- A property of worlds that the calls of the course keep, and that storage, the journal and the
counters have no part in. -/
structure Act.Course.Sustains {call : Invoker σ} (course : Act.Course call) (P : World σ → Prop) :
    Prop where
  calls : ∀ {m v} (inv : Invocation), course.Runs (Act.callMethod m inv.receiver inv.args) v → P v →
    Ends (call m inv v) (fun _ u => P u) fun f u => f ≠ .exhausted → P u
  stored : ∀ {v : World σ} (memory : Memory), P v →
    P { v with state := { v.state with memory := memory } }
  noted : ∀ {v u : World σ}, Act.Noted v u → P v → P u

namespace Act.Carries

variable {call : Invoker σ} {course : Act.Course call} {P : World σ → Prop}

theorem pure (a : α) : (Pure.pure a : Act σ α).Carries course P := fun _ _ hw => .pure hw

theorem fail (e : BridgeError) : (Act.fail e : Act σ α).Carries course P :=
  fun _ _ hw => .fail fun _ => hw

theorem bind {act : Act σ α} {f : α → Act σ β} (h : act.Carries course P)
    (hf : ∀ a, (f a).Carries course P) : (act >>= f).Carries course P := by
  intro w hrun hw
  have hact := h w (course.closed hrun (.first .here)) hw
  refine hact.bind fun a v ha hv => ?_
  exact hf a v (course.closed hrun (.next .here hact.strict ha)) hv

theorem state_bind {f : State → Act σ α} (h : ∀ s, (f s).Carries course P) :
    (Act.state >>= f).Carries course P := by
  intro w hrun hw
  have hnext := h w.state w (course.closed hrun (.congr .here fun _ => rfl)) hw
  exact ⟨hnext.only, hnext.strict, hnext.ok, hnext.err⟩

theorem ofForeign (x : Except ForeignException α) :
    (Act.ofForeign x : Act σ α).Carries course P := by
  cases x with
  | ok a => exact .pure a
  | error e => exact .fail _

theorem attempt {act : Act σ α} (h : act.Carries course P) : act.attempt.Carries course P := by
  intro w hrun hw
  apply Meets.attempt
  refine (h w (course.closed hrun (.attempt .here)) hw).mono (fun _ _ _ hv => hv)
    (fun _ _ hv => hv) fun f v hv => ⟨?_, fun _ => hv⟩
  rintro e rfl
  exact hv (by rintro ⟨⟩)

variable (S : course.Sustains P)
include S

theorem callMethod_discard (m : Nat) (receiver : Option Address) (args : List Address) :
    (Act.callMethod m receiver args >>= fun a => Functor.discard (Act.ofForeign a) :
      Act σ Unit).Carries course P := by
  apply bind
  · intro w hrun hw
    have hcall := ends_iff.1 (S.calls ⟨receiver, args⟩ hrun hw)
    exact .callMethod hw hcall.1 hcall.2
  · exact fun a => .bind (ofForeign a) fun _ => .pure ()

theorem withPointer (a : Address) {act : Address → Act σ α} (h : ∀ b, (act b).Carries course P) :
    (Engine.withPointer a act).Carries course P := by
  apply bind
  · exact fun _ _ hw => .editGet (S.stored _ hw)
  · intro c w hrun hw
    apply Meets.ensuring
    refine (h _ w (course.closed hrun (.ensuring .here)) hw).mono (fun _ _ _ hv => hv)
      (fun _ _ hv => S.stored _ hv) fun _ _ hv hf => S.stored _ (hv hf)

end Act.Carries

open Act

namespace Act.Course.Sustains

variable {call : Invoker σ} {course : Act.Course call} {P : World σ → Prop}

/-- The construction of a proxy is three calls. -/
theorem construct (S : course.Sustains P) (b : ProxyBinding) (proxy host : Address) :
    (Identity.construct b proxy host).Carries course P := by
  refine .bind (.withPointer S _ fun _ => .state_bind fun _ => .callMethod_discard S _ _ _) fun _ => ?_
  refine .bind (.withPointer S _ fun _ => .callMethod_discard S _ _ _) fun _ => ?_
  exact .state_bind fun _ => .callMethod_discard S _ _ _

end Act.Course.Sustains

/-- There is no entry for the host object, and the objects are those of `h`. -/
structure State.Vacant (s : State) (host : Address) (h : Heap) : Prop where
  entry : s.bridge.entries.get? host = none
  objects : s.heap.objects = h.objects

namespace Identity

variable {call : Invoker σ} {w v : World σ} {host : Address}

/-- A host object that could not be entered has no entry, and nothing was allocated for it. -/
theorem enter_error (hc : call.Grows) {e : BridgeError}
    (h : enter host call w = .error (.error e) v) : v.state.Vacant host w.state.heap := by
  -- All that can fail comes before the instance is allocated and the entry is added.
  have hends : Ends (enter host call w) (fun _ _ => True)
      fun f u => ∀ e, f = .error e → u.state.Vacant host w.state.heap := by
    have hdrop : (w.state.dropEntry host).Vacant host w.state.heap :=
      ⟨get?_dropEntry_self _ _, (objects_dropEntry _ _).1⟩
    unfold enter
    refine ends_bind (Q := fun _ u => u.state.Vacant host w.state.heap) hdrop fun _ u hu => ?_
    rw [state_bind]
    cases u.state.host.classOf host with
    | error p => rintro _ ⟨⟩
    | ok classRef =>
      have hbinding : Ends ((bindingFor classRef : Act σ _) call u)
          (fun _ x => x.state.Vacant host w.state.heap)
          fun f x => ∀ e, f = .error e → x.state.Vacant host w.state.heap := by
        refine ends_iff.2 ⟨fun found x hx => ?_, fun f x hx e he => ?_⟩
        · have hmoves : (bindingFor classRef : Act σ _).Moves (.free call hc) .plain [] [] [] [] u _ :=
            bindingFor_moves classRef
          obtain ⟨-, -, -, hentries, -, hheap⟩ :=
            (hmoves List.nil_suffix trivial trivial trivial).ok _ _ hx
          exact ⟨hentries ▸ hu.entry, hheap ▸ hu.objects⟩
        · exact absurd (he ▸ hx) (bindingFor_contained classRef u e x)
      refine ends_bind (Q := fun c y => c = classRef ∧ y = u) ⟨rfl, rfl⟩ ?_
      rintro _ _ ⟨rfl, rfl⟩
      refine ends_bind hbinding fun found x hx => ?_
      cases found with
      | error l => exact fun _ _ => hx
      | ok b =>
        have hmaking : Ends ((editGet (·.instantiate b.type) : Act σ _) call x)
            (fun made y => made = none → y.state.Vacant host w.state.heap)
            fun f y => ∀ e, f = .error e → y.state.Vacant host w.state.heap := by
          intro hnone
          dsimp only at hnone ⊢
          cases ht : x.state.foreign.isType b.type with
          | true =>
            rw [State.instantiate_of_isType ht] at hnone
            cases hnone
          | false =>
            rw [State.instantiate_of_not_isType ht]
            exact hx
        refine ends_bind (Q := fun b' y => b' = b ∧ y = x) ⟨rfl, rfl⟩ ?_
        rintro _ _ ⟨rfl, rfl⟩
        refine ends_bind hmaking fun made y hy => ?_
        cases made with
        | none => exact fun _ _ => hy rfl
        | some proxy => trivial
  exact (ends_iff.1 hends).2 _ _ h e rfl

/-- Where a proxy is asked for and there is none, the object is entered, its proxy is constructed, and
the entry is kept or taken back. -/
theorem construct_of_perform {n : Nat} {reply : Except BridgeError Address}
    (hn : w.state.findProxy host = none)
    (hr : (Request.proxy host).perform (callAt n) w = .ok reply v) :
    (∃ e, reply = .error e ∧ enter host (callAt n) w = .error (.error e) v) ∨
    ∃ b p u outcome x, enter host (callAt n) w = .ok (b, p) u ∧
      (construct b p host).attempt (callAt n) u = .ok outcome x ∧
      (conclude b p host outcome).attempt (callAt n) x = .ok reply v := by
  have hr : (proxyFor host).attempt (callAt n) w = .ok reply v := hr
  cases reply with
  | ok a =>
    have hproxy := ok_of_attempt hr
    rw [proxyFor_eq_enter hn] at hproxy
    obtain ⟨⟨b, p⟩, u, hu, hrest⟩ := Act.ok_of_bind hproxy
    obtain ⟨outcome, x, hx, hend⟩ := Act.ok_of_bind hrest
    exact .inr ⟨b, p, u, outcome, x, hu, hx, attempt_of_ok hend⟩
  | error e =>
    have hproxy := error_of_attempt hr
    rw [proxyFor_eq_enter hn] at hproxy
    obtain henter | ⟨⟨b, p⟩, u, hu, hrest⟩ := error_of_bind hproxy
    · exact .inl ⟨e, rfl, henter⟩
    · obtain hattempt | ⟨outcome, x, hx, hend⟩ := error_of_bind hrest
      · exact absurd hattempt (Contained.attempt u e v)
      · exact .inr ⟨b, p, u, outcome, x, hu, hx, attempt_of_error hend⟩

/-- A construction that failed is taken back: the proxy is disconnected, and the entry is dropped. -/
theorem conclude_error {n : Nat} {b : ProxyBinding} {p : Address} {e : BridgeError}
    {outcome : Except BridgeError Unit}
    (h : (conclude b p host outcome).attempt (callAt n) w = .ok (.error e) v) :
    ∃ u, Engine.disconnect p (callAt n) w = .ok () u ∧
      v = { u with state := u.state.dropEntry host } := by
  have h := error_of_attempt h
  cases outcome with
  | ok _ =>
    refine absurd h (Contained.bind (.report _) (fun _ => ?_) w e v)
    exact .bind (.count _ _) fun _ => .pure _
  | error e' =>
    obtain hdisconnect | ⟨_, u, hu, hrest⟩ := error_of_bind h
    · exact absurd hdisconnect (Engine.disconnect_contained (callAt_contained n) p w e v)
    · obtain ⟨⟨⟩⟩ | ⟨_, x, hx, hfail⟩ := error_of_bind hrest
      cases hx
      cases hfail
      exact ⟨u, hu, rfl⟩

/-- A construction that succeeded is counted. -/
theorem conclude_ok {n : Nat} {b : ProxyBinding} {p q : Address}
    {outcome : Except BridgeError Unit}
    (h : (conclude b p host outcome).attempt (callAt n) w = .ok (.ok q) v) :
    q = p ∧ Noted w v := by
  have h := ok_of_attempt h
  cases outcome with
  | ok _ =>
    obtain ⟨_, u, hu, hrest⟩ := Act.ok_of_bind h
    cases hu
    obtain ⟨_, x, hx, hend⟩ := Act.ok_of_bind hrest
    cases hend
    obtain ⟨journal, metrics, rfl⟩ := noted_of_count hx
    exact ⟨rfl, journal, metrics, rfl⟩
  | error e =>
    obtain ⟨_, u, -, hrest⟩ := Act.ok_of_bind h
    obtain ⟨_, x, -, hfail⟩ := Act.ok_of_bind hrest
    cases hfail

/-- An object without a live proxy is entered with a new one, which is held strongly. -/
theorem enter_meets {n : Nat} {o : List Owed} (ht : w.Tallied o)
    (hn : w.state.findProxy host = none) :
    (enter host).Meets (callAt n) w (fun _ _ _ => True)
      (fun made u => made.2 = .foreign w.state.heap.nextObject ∧ Entered w host made.1 u ∧
        u.Kept host made.2 (.making host made.2 .raw :: o)) fun _ _ => True := by
  let L : Law σ := (handleRealm σ).law ((handleRealm σ).respected n)
  have hmoves : (enter host : Act σ _).Moves L .plain o [] _ [] w _ := enter_moves trivial hn
  refine (hmoves List.nil_suffix trivial trivial ht).mono (fun _ _ _ _ => trivial) ?_
    fun _ _ _ => trivial
  rintro ⟨b, p⟩ u ⟨htallied, -, hp, hentered⟩
  obtain rfl : p = _ := hp
  refine ⟨rfl, hentered, htallied, fun _ => ?_⟩
  obtain ⟨s, -, hnext, htype, hu⟩ := hentered.opened
  obtain ⟨g, hg, hstrong⟩ := strong_addProxy s host htype
  have hfound := (findProxy_addProxy s host htype).1
  rw [← hu] at hg hfound
  rw [hnext] at hfound
  exact htallied.balanced.firm hg hstrong hfound

end Identity

/-! ## What foreign code does meanwhile -/

/-- In the methods that the action calls, an instance is told that it stands for `host` only where it is
the proxy that the bridge finds, and nothing is allocated that stands for `host` from the start. -/
structure Act.Honest (act : Act σ α) (n : Nat) (w : World σ) (host : Address) : Prop where
  tells : ∀ {d es q next v}, act.Reaches n w ⟨d, es, .ask (.setNative q host) next, v⟩ →
    v.state.findProxy host = some q
  allocates : ∀ {d es m next v}, act.Reaches n w ⟨d, es, .ask (.allocate m) next, v⟩ →
    m.native? ≠ some host

section Meanwhile

variable {act : Act σ α} {n : Nat} {w v : World σ} {host proxy : Address} {o : List Owed}

/-- The entry stays firm. -/
theorem Act.Spares.sustains (S : act.Spares n w host) :
    (Act.Course.of (callAt n) act w).Sustains fun v => v.Kept host proxy o where
  calls _ hrun hv := S.ends_call hrun.makes hv
  stored _ hv := ⟨⟨hv.tallied.balanced.of_heap rfl ⟨rfl, rfl, rfl, rfl⟩, hv.tallied.frames,
    hv.tallied.severing⟩, fun h => (hv.firm h).of_same rfl rfl⟩
  noted := by
    rintro v _ ⟨journal, metrics, rfl⟩ hv
    exact ⟨⟨hv.tallied.balanced.of_heap rfl ⟨rfl, rfl, rfl, rfl⟩, hv.tallied.frames,
      hv.tallied.severing⟩, fun h => (hv.firm h).of_same rfl rfl⟩

/-- Only the proxy of the entry comes to stand for `host`. -/
theorem Act.Honest.upholds (H : act.Honest n w host) (S : act.Spares n w host) (hhost : host ≠ .null)
    {among : Address → Prop} (hp : among proxy) :
    Spot.Upholds (fun y => act.Reaches n w y ∧ ∃ o, y.world.Kept host proxy o)
      fun _ v => v.state.heap.StoodFor host among where
  step hx hs := ⟨hx.1.step hs, (S.heeds proxy).stepped hs hx.1 hx.2⟩
  congr _ h := h
  change h hc := by
    apply hc.alters.stoodFor h
    · exact fun _ => False.elim
    · exact fun m hm he => hhost (hm host he)
  alone hx hf h := by
    apply (Request.outcome hf _).alters.stoodFor h
    · rintro q rfl
      obtain ⟨o, hkept⟩ := hx.2
      cases hkept.findProxy.symm.trans (H.tells hx.1)
      exact hp
    · rintro m (rfl | hm) he
      · exact H.allocates hx.1 he
      · exact hhost (hm host he)
  counted _ h := h
  defined _ _ h := h
  remembered _ h := h

/-- The entry stays firm, and only its proxy comes to stand for `host`. -/
theorem Act.Honest.sustains (H : act.Honest n w host) (S : act.Spares n w host) (hhost : host ≠ .null)
    {among : Address → Prop} (hp : among proxy) :
    (Act.Course.of (callAt n) act w).Sustains fun v =>
      v.Kept host proxy o ∧ v.state.heap.StoodFor host among where
  calls := by
    rintro m v inv hrun ⟨hkept, hstood⟩
    have hstanding := Reaches.ends_call (Q := fun u => u.state.heap.StoodFor host among) hrun.makes
      hstood fun y hy hworld => (H.upholds S hhost hp).run ⟨hy, o, hworld ▸ hkept.countCall m⟩
        (o := o) (by rw [hworld]; exact hstood)
    exact ((S.ends_call hrun.makes hkept).and hstanding).mono (fun _ _ h => h)
      fun _ _ h hf => ⟨h.1 hf, h.2 hf⟩
  stored memory h := ⟨S.sustains.stored memory h.1, h.2⟩
  noted := by
    rintro v u hnoted ⟨hkept, hstood⟩
    refine ⟨S.sustains.noted hnoted hkept, ?_⟩
    obtain ⟨journal, metrics, rfl⟩ := hnoted
    exact hstood

end Meanwhile

/-- The method that disconnects proxies stays the same. -/
theorem World.sustains_disconnects {n : Nat} (course : Act.Course (callAt n : Invoker σ)) :
    course.Sustains World.Disconnects where
  calls {_ v} _ _ hv := ((lastingRealm v).called (o := []) trivial trivial
    ⟨List.prefix_refl _, .refl _⟩).mono (fun _ _ h => hv.lasting h.1 h.2)
      fun _ _ h hf => hv.lasting (h hf).1 (h hf).2
  stored _ hv := hv
  noted := by
    rintro v _ ⟨journal, metrics, rfl⟩ hv
    exact hv

namespace Identity

variable {n : Nat} {w v : World σ} {host : Address} {reply : Except BridgeError Address} {o : List Owed}

/-- Where no proxy is answered, the table has no entry. -/
theorem entry_of_perform_error {e : BridgeError}
    (hr : (Request.proxy host).perform (callAt n) w = .ok (.error e) v) :
    v.state.bridge.entries.get? host = none := by
  cases hn : w.state.findProxy host with
  | some p =>
    have hfound := attempt_of_ok (proxyFor_of_found hn (callAt n))
    cases hfound.symm.trans hr
  | none =>
    obtain ⟨e', -, henter⟩ | ⟨b, p, u, outcome, x, -, -, hend⟩ := construct_of_perform hn hr
    · exact (enter_error (callAt_grows n) henter).entry
    · obtain ⟨y, -, rfl⟩ := conclude_error hend
      exact get?_dropEntry_self _ _

theorem disconnects_of_enter {made : ProxyBinding × Address} (hw : w.Disconnects)
    (hn : w.state.findProxy host = none) (h : enter host (callAt n) w = .ok made v) :
    v.Disconnects := by
  let L : Law σ := (lastingRealm w).law ((lastingRealm w).respected n)
  have hmoves : (enter host : Act σ _).Moves L .plain [] [] _ [] w _ := enter_moves trivial hn
  obtain ⟨⟨hbodies, hgrows⟩, -⟩ := (hmoves List.nil_suffix trivial trivial
    ⟨List.prefix_refl w.bodies, .refl _⟩).ok made v h
  exact hw.lasting hbodies hgrows

/-- What the calls of a course sustain in which a proxy is made holds after its construction. -/
theorem carried_of_proxyFor {course : Act.Course (callAt n : Invoker σ)} {b : ProxyBinding}
    {p : Address} {u x : World σ} {outcome : Except BridgeError Unit} {P : World σ → Prop}
    (ht : w.Tallied o) (hn : w.state.findProxy host = none)
    (hrun : course.Runs (proxyFor host : Act σ Address) w)
    (henter : enter host (callAt n) w = .ok (b, p) u)
    (hx : (construct b p host).attempt (callAt n) u = .ok outcome x) (S : course.Sustains P)
    (hu : P u) : P x := by
  have hhere : Act.Comes (callAt n) (proxyFor host : Act σ Address) w (proxyFor host : Act σ Address) w :=
    .here
  have hsteps := hhere.congr fun call => (proxyFor_eq_enter hn call).symm
  have hconstruct := (hsteps.next (enter_meets ht hn).strict henter).first
  exact ((S.construct b p host).attempt u (course.closed hrun hconstruct) hu).ok outcome x hx

/-- A proxy that is made in the course of an action is held strongly then, if its entry is left alone. -/
theorem kept_of_proxyFor {act : Act σ α} {start : World σ} {p : Address} (ht : w.Tallied o)
    (hn : w.state.findProxy host = none) (S : act.Spares n start host)
    (hcomes : Act.Comes (callAt n) act start (proxyFor host : Act σ Address) w)
    (hr : proxyFor host (callAt n) w = .ok p v) : v.Kept host p (.making host p .raw :: o) := by
  obtain ⟨e, ⟨⟩, -⟩ | ⟨b, q, u, outcome, x, henter, hx, hend⟩ :=
    construct_of_perform hn (attempt_of_ok hr)
  obtain ⟨-, -, hkept⟩ := (enter_meets ht hn).ok _ _ henter
  obtain ⟨rfl, hnoted⟩ := conclude_ok hend
  exact S.sustains.noted hnoted (carried_of_proxyFor ht hn hcomes henter hx S.sustains hkept)

/-- A proxy that is answered is found, if its entry was left alone. -/
theorem findProxy_of_perform {p : Address} (ht : w.Tallied o)
    (S : (Request.proxy host).perform.Spares n w host)
    (hr : (Request.proxy host).perform (callAt n) w = .ok (.ok p) v) :
    v.state.findProxy host = some p := by
  cases hn : w.state.findProxy host with
  | some q =>
    have hfound := attempt_of_ok (proxyFor_of_found hn (callAt n))
    cases hfound.symm.trans hr
    exact hn
  | none =>
    have hproxy : proxyFor host (callAt n) w = .ok p v := ok_of_attempt hr
    exact (kept_of_proxyFor ht hn S (.attempt .here) hproxy).findProxy

/-- Where no proxy is answered, nothing that was allocated since stands for the host object, if its
entry was left alone. -/
theorem stoodFor_of_perform_error {e : BridgeError} (ht : w.Tallied o)
    (hw : w.Disconnects) (S : (Request.proxy host).perform.Spares n w host)
    (H : (Request.proxy host).perform.Honest n w host)
    (hr : (Request.proxy host).perform (callAt n) w = .ok (.error e) v) :
    v.state.heap.StoodFor host w.state.heap.Given := by
  have hbefore {q : Address} (hq : w.state.heap.nativeOf q = some host) : w.state.heap.Given q :=
    ht.balanced.numbered.given (Heap.isAlive_of_nativeOf hq)
  cases hn : w.state.findProxy host with
  | some q =>
    have hfound := attempt_of_ok (proxyFor_of_found hn (callAt n))
    cases hfound.symm.trans hr
  | none =>
    obtain ⟨e', -, henter⟩ | ⟨b, p, u, outcome, x, henter, hx, hend⟩ := construct_of_perform hn hr
    · intro q hq
      rw [Heap.nativeOf_congr (enter_error (callAt_grows n) henter).objects] at hq
      exact hbefore hq
    obtain ⟨-, hentered, hkept⟩ := (enter_meets ht hn).ok _ _ henter
    obtain ⟨classRef, hclass, -⟩ := hentered.bound
    obtain ⟨i, rfl⟩ := Host.isObject_of_classOf hclass
    have hhost : Address.hostObject i ≠ .null := by rintro ⟨⟩
    -- During the construction the new proxy stands for the object, and no other new instance does.
    let among (q : Address) : Prop := q = p ∨ w.state.heap.Given q
    have hstood : u.state.heap.StoodFor (.hostObject i) among := by
      obtain ⟨s, hobjects, -, htype, hu⟩ := hentered.opened
      intro q hq
      rw [hu, State.nativeOf_addProxy htype] at hq
      split at hq
      · cases hq
      · rw [Heap.nativeOf_congr hobjects] at hq
        exact .inr (hbefore hq)
    have hrun : (Act.Course.of (callAt n) (Request.proxy (.hostObject i)).perform w).Runs
        (proxyFor (.hostObject i) : Act σ Address) w := .attempt .here
    have hamong : among p := .inl rfl
    obtain ⟨-, hstood⟩ := carried_of_proxyFor ht hn hrun henter hx
      (H.sustains S hhost hamong) ⟨hkept, hstood⟩
    have hdisconnects : x.Disconnects := carried_of_proxyFor ht hn hrun henter hx
      (World.sustains_disconnects _) (disconnects_of_enter hw hn henter)
    -- Then the proxy is disconnected, and so it stands for the object no more.
    obtain ⟨y, hy, rfl⟩ := conclude_error hend
    cases n with
    | zero => cases hy
    | succ n =>
      cases (Engine.disconnect_eq hdisconnects p).symm.trans hy
      intro q hq
      rw [Heap.nativeOf_congr (objects_dropEntry _ _).1] at hq
      have hq : (x.state.heap.setNative p .null).nativeOf q = some (.hostObject i) := hq
      rw [Heap.nativeOf_setNative] at hq
      split at hq
      · obtain ⟨_, -, ⟨⟩⟩ := Option.map_eq_some_iff.1 hq
      · rename_i hne
        exact (hstood q hq).resolve_left fun he => hne he.symm

end Identity

/-- What asking for a proxy promises, whatever the methods do that connect and construct it. Where it
fails the table has no entry for the host object. Where nothing that these methods ask for severs the
entry or loosens its hold, a proxy that is answered is the one that is found; and where, besides, they
tell no other instance that it stands for the host object, no instance that was allocated meanwhile
stands for it after a failure. -/
theorem proxy_kept_or_undone {config : Config} {registry : Registry} {side : ForeignSide σ}
    {memory : σ} {start w v : World σ} {rs : List Request} {n : Nat} {host : Address}
    {reply : Except BridgeError Address} (hside : side.foreign.heap = .empty)
    (hstart : World.connect config registry side memory = .ok start)
    (hw : Session.Sees (fun _ _ => True) (fun _ => True) start rs w)
    (hr : (Request.proxy host).perform (callAt n) w = .ok reply v) :
    (∀ e, reply = .error e → v.state.bridge.entries.get? host = none) ∧
    ((Request.proxy host).perform.Spares n w host →
      (∀ p, reply = .ok p → v.state.findProxy host = some p) ∧
      (start.Disconnects → (Request.proxy host).perform.Honest n w host →
        ∀ e, reply = .error e → ∀ q, ¬w.state.heap.Given q →
          v.state.heap.nativeOf q ≠ some host)) := by
  obtain ⟨o, ht⟩ := hw.tallied hside hstart
  have hlasting := hw.lasting
  refine ⟨?_, fun S => ⟨?_, fun hstock H => ?_⟩⟩
  · rintro e rfl
    exact Identity.entry_of_perform_error hr
  · rintro p rfl
    exact Identity.findProxy_of_perform ht S hr
  · rintro e rfl q hfresh hq
    have hdisconnects := hstock.lasting hlasting.1 hlasting.2
    exact hfresh (Identity.stoodFor_of_perform_error ht hdisconnects S H hr q hq)

/-! ## Constructors that enter the bridge again -/

namespace Sample

/-- The methods that connect, construct and disconnect proxies, and others that do nothing. -/
def creatingBodies (connect construct : Invocation → Program Bool) :
    List (Invocation → Program Bool) :=
  [fun inv => (Library.disconnect inv).toProgram, fun _ => .done none, connect] ++
    List.replicate 11 (fun _ => .done none) ++ [construct]

/-- A bridge to these methods. -/
def creatingStart (connect construct : Invocation → Program Bool) : World Bool where
  state := (world [⟨"G", ⟨"", "P", ".ctor", some ["intptr"]⟩, 1, 0⟩] []).state
  bodies := creatingBodies connect construct
  memory := false

theorem connect_creatingStart (connect construct : Invocation → Program Bool) :
    World.connect config .default ⟨heedingSide.foreign, creatingBodies connect construct⟩ false =
      .ok (creatingStart connect construct) := by
  rfl

/-- Makes a host object, of a class that can have proxies. -/
def spawning : Program Bool :=
  .ask (.defineType "G" "P") fun _ =>
  .ask (.defineClass ⟨"P", "P", "G", .native, false⟩ none) fun c =>
  .ask (.spawn c none "o") fun _ => .done none

/-- Whether asking for the proxy of that object answers as `check` says. -/
def creates (connect construct : Invocation → Program Bool)
    (check : World Bool → Except BridgeError Address → World Bool → Bool) : Bool :=
  match spawning.run (callAt 6) (creatingStart connect construct) with
  | .error _ _ => false
  | .ok _ w =>
    match (Request.proxy (.hostObject 0)).perform (callAt 6) w with
    | .ok reply v => w.bodies.length == 15 && w.state.heap.nextObject == 0 && check w reply v
    | .error _ _ => false

/-- It is asked for in a session. -/
theorem of_creates {connect construct : Invocation → Program Bool}
    {check : World Bool → Except BridgeError Address → World Bool → Bool}
    (h : creates connect construct check = true) : ∃ w reply v,
      Session.Sees (fun _ _ => True) (fun _ => True) (creatingStart connect construct) [] w ∧
      w.bodies = creatingBodies connect construct ∧ (∀ q, ¬w.state.heap.Given q) ∧
      (Request.proxy (.hostObject 0)).perform (callAt 6) w = .ok reply v ∧ check w reply v = true := by
  unfold creates at h
  split at h
  · cases h
  · rename_i a w hrun
    split at h
    · rename_i reply v hr
      simp only [Bool.and_eq_true, beq_iff_eq] at h
      obtain ⟨⟨hlength, hnext⟩, hcheck⟩ := h
      refine ⟨w, reply, v, ⟨w, .done none, 0, .ended .start trivial hrun, trivial, .here⟩, ?_, ?_, hr,
        hcheck⟩
      · exact ((bodies_of_run hrun).eq_of_length hlength.symm).symm
      · rintro q ⟨i, -, hi⟩
        omega
    · cases h

/-- Connects the receiver if the bridge finds it as the proxy of the object. -/
def claiming (inv : Invocation) : Program Bool :=
  .observe fun s _ =>
    match inv.receiver with
    | none => .done none
    | some p =>
      if s.findProxy (.hostObject 0) = some p then
        .ask (.setNative p (.hostObject 0)) fun _ => .done none
      else .done none

theorem asks_claiming {may : State → Request → Prop}
    (h : ∀ s p, s.findProxy (.hostObject 0) = some p → may s (.setNative p (.hostObject 0)))
    (inv : Invocation) (s : State) : (claiming inv).Asks may s := by
  intro s _
  dsimp only
  split
  · trivial
  · split
    · rename_i hfound
      exact ⟨h s _ hfound, fun _ _ => trivial⟩
    · trivial

/-- Asks for the proxy that is being made, runs a collection and gives up. -/
def failing (_ : Invocation) : Program Bool :=
  .ask (.proxy (.hostObject 0)) fun _ =>
  .ask (.collect true) fun _ => .throw ⟨"no", ""⟩

/-- Tears the object down for which it is run. -/
def leaving (_ : Invocation) : Program Bool :=
  .ask (.teardown (.hostObject 0)) fun _ => .done none

/-- When it is run for the first time, tears the object down, asks for its proxy anew and gives up. -/
def rising (_ : Invocation) : Program Bool :=
  .observe fun _ again =>
    if again then .done none
    else
      .remember true <|
      .ask (.teardown (.hostObject 0)) fun _ =>
      .ask (.proxy (.hostObject 0)) fun _ => .throw ⟨"no", ""⟩

/-- The stock method that connects. -/
def connectingTo (inv : Invocation) : Program Bool := (Library.connect inv).toProgram

theorem creates_failing : creates claiming failing (fun _ reply v =>
    (match reply with | .error _ => true | .ok _ => false) &&
      v.state.heap.isAlive (.foreign 0)) = true := by
  decide +kernel

theorem creates_leaving : creates connectingTo leaving (fun _ reply v =>
    (match reply with | .ok p => p == .foreign 0 | .error _ => false) &&
      v.state.findProxy (.hostObject 0) == none) = true := by
  decide +kernel

theorem creates_rising : creates connectingTo rising (fun _ reply v =>
    (match reply with | .error _ => true | .ok _ => false) &&
      v.state.heap.nativeOf (.foreign 1) == some (.hostObject 0)) = true := by
  decide +kernel

/-- What these methods ask for while that object is given a proxy. -/
inductive Careful (s : State) : Request → Prop
  | proxy : Careful s (.proxy (.hostObject 0))
  | collect : Careful s (.collect true)
  | forget (p : Address) : Careful s (.setNative p .null)
  | claim {p : Address} (h : s.findProxy (.hostObject 0) = some p) :
      Careful s (.setNative p (.hostObject 0))

theorem asks_failing : ∀ body ∈ creatingBodies claiming failing, ∀ inv s,
    (body inv).Asks Careful s := by
  intro body hbody inv s
  simp only [creatingBodies, List.cons_append, List.nil_append, List.mem_cons, List.mem_append,
    List.mem_replicate, List.not_mem_nil, or_false] at hbody
  obtain rfl | rfl | rfl | ⟨-, rfl⟩ | rfl := hbody
  · obtain ⟨_ | p, args⟩ := inv
    · trivial
    · exact ⟨.forget p, fun _ _ => trivial⟩
  · trivial
  · exact asks_claiming (fun _ _ => .claim) inv s
  · trivial
  · exact ⟨.proxy, fun _ _ => ⟨.collect, fun _ _ => trivial⟩⟩

theorem Careful.spares {s : State} {r : Request} (h : Careful s r) :
    Address.hostObject 0 ∉ r.severed s ∧ r ≠ .setRooted (.hostObject 0) false := by
  cases h <;> exact ⟨List.not_mem_nil, by rintro ⟨⟩⟩

end Sample

/-- `proxy_kept_or_undone` where the constructor asks for the proxy that it makes and runs a collection
before it throws. -/
theorem proxy_undone_of_failing : ∃ w v : World Bool, ∃ e,
    Session.Sees (fun _ _ => True) (fun _ => True)
      (Sample.creatingStart Sample.claiming Sample.failing) [] w ∧
    (Sample.creatingStart Sample.claiming Sample.failing).Disconnects ∧
    (Request.proxy (.hostObject 0)).perform.Spares 6 w (.hostObject 0) ∧
    (Request.proxy (.hostObject 0)).perform.Honest 6 w (.hostObject 0) ∧
    (Request.proxy (.hostObject 0)).perform (callAt 6) w = .ok (.error e) v ∧
    v.state.heap.isAlive (.foreign 0) = true ∧
    v.state.bridge.entries.get? (.hostObject 0) = none ∧
    ∀ q, v.state.heap.nativeOf q ≠ some (.hostObject 0) := by
  obtain ⟨w, reply, v, hsees, hbodies, hfresh, hr, hcheck⟩ := Sample.of_creates Sample.creates_failing
  have hcareful {y : Spot Bool} (hy : (Request.proxy (.hostObject 0)).perform.Reaches 6 w y) :
      y.program.Asks Sample.Careful y.world.state :=
    Request.reaches_asks Sample.asks_failing hbodies hy
  have hspares : (Request.proxy (.hostObject 0)).perform.Spares 6 w (.hostObject 0) :=
    ⟨fun hy => (hcareful hy).1.spares⟩
  have hhonest : (Request.proxy (.hostObject 0)).perform.Honest 6 w (.hostObject 0) := by
    refine ⟨fun hy => ?_, fun hy => ?_⟩
    · cases (hcareful hy).1 with
      | claim h => exact h
    · nomatch (hcareful hy).1
  obtain ⟨herror, hkept⟩ := proxy_kept_or_undone rfl
    (Sample.connect_creatingStart Sample.claiming Sample.failing) hsees hr
  simp only [Bool.and_eq_true] at hcheck
  obtain ⟨hreply, halive⟩ := hcheck
  split at hreply
  · rename_i e
    refine ⟨w, v, e, hsees, rfl, hspares, hhonest, hr, halive, herror e rfl, fun q => ?_⟩
    exact (hkept hspares).2 rfl hhonest e rfl q (hfresh q)
  · cases hreply

/-- A constructor that tears its own object down leaves a proxy that is answered but not found; and one
that then asks for the proxy anew and throws leaves a second instance that stands for the object. -/
theorem proxy_neither_kept_nor_undone :
    (∃ w v : World Bool, ∃ p, Session.Sees (fun _ _ => True) (fun _ => True)
        (Sample.creatingStart Sample.connectingTo Sample.leaving) [] w ∧
      (Request.proxy (.hostObject 0)).perform (callAt 6) w = .ok (.ok p) v ∧
      v.state.findProxy (.hostObject 0) = none) ∧
    ∃ w v : World Bool, ∃ e q, Session.Sees (fun _ _ => True) (fun _ => True)
        (Sample.creatingStart Sample.connectingTo Sample.rising) [] w ∧
      (Sample.creatingStart Sample.connectingTo Sample.rising).Disconnects ∧
      (Request.proxy (.hostObject 0)).perform (callAt 6) w = .ok (.error e) v ∧
      ¬w.state.heap.Given q ∧ v.state.heap.nativeOf q = some (.hostObject 0) := by
  constructor
  · obtain ⟨w, reply, v, hsees, -, -, hr, hcheck⟩ := Sample.of_creates Sample.creates_leaving
    simp only [Bool.and_eq_true, beq_iff_eq] at hcheck
    cases reply with
    | ok p => exact ⟨w, v, p, hsees, hr, hcheck.2⟩
    | error e => cases hcheck.1
  · obtain ⟨w, reply, v, hsees, -, hfresh, hr, hcheck⟩ := Sample.of_creates Sample.creates_rising
    simp only [Bool.and_eq_true, beq_iff_eq] at hcheck
    cases reply with
    | ok p => cases hcheck.1
    | error e => exact ⟨w, v, e, .foreign 1, hsees, rfl, hr, hfresh _, hcheck.2⟩

end TwinHeap
