import TwinHeap.Proofs.Exceptions
import TwinHeap.Proofs.Spots

/-!
# Stability — the same proxy as long as its entry is heeded

From a point where a strong entry holds the proxy of a host object, and no construction of a proxy for
that object is going on, the bridge answers with this proxy wherever it is asked, as long as the entry
is neither removed nor loosened (`proxy_stable`). Nothing else that the host or foreign code does
matters, at whatever depth it does it, and however often the foreign runtime collects.

What foreign code remembers tells when the entry is heeded (`during`), so a stretch of a run may
begin and end within any method body.
-/

namespace TwinHeap

variable {σ α β : Type}

/-- In a set of spots that is closed under steps, the entry of `host`, which holds `proxy`, is left
alone while `during` holds of what foreign code remembers. -/
structure Heeds (good : Spot σ → Prop) (during : σ → Prop) (host proxy : Address) : Prop where
  step : ∀ {x y}, good x → x.Step y → good y
  /-- It begins outside of any construction of a proxy for `host`, and with a strong entry. -/
  begins : ∀ {n es memory next w}, good ⟨n, es, .remember memory next, w⟩ → ¬during w.memory →
    during memory → (∀ e ∈ es, ¬e.Constructs host) ∧
      (∃ g, w.state.bridge.entries.get? host = some g ∧ g.strength = .strong) ∧
      w.state.findProxy host = some proxy
  /-- Neither a pass, nor a teardown, nor a shutdown that concerns `host` is asked for, nor that its
  entry be weak. -/
  asks : ∀ {n es r next w}, good ⟨n, es, .ask r next, w⟩ → during w.memory →
    host ∉ r.severed w.state ∧ r ≠ .setRooted host false
  /-- It is over before foreign code gives control back to one of these. -/
  returns : ∀ {x e es}, good x → x.around = e :: es → host ∈ e.request.severed e.asked.state →
    x.RunEnds fun v => ¬during v.memory

namespace World

/-- The handles are accounted for, and the entry of `host` is firm while it is heeded. -/
structure Heeded (during : σ → Prop) (host proxy : Address) (o : List Owed) (w : World σ) : Prop where
  tallied : w.Tallied o
  firm : during w.memory → w.state.Firm host proxy

/-- The handles are accounted for, and nothing is heeded. -/
structure Calm (during : σ → Prop) (o : List Owed) (w : World σ) : Prop where
  tallied : w.Tallied o
  free : ¬during w.memory

variable {during : σ → Prop} {host proxy : Address} {o o' : List Owed} {w : World σ}

theorem Calm.heeded (h : w.Calm during o) : w.Heeded during host proxy o :=
  ⟨h.tallied, fun hd => absurd hd h.free⟩

theorem Calm.congr (h : w.Calm during o) (hc : o'.map Owed.core = o.map Owed.core) :
    w.Calm during o' :=
  ⟨h.tallied.congr hc, h.free⟩

theorem Heeded.congr (h : w.Heeded during host proxy o) (hc : o'.map Owed.core = o.map Owed.core) :
    w.Heeded during host proxy o' :=
  ⟨h.tallied.congr hc, h.firm⟩

theorem Heeded.countCall (h : w.Heeded during host proxy o) (m : Nat) :
    (w.countCall m).Heeded during host proxy o :=
  ⟨h.tallied.countCall m, fun hd => (h.firm hd).of_same rfl rfl⟩

theorem Heeded.define (h : w.Heeded during host proxy o) (info : MethodInfo)
    (body : Invocation → Program σ) : (w.define info body).Heeded during host proxy o :=
  ⟨h.tallied.define info body, fun hd => (h.firm hd).of_same rfl rfl⟩

theorem Calm.countCall (h : w.Calm during o) (m : Nat) : (w.countCall m).Calm during o :=
  ⟨h.tallied.countCall m, h.free⟩

end World

/-! ## Laws -/

/-- A reason to call foreign code is one on freer terms, too. -/
theorem Reason.mono {T T' : Terms} {o o' b : List Owed} {s : State} {m : Nat} {inv : Invocation}
    (h : Reason T o s m inv o' b) (hready : T.ready o → T'.ready o)
    (hask : ∀ m a as, T.mayAsk (.call m a as) → T'.mayAsk (.call m a as)) :
    Reason T' o s m inv o' b := by
  cases h with
  | connect hc hf hn => exact .connect hc hf hn
  | construct hb hc => exact .construct hb hc
  | complete => exact .complete
  | undo => exact .undo
  | sever => exact .sever
  | nativePtr hr => exact .nativePtr (hready hr)
  | factory hr hm => exact .factory (hready hr) hm
  | box hr hf hm => exact .box (hready hr) hf hm
  | linked hr hk hl => exact .linked (hready hr) hk hl
  | direct hr h => exact .direct (hready hr) (hask _ _ _ h)

section Laws

variable {during : σ → Prop} {host proxy : Address} {n : Nat}

/-- Nothing is heeded, and no call of the course changes that. -/
def calmLaw (during : σ → Prop) (course : Act.Course (callAt n : Invoker σ))
    (hcalls : ∀ {o m inv v}, World.Calm during o v →
      course.Runs (Act.callMethod m inv.receiver inv.args) v →
      Ends (callAt n m inv v) (fun _ u => u.Calm during o)
        fun f u => f ≠ .exhausted → u.Calm during o) : Law σ where
  toTerms := .asking (fun _ => True) fun _ => True
  call := callAt n
  course := course
  holds o w := w.Calm during o
  grows := callAt_grows n
  ready_cons _ _ := trivial
  fresh _ _ := trivial
  change h hc := ⟨hc.tallied h.tallied, h.free⟩
  called ho hr hrun := (hcalls ho hrun).mono
    (fun _ _ hv => hv.congr (Owed.core_after hr.core.1 hr.core.2))
    fun _ _ hv hf => (hv hf).congr hr.core.2

/-- What is heeded is left alone: the entry of `host` is not removed or loosened, and no proxy is made
for it on top of what was owed before. -/
def heedLaw (during : σ → Prop) (host proxy : Address) (base : List Owed)
    (course : Act.Course (callAt n : Invoker σ))
    (hcalls : ∀ {o m inv v}, World.Heeded during host proxy o v →
      course.Runs (Act.callMethod m inv.receiver inv.args) v →
      Ends (callAt n m inv v) (fun _ u => u.Heeded during host proxy o)
        fun f u => f ≠ .exhausted → u.Heeded during host proxy o) : Law σ where
  base := base
  mayAsk r := r ≠ .setRooted host false
  mayWrite _ := True
  mayMake a := a ≠ host
  maySever a := a ≠ host
  ready _ := True
  call := callAt n
  course := course
  holds o w := w.Heeded during host proxy o ∧
    o.countP (Owed.makes host) ≤ base.countP (Owed.makes host)
  sees o w := w.Heeded during host proxy o
  seen h := h.1
  grows := callAt_grows n
  ready_cons _ _ := trivial
  fresh _ _ := trivial
  change h hc := by
    obtain ⟨hw, hm⟩ := h
    refine ⟨⟨hc.tallied hw.tallied, fun hd => ?_⟩, Nat.le_trans (hc.countP_makes ?_) hm⟩
    · exact hc.firm hw.tallied.balanced (fun hs => hs rfl) (fun hr => hr rfl)
        (Nat.le_trans hm (Nat.le_max_left _ _)) (hw.firm hd)
    · exact fun hmake => hmake rfl
  called := by
    intro o o' b w m inv ho hr hrun
    refine (hcalls ho.1 hrun).mono ?_ ?_
    · intro a v hv
      have hcore := Owed.core_after (a := a) hr.core.1 hr.core.2
      exact ⟨hv.congr hcore, Nat.le_trans (Nat.le_of_eq (Owed.countP_makes_of_core _ hcore)) ho.2⟩
    · intro f v hv hf
      exact ⟨(hv hf).congr hr.core.2,
        Nat.le_trans (Nat.le_of_eq (Owed.countP_makes_of_core _ hr.core.2)) ho.2⟩

end Laws

/-- Where nothing is heeded, it does not matter what the bridge does, as long as the calls do not begin
to heed anything. -/
theorem Act.Obeys.of_calm {act : Act σ α} {sit : Situation} {during : σ → Prop}
    {host proxy : Address} {n : Nat} {base r : List Owed} {w : World σ}
    {course course' : Act.Course (callAt n : Invoker σ)} {hcalls hcalls'}
    (h : act.Obeys (calmLaw during course' hcalls') sit r w)
    (hsub : course.Runs act w → course'.Runs act w ∧
      ∀ {β : Type} {act' : Act σ β} {v : World σ}, course'.Runs act' v → course.Runs act' v)
    (hfree : ¬during w.memory) :
    act.Obeys (heedLaw during host proxy base course hcalls) sit r w := by
  intro hb hready hrun ho
  obtain ⟨hrun', hback⟩ := hsub hrun
  refine (h List.nil_suffix trivial hrun' ⟨ho.1.tallied, hfree⟩).mono ?_ ?_ ?_
  · rintro m inv v ⟨t, o, b, hfit, hs, hv, hg, hcall, hreason⟩
    refine ⟨t, o, b, hfit, hs, hv.heeded, hg, hback hcall, hreason.mono (fun _ => trivial) ?_⟩
    rintro m a as - ⟨⟩
  · rintro a v ⟨hv, hg, -⟩
    exact ⟨⟨hv.heeded, ho.2⟩, hg, trivial⟩
  · intro f v hE hf
    exact ⟨⟨(hE hf).1.heeded, ho.2⟩, (hE hf).2⟩

/-! ## Spots -/

namespace Heeds

variable {good : Spot σ → Prop} {during : σ → Prop} {host proxy : Address}

/-- Within the making of a proxy for `host`, foreign code does not begin to heed its entry. -/
theorem calm (S : Heeds good during host proxy) {x : Spot σ} (hx : good x)
    (hmakes : ∃ e ∈ x.around, e.Constructs host) {o : List Owed} (ho : x.world.Calm during o) :
    x.RunEnds fun v => v.Calm during o := by
  obtain ⟨n, es, p, w⟩ := x
  induction n using Nat.strongRecOn generalizing es p w o with
  | _ n ih =>
  refine Spot.runEnds (I := fun y => good y ∧ y.world.Calm during o) ?_ ?_ ?_ ?_ (fun h => h.2)
    ⟨hx, ho⟩
  · rintro next w ⟨hg, hw⟩
    exact ⟨S.step hg .observe, hw⟩
  · rintro memory next w ⟨hg, hw⟩
    refine ⟨S.step hg .remember, hw.tallied.remember memory, fun hd => ?_⟩
    obtain ⟨e, he, hconstructs⟩ := hmakes
    exact (S.begins hg hw.free hd).1 e he hconstructs
  · rintro info body next w ⟨hg, hw⟩
    exact ⟨S.step hg .define, hw.tallied.define info body, hw.free⟩
  · rintro r next w ⟨hg, hw⟩
    -- The spot inside of a call is less deep, and is still around the construction.
    have hcalls {o : List Owed} {m : Nat} {inv : Invocation} {v : World σ} (hv : v.Calm during o)
        (hrun : (Act.Course.of (callAt n) r.perform w).Runs
          (Act.callMethod m inv.receiver inv.args) v) :
        Ends (callAt n m inv v) (fun _ u => u.Calm during o)
          fun f u => f ≠ .exhausted → u.Calm during o := by
      refine Spot.ends_call es next hrun hv ?_
      rintro ⟨n', es', p', w'⟩ hstep hlt rfl rfl
      obtain ⟨e, he, hconstructs⟩ := hmakes
      exact ih n' hlt _ _ _ (S.step hg hstep) ⟨e, List.mem_cons_of_mem _ he, hconstructs⟩
        (hv.countCall m)
    have hobeys := Request.perform_obeys_of_asking
      (L := calmLaw during (.of (callAt n) r.perform w) hcalls) rfl (fun _ => trivial) (r := r)
      trivial o w List.nil_suffix trivial .here hw
    refine ends_iff.2 ⟨fun reply u hu => ?_, fun f u hu hf => (hobeys.err f u hu hf).1⟩
    exact ⟨S.step hg (.answered hu), (hobeys.ok reply u hu).1⟩

section Request

variable {n : Nat} {es : List (Enclosing σ)} {r : Request} {next : r.Reply → Program σ} {w : World σ}
  {base o : List Owed} {hcalls : ∀ {o : List Owed} {m : Nat} {inv : Invocation} {v : World σ},
    World.Heeded during host proxy o v → (Act.Course.of (callAt n) r.perform w).Runs
      (Act.callMethod m inv.receiver inv.args) v →
    Ends (callAt n m inv v) (fun _ u => u.Heeded during host proxy o)
      fun f u => f ≠ .exhausted → u.Heeded during host proxy o}

/-- The proxy of `host` is found while its entry is heeded; otherwise it may be made anew. -/
theorem proxyFor_obeys (S : Heeds good during host proxy) (hg : good ⟨n, es, .ask r next, w⟩)
    {v : World σ} : (Identity.proxyFor host : Act σ Address).Obeys
      (heedLaw during host proxy base (.of (callAt n) r.perform w) hcalls) .plain o v := by
  intro hb hready hrun ho
  by_cases hd : during v.memory
  · have hfound := (ho.1.firm hd).findProxy ho.1.tallied.balanced
    exact Identity.proxyFor_obeys_of_found hfound hb hready hrun ho
  · have hcalm {o : List Owed} {m : Nat} {inv : Invocation} {u : World σ} (hu : u.Calm during o)
        (hcomes : (Act.Course.of (callAt n) (Identity.proxyFor host : Act σ Address) v).Runs
          (Act.callMethod m inv.receiver inv.args) u) :
        Ends (callAt n m inv u) (fun _ u => u.Calm during o)
          fun f u => f ≠ .exhausted → u.Calm during o := by
      refine Spot.ends_call es next (hrun.trans hcomes) hu ?_
      rintro y hstep - haround hworld
      refine S.calm (S.step hg hstep) ?_ (hworld ▸ hu.countCall m)
      rw [haround]
      exact ⟨_, List.mem_cons_self, v, hrun, hcomes⟩
    have hobeys : (Identity.proxyFor host : Act σ Address).Obeys
        (calmLaw during (.of (callAt n) (Identity.proxyFor host : Act σ Address) v) hcalm)
        .plain o v := Identity.proxyFor_obeys trivial
    exact hobeys.of_calm (fun hrun => ⟨.here, fun h => Act.Comes.trans hrun h⟩) hd hb hready hrun ho

/-- A removal that concerns `host` is asked for only where its entry is not heeded, and goes on only
where it is not heeded any more. -/
theorem sever_obeys (S : Heeds good during host proxy) (hg : good ⟨n, es, .ask r next, w⟩)
    (hmem : host ∈ r.severed w.state) (reason : String) :
    (Identity.sever reason (r.severed w.state) : Act σ Nat).Obeys
      (heedLaw during host proxy base (.of (callAt n) r.perform w) hcalls) .severing o w := by
  have hcalm {o : List Owed} {m : Nat} {inv : Invocation} {u : World σ} (hu : u.Calm during o)
      (hcomes : (Act.Course.of (callAt n) r.perform w).Runs
        (Act.callMethod m inv.receiver inv.args) u) :
      Ends (callAt n m inv u) (fun _ u => u.Calm during o)
        fun f u => f ≠ .exhausted → u.Calm during o := by
    have hfree : Ends (callAt n m inv u) (fun _ v => ¬during v.memory)
        fun f v => f ≠ .exhausted → ¬during v.memory := by
      refine Spot.ends_call es next hcomes hu.free ?_
      rintro y hstep - haround -
      exact S.returns (S.step hg hstep) haround hmem
    exact ((hcalls hu.heeded hcomes).and hfree).mono (fun _ _ h => ⟨h.1.tallied, h.2⟩)
      fun _ _ h hf => ⟨(h.1 hf).tallied, h.2 hf⟩
  have hobeys : (Identity.sever reason (r.severed w.state) : Act σ Nat).Obeys
      (calmLaw during (.of (callAt n) r.perform w) hcalm) .severing o w :=
    Identity.sever_obeys reason fun _ _ => trivial
  exact hobeys.of_calm (fun hrun => ⟨hrun, fun h => h⟩) fun hd => (S.asks hg hd).1 hmem

end Request

/-- The entry that foreign code begins to heed is firm. -/
theorem remember (S : Heeds good during host proxy) {n : Nat} {es : List (Enclosing σ)} {memory : σ}
    {next : Program σ} {w : World σ} (hg : good ⟨n, es, .remember memory next, w⟩)
    {o : List Owed} (hw : w.Heeded during host proxy o) :
    World.Heeded during host proxy o { w with memory := memory } := by
  refine ⟨hw.tallied.remember memory, fun hd => ?_⟩
  by_cases hbefore : during w.memory
  · exact hw.firm hbefore
  · obtain ⟨-, ⟨g, hentry, hstrong⟩, hfound⟩ := S.begins hg hbefore hd
    exact hw.tallied.balanced.firm hentry hstrong hfound

/-- What a request keeps: the entry of `host` is firm where it is heeded, at every call of foreign code
and in the end. -/
theorem meets (S : Heeds good during host proxy) {n : Nat} {es : List (Enclosing σ)} {r : Request}
    {next : r.Reply → Program σ} {w : World σ} (hg : good ⟨n, es, .ask r next, w⟩)
    {o : List Owed} (hw : w.Heeded during host proxy o)
    (hrun : ∀ y : Spot σ, good y → y.depth < n → ∀ o, y.world.Heeded during host proxy o →
      y.RunEnds fun v => v.Heeded during host proxy o) :
    r.perform.Meets (callAt n) w (fun _ _ v => ∃ o, v.Heeded during host proxy o)
      (fun _ v => v.Heeded during host proxy o)
      fun f v => f ≠ .exhausted → v.Heeded during host proxy o := by
  by_cases hroot : r = .setRooted host false
  · -- The hold of the entry is loosened, but nothing is heeded.
    subst hroot
    have hfree : ¬during w.memory := fun hd => (S.asks hg hd).2 rfl
    have hcalm : World.Calm during o { w with state := (w.state.setRooted host false).2 } :=
      ⟨hw.tallied.alone (r := .setRooted host false) rfl, hfree⟩
    have hedit : (Act.editGet (·.setRooted host false) : Act σ Bool).Meets (callAt n) w
        (fun _ _ v => ∃ o, v.Heeded during host proxy o)
        (fun _ v => v.Heeded during host proxy o)
        fun f v => f ≠ .exhausted → v.Heeded during host proxy o := .editGet hcalm.heeded
    exact hedit
  have hcalls {o : List Owed} {m : Nat} {inv : Invocation} {v : World σ}
      (hv : v.Heeded during host proxy o) (hcomes : (Act.Course.of (callAt n) r.perform w).Runs
        (Act.callMethod m inv.receiver inv.args) v) :
      Ends (callAt n m inv v) (fun _ u => u.Heeded during host proxy o)
        fun f u => f ≠ .exhausted → u.Heeded during host proxy o := by
    refine Spot.ends_call es next hcomes hv ?_
    rintro y hstep hlt - hworld
    exact hrun y (S.step hg hstep) hlt o (hworld ▸ hv.countCall m)
  have hproxies : Law.MakesProxies (heedLaw during host proxy o (.of (callAt n) r.perform w)
      hcalls) := by
    intro host' r' v
    by_cases hne : host' = host
    · subst hne
      exact S.proxyFor_obeys hg
    · exact Identity.proxyFor_obeys hne
  have hsever (reason : String) : (Identity.sever reason (r.severed w.state) : Act σ Nat).Obeys
      (heedLaw during host proxy o (.of (callAt n) r.perform w) hcalls) .severing o w := by
    by_cases hmem : host ∈ r.severed w.state
    · exact S.sever_obeys hg hmem reason
    · exact Identity.sever_obeys reason fun a ha he => hmem (he ▸ ha)
  have hobeys := Request.perform_obeys hproxies (fun _ _ => trivial) (fun _ => by rintro ⟨⟩) hroot
    hsever List.suffix_rfl trivial .here ⟨hw, Nat.le_refl _⟩
  refine hobeys.mono ?_ (fun _ v h => h.1.1) fun _ v h hf => (h hf).1.1
  rintro m inv v ⟨t, -, -, -, -, hv, -⟩
  exact ⟨t ++ o, hv⟩

/-- At every spot the entry of `host` is firm where it is heeded, and so it is at the end. -/
theorem run (S : Heeds good during host proxy) {x : Spot σ} (hx : good x) {o : List Owed}
    (ho : x.world.Heeded during host proxy o) :
    x.RunEnds fun v => v.Heeded during host proxy o := by
  obtain ⟨n, es, p, w⟩ := x
  induction n using Nat.strongRecOn generalizing es p w o with
  | _ n ih =>
  refine Spot.runEnds (I := fun y => good y ∧ y.world.Heeded during host proxy o) ?_ ?_ ?_ ?_
    (fun h => h.2) ⟨hx, ho⟩
  · rintro next w ⟨hg, hw⟩
    exact ⟨S.step hg .observe, hw⟩
  · rintro memory next w ⟨hg, hw⟩
    exact ⟨S.step hg .remember, S.remember hg hw⟩
  · rintro info body next w ⟨hg, hw⟩
    exact ⟨S.step hg .define, hw.define info body⟩
  · rintro r next w ⟨hg, hw⟩
    have hmeets := S.meets hg hw fun y hy hlt o ho => ih y.depth hlt y.around y.program y.world hy ho
    refine ends_iff.2 ⟨fun reply u hu => ?_, fun f u hu hf => hmeets.err f u hu hf⟩
    exact ⟨S.step hg (.answered hu), hmeets.ok reply u hu⟩

/-- What holds at a spot holds at those that come next. -/
theorem stepped (S : Heeds good during host proxy) {x y : Spot σ} (hs : x.Step y) (hx : good x)
    (ho : ∃ o, x.world.Heeded during host proxy o) : ∃ o, y.world.Heeded during host proxy o := by
  obtain ⟨o, ho⟩ := ho
  cases hs with
  | observe => exact ⟨o, ho⟩
  | remember => exact ⟨o, S.remember hx ho⟩
  | define => exact ⟨o, ho.define _ _⟩
  | answered hr =>
    exact ⟨o, (S.meets hx ho fun y hy _ o ho => S.run hy ho).ok _ _ hr⟩
  | entered hm hb =>
    obtain ⟨o', ho'⟩ := (S.meets hx ho fun y hy _ o ho => S.run hy ho).only.of_makes hm
    exact ⟨o', ho'.countCall _⟩

end Heeds

/-- Wherever the host or foreign code asks for the proxy of `host` while its entry is heeded, it is
answered with the same proxy, and nothing else happens: nothing is allocated, called or counted. -/
theorem proxy_stable {config : Config} {registry : Registry} {side : ForeignSide σ} {memory : σ}
    {start : World σ} {ps : List (Nat × Program σ)} {during : σ → Prop} {host proxy : Address}
    (hside : side.foreign.heap = .empty)
    (hstart : World.connect config registry side memory = .ok start)
    (hbefore : ¬during memory) (hheeds : Heeds (Along start ps) during host proxy)
    {x : Spot σ} (hx : Along start ps x) (hduring : during x.world.memory) (call : Invoker σ) :
    (Request.proxy host).perform call x.world = .ok (.ok proxy) x.world := by
  have hfirst : start.Heeded during host proxy [] := by
    refine ⟨World.tallied_connect hside hstart, fun hd => ?_⟩
    rw [(World.of_connect hstart).2.1] at hd
    exact absurd hd hbefore
  have hheeded (y : Spot σ) (hy : Along start ps y) : ∃ o, y.world.Heeded during host proxy o := by
    induction hy with
    | begins h hps =>
      exact ⟨[], h.ends ((List.prefix_append _ _).trans hps) hfirst
        fun y hy _ ho => hheeds.run hy ho⟩
    | step hy hs ih => exact hheeds.stepped hs hy ih
  obtain ⟨o, ho⟩ := hheeded x hx
  have hfound := (ho.firm hduring).findProxy ho.tallied.balanced
  exact Act.attempt_of_ok (Identity.proxyFor_of_found hfound call)

/-! ## A session with a collection -/

namespace Sample

/-- Remembers and defines nothing, severs nothing, and leaves the entry of `host` strong. -/
def Mild (host : Address) : Program σ → Prop
  | .done _ => True
  | .throw _ => True
  | .panic _ => True
  | .observe next => ∀ s memory, Mild host (next s memory)
  | .remember _ _ => False
  | .define _ _ _ => False
  | .ask r next => (∀ s, r.severed s = []) ∧ r ≠ .setRooted host false ∧
      ∀ reply, Mild host (next reply)

def heedingSide : ForeignSide Bool :=
  ⟨⟨.empty, .empty, library ++ [⟨"G", ⟨"", "P", ".ctor", some ["intptr"]⟩, 1, 0⟩]⟩,
    List.replicate 15 fun _ => .done none⟩

/-- Makes the proxy of one of two objects. -/
def settling : Program Bool :=
  .ask (.defineType "G" "P") fun _ =>
  .ask (.defineClass ⟨"P", "P", "G", .native, false⟩ none) fun c =>
  .ask (.spawn c none "o") fun o =>
  .ask (.spawn c none "p") fun _ =>
  .ask (.proxy o) fun _ => .done none

/-- Asks for the proxy again, after that of the other object was made and a collection was run. -/
def asking : Program Bool :=
  .ask (.proxy (.hostObject 1)) fun _ =>
  .ask (.collect true) fun _ =>
  .ask (.proxy (.hostObject 0)) fun _ => .done none

/-- There is a strong entry of the first object, and the other one can be given a proxy. -/
def isSettled (w : World Bool) : Bool :=
  (w.state.bridge.entries.get? (.hostObject 0)).map Grip.strength == some .strong &&
    w.state.findProxy (.hostObject 0) == some (.foreign 0) && w.bodies.length == 15 &&
    match (Request.proxy (.hostObject 1)).perform (callAt 2) { w with memory := true } with
    | .ok (.ok p) v => p == .foreign 1 && v.memory
    | _ => false

theorem run_settling : endsFrom heedingSide false 2 settling isSettled = true := by
  decide +kernel

theorem mild_settling (host : Address) : Mild host settling := by
  refine ⟨fun _ => rfl, by rintro ⟨⟩, fun _ => ⟨fun _ => rfl, by rintro ⟨⟩, fun c => ?_⟩⟩
  refine ⟨fun _ => rfl, by rintro ⟨⟩, fun o => ⟨fun _ => rfl, by rintro ⟨⟩, fun _ => ?_⟩⟩
  exact ⟨fun _ => rfl, by rintro ⟨⟩, fun _ => trivial⟩

theorem mild_asking (host : Address) : Mild host asking := by
  refine ⟨fun _ => rfl, by rintro ⟨⟩, fun _ => ⟨fun _ => rfl, by rintro ⟨⟩, fun _ => ?_⟩⟩
  exact ⟨fun _ => rfl, by rintro ⟨⟩, fun _ => trivial⟩

/-- Where methods only return or throw, a session of two mild programs leaves the entry alone from
the second one on. -/
theorem heeds_of_mild {start w : World Bool} {p q : Program Bool} {n : Nat} {host proxy : Address}
    {a : Except ForeignException (Option Address)} (hidle : start.Idle) (hp : Mild host p)
    (hq : Mild host q) (hr : p.run (callAt n) start = .ok a w) (hw : w.Idle) {g : Grip}
    (hg : w.state.bridge.entries.get? host = some g) (hstrong : g.strength = .strong)
    (hf : w.state.findProxy host = some proxy) :
    Heeds (Along start [(n, p), (n, .remember true q)]) (· = true) host proxy := by
  -- Whatever is in control is mild, but for the host when it begins to heed the entry.
  have hspots (x : Spot Bool) (hx : Along start [(n, p), (n, .remember true q)] x) :
      x.world.Idle ∧ (∀ e ∈ x.around, ∀ s, e.request.severed s = []) ∧
        (Mild host x.program ∨ x = ⟨n, [], .remember true q, w⟩) := by
    have hnone : ∀ e ∈ ([] : List (Enclosing Bool)), ∀ s, e.request.severed s = [] := by
      rintro _ ⟨⟩
    induction hx with
    | begins h hps =>
      obtain ⟨heq, rfl⟩ | ⟨heq, ⟨a', hr'⟩ | ⟨f, -, hr'⟩⟩ := h.of_pair hps
      · cases heq
        exact ⟨hidle, hnone, .inl hp⟩
      · cases heq
        rw [hr] at hr'
        cases hr'
        exact ⟨hw, hnone, .inr rfl⟩
      · rw [hr] at hr'
        cases hr'
    | step _ hs ih =>
      obtain ⟨hi, haround, hmild | heq⟩ := ih
      · cases hs with
        | observe => exact ⟨hi, haround, .inl (hmild _ _)⟩
        | remember => exact hmild.elim
        | define => exact hmild.elim
        | answered hr' =>
          exact ⟨(hi.meets _ _).ok _ _ hr', haround, .inl (hmild.2.2 _)⟩
        | @entered _ _ _ _ _ _ _ inv body hm hb =>
          have hu := (hi.meets _ _).only.of_makes hm
          refine ⟨hu, List.forall_mem_cons.2 ⟨hmild.1, haround⟩, .inl ?_⟩
          show Mild host (body inv)
          obtain ⟨b, hb'⟩ | ⟨b, hb'⟩ := hu _ (List.mem_of_getElem? hb) inv
          · rw [hb']
            trivial
          · rw [hb']
            trivial
      · subst heq
        cases hs
        exact ⟨hw, hnone, .inl hq⟩
  refine ⟨.step, ?_, ?_, ?_⟩
  · intro n' es memory next v hx _ _
    obtain ⟨-, -, hmild | heq⟩ := hspots _ hx
    · exact hmild.elim
    · cases heq
      refine ⟨?_, ⟨g, hg, hstrong⟩, hf⟩
      rintro _ ⟨⟩
  · intro n' es r next v hx _
    obtain ⟨-, -, hmild | heq⟩ := hspots _ hx
    · refine ⟨?_, hmild.2.1⟩
      rw [hmild.1]
      exact List.not_mem_nil
    · cases heq
  · intro x e es hx haround hmem
    have hsevered := (hspots x hx).2.1 e (haround ▸ List.mem_cons_self)
    rw [hsevered] at hmem
    cases hmem

end Sample

/-- `proxy_stable` after the proxy of another object was made and a collection was run. -/
theorem proxy_stable_through_collection : ∃ start w v : World Bool,
    World.connect Sample.config .default Sample.heedingSide false = .ok start ∧
      (∃ a, Sample.settling.run (callAt 2) start = .ok a w) ∧
      (Request.proxy (.hostObject 1)).perform (callAt 2) { w with memory := true } =
        .ok (.ok (.foreign 1)) v ∧
      ∀ call, (Request.proxy (.hostObject 0)).perform call
          { v with state := v.state.withHeap (v.state.heap.collect true) } =
        .ok (.ok (.foreign 0)) { v with state := v.state.withHeap (v.state.heap.collect true) } := by
  obtain ⟨start, w, a, hstart, hr, -, hrun⟩ := Sample.sees_of_endsFrom Sample.run_settling
  simp only [Sample.isSettled, Bool.and_eq_true, beq_iff_eq, Option.map_eq_some_iff] at hrun
  obtain ⟨⟨⟨⟨g, hg, hstrong⟩, hf⟩, hlength⟩, hother⟩ := hrun
  have hbodies := (World.of_connect hstart).1
  have hidle : start.Idle := by
    intro body hbody inv
    rw [hbodies] at hbody
    rw [(List.mem_replicate.1 hbody).2]
    exact .inl ⟨none, rfl⟩
  have hidle' : w.Idle := by
    -- The bodies only become more, and they are as many as before.
    have hsame : start.bodies = w.bodies := by
      refine (bodies_of_run hr).eq_of_length ?_
      rw [hlength, hbodies]
      rfl
    intro body hbody
    exact hidle body (hsame ▸ hbody)
  split at hother
  · rename_i p v hproxy
    obtain ⟨hp, hmemory⟩ := Bool.and_eq_true_iff.1 hother
    obtain rfl : p = .foreign 1 := beq_iff_eq.1 hp
    refine ⟨start, w, v, hstart, ⟨a, hr⟩, hproxy, fun call => ?_⟩
    have hheeds := Sample.heeds_of_mild hidle (Sample.mild_settling _) (Sample.mild_asking _) hr
      hidle' hg hstrong hf
    have hbegins : Along start [(2, Sample.settling), (2, .remember true Sample.asking)]
        ⟨2, [], .remember true Sample.asking, w⟩ :=
      .begins (.ended .start hr) (List.prefix_refl _)
    have hcollects := (hbegins.step .remember).step (.answered hproxy)
    have hasks := hcollects.step (.answered (r := .collect true)
      (u := { v with state := v.state.withHeap (v.state.heap.collect true) }) rfl)
    exact proxy_stable rfl hstart (by decide) hheeds hasks hmemory call
  · cases hother

end TwinHeap
