import TwinHeap.Proofs.Tours

/-!
# Cycles — proxies of host objects that ask for each other

A session asks for the proxy of a host object. The constructors that are run for it are those of the
objects without a proxy that it leads to (`State.Wanted`), each once, however the objects ask for each
other and for themselves; `cyclic_construction` is the theorem.
-/

namespace TwinHeap

variable {σ : Type}

/-! ## Which objects are given proxies -/

/-- The objects without a proxy that one leads to by what the constructors of such objects ask for. -/
inductive State.Wanted (s : State) (wants : Address → List Address) (host : Address) : Address → Prop
  | root (hn : s.findProxy host = none) : Wanted s wants host host
  | step {a y : Address} (h : Wanted s wants host a) (hy : y ∈ wants a)
      (hn : s.findProxy y = none) : Wanted s wants host y

theorem State.Wanted.lacks {s : State} {wants : Address → List Address} {host a : Address}
    (h : s.Wanted wants host a) : s.findProxy a = none := by
  cases h with
  | root hn => exact hn
  | step _ _ hn => exact hn

theorem State.Wanted.mem {s : State} {wants : Address → List Address} {host a : Address}
    {hosts : Finset Address} (h : s.Wanted wants host a) (hhost : host ∈ hosts)
    (hclosed : ∀ a ∈ hosts, ∀ y ∈ wants a, y ∈ hosts) : a ∈ hosts := by
  induction h with
  | root => exact hhost
  | step _ hy _ ih => exact hclosed _ ih _ hy

/-- The constructor of the proxy class of an object. -/
def State.constructorOf (s : State) (host : Address) : Option Nat := do
  let c ← (s.host.classOf host).toOption
  let b ← (← (s.resolveBinding c).toOption).toOption
  some b.method

theorem World.Constructs.constructorOf {w : World σ} {host : Address} {m : Nat} {ys : List Address}
    (h : w.Constructs host m ys) : w.state.constructorOf host = some m := by
  obtain ⟨c, b, _, hc, hb, rfl, -⟩ := h
  unfold State.constructorOf
  rw [hc, Except.toOption, Option.bind_eq_bind, Option.bind_some, hb]
  rfl

/-- How often a method is called that is none of those around the constructors. -/
theorem Plan.count_calls (P : Plan) {m : Nat} (hb : m ≠ P.helpers.beforeConstruct)
    (ha : m ≠ P.helpers.afterConstruct) (made : List Address) :
    (made.flatMap P.calls).count m = (made.filter fun a => P.constructor a = some m).length := by
  have hone (a : Address) :
      (P.calls a).count m = if P.constructor a = some m then 1 else 0 := by
    unfold Plan.calls
    rw [List.count_cons_of_ne hb.symm, List.count_append, List.count_singleton,
      if_neg (by simpa using ha.symm), Nat.add_zero]
    cases P.constructor a with
    | none => rfl
    | some m' => simp [List.count_singleton]
  induction made with
  | nil => rfl
  | cons a made ih =>
    rw [List.flatMap_cons, List.count_append, hone, ih, List.filter_cons]
    by_cases hm : P.constructor a = some m <;> simp [hm, Nat.add_comm]

/-! ## What a session keeps -/

theorem State.signatureAt_of_evolves {s s' : State} (h : s.Evolves s') {m : Nat} {sig : Signature}
    (hm : s.signatureAt m = some sig) : s'.signatureAt m = some sig := by
  unfold signatureAt at hm ⊢
  obtain ⟨info, hinfo, rfl⟩ := Option.map_eq_some_iff.1 hm
  obtain ⟨calls, hcalls⟩ := h.foreign.methods m info hinfo
  rw [hcalls]
  rfl

/-- Handles are accounted for, entries lead to objects, and the methods that are called around
constructors are no constructors. -/
structure World.Braced (o : List Owed) (w : World σ) : Prop where
  tallied : w.Tallied o
  anchored : w.state.Anchored
  apart : ∀ m ∈ [w.state.bridge.helpers.beforeConstruct, w.state.bridge.helpers.afterConstruct],
    ∃ sig, w.state.signatureAt m = some sig ∧ sig.method ≠ ".ctor"

namespace World.Braced

variable {o : List Owed} {w : World σ}

theorem change (hw : w.Braced o) {T : Terms} {o' : List Owed} {s' : State}
    (hc : Change T o w.state o' s') : (w.withState s').Braced o' where
  tallied := hc.tallied hw.tallied
  anchored := hc.anchored hw.tallied.balanced hw.anchored
  apart m hm := by
    have hm : m ∈ [s'.bridge.helpers.beforeConstruct, s'.bridge.helpers.afterConstruct] := hm
    rw [hc.grows.helpers] at hm
    obtain ⟨sig, hsig, hne⟩ := hw.apart m hm
    exact ⟨sig, State.signatureAt_of_evolves hc.evolves hsig, hne⟩

theorem countCall (hw : w.Braced o) (m : Nat) : (w.countCall m).Braced o where
  tallied := hw.tallied.countCall m
  anchored := hw.anchored.of_same rfl rfl (Nat.le_refl _)
  apart m' hm := by
    obtain ⟨sig, hsig, hne⟩ := hw.apart m' hm
    exact ⟨sig, State.signatureAt_of_evolves (w.evolves_countCall m) hsig, hne⟩

theorem define (hw : w.Braced o) (info : MethodInfo) (body : Invocation → Program σ) :
    (w.define info body).Braced o where
  tallied := hw.tallied.define info body
  anchored := hw.anchored.of_same rfl rfl (Nat.le_refl _)
  apart m' hm := by
    obtain ⟨sig, hsig, hne⟩ := hw.apart m' hm
    exact ⟨sig, State.signatureAt_of_evolves (w.evolves_define info body) hsig, hne⟩

theorem upholds (start : World σ) (ps : List (Nat × Program σ)) :
    Spot.Upholds (Along start ps) fun o w => w.Braced o where
  step := .step
  congr hc hw := { hw with tallied := hw.tallied.congr hc }
  change hw hc := hw.change hc
  alone _ hf hw := hw.change (T := .asking (fun _ => True) fun _ => True) (.alone trivial trivial hf)
  counted m hw := hw.countCall m
  defined info body hw := hw.define info body
  remembered _ hw := { hw with tallied := hw.tallied.remember _ }

end World.Braced

theorem World.braced_connect {config : Config} {registry : Registry} {side : ForeignSide σ}
    {memory : σ} {w : World σ} (hside : side.foreign.heap = .empty)
    (hw : World.connect config registry side memory = .ok w) : w.Braced [] := by
  have htallied := World.tallied_connect hside hw
  obtain ⟨helpers, hfind, hw⟩ := ok_of_bind hw
  cases hw
  obtain ⟨-, -, hbefore, hafter, -⟩ := Helpers.findMethod_of_find hfind
  refine ⟨htallied, ?_, fun m hm => ?_⟩
  · rintro host g c p hg
    cases hg
  · have hsignature {m : Nat} {key : Signature}
        (hm : side.foreign.findMethod config.engine.assembly key = .ok m) (hk : key.params.isSome)
        (hne : key.method ≠ ".ctor") :
        ∃ sig, (side.foreign.methods[m]?).map MethodInfo.signature = some sig ∧
          sig.method ≠ ".ctor" := by
      obtain ⟨info, hinfo, rfl⟩ := Foreign.signature_of_findMethod hm hk
      exact ⟨_, by rw [hinfo]; rfl, hne⟩
    obtain rfl | hm := List.mem_cons.1 hm
    · exact hsignature hbefore rfl (show "BeforeConstruct" ≠ ".ctor" by decide)
    · cases List.mem_singleton.1 hm
      exact hsignature hafter rfl (show "AfterConstruct" ≠ ".ctor" by decide)

/-! ## Asking for a proxy -/

/-- At the spot the request for the proxy of `host` is answered with `p`, and proxies were made for it
just for the objects `made`. -/
structure Spot.Equips (x : Spot σ) (host : Address) (made : Finset Address) (p : Address)
    (v : World σ) : Prop where
  answered : (Request.proxy host).perform (callAt x.depth) x.world = .ok (.ok p) v
  found : v.state.findProxy host = some p
  given : ∀ a ∈ made, v.state.findProxy a ≠ none
  others : ∀ a ∉ made, v.state.findProxy a = x.world.state.findProxy a
  counted : v.counter Counter.proxiesCreated = x.world.counter Counter.proxiesCreated + made.card
  /-- A method that was there, and is none of those around the constructors, was called once for each
  of these objects whose constructor it is. -/
  calls : ∀ m < x.world.state.foreign.methods.length,
    m ≠ x.world.state.bridge.helpers.beforeConstruct →
    m ≠ x.world.state.bridge.helpers.afterConstruct → v.state.callsOf m =
      x.world.state.callsOf m + (made.filter fun a => x.world.state.constructorOf a = some m).card
  constructed : ∀ a ∈ made, ∃! e, Encloses x.around x.Within e ∧ e.Runs x.world.state.constructorOf a
  /-- Constructors are run for no other object, and on the proxy of theirs. -/
  receives : ∀ e a, Encloses x.around x.Within e → e.Runs x.world.state.constructorOf a →
    a ∈ made ∧ ∃ q, e.inv.receiver = some q ∧ v.state.findProxy a = some q
  /-- Whatever proxy is asked for meanwhile, the answer is the one that is found in the end. -/
  answers : ∀ n es a next w, x.Within ⟨n, es, .ask (.proxy a) next, w⟩ → ∃ q u,
    (Request.proxy a).perform (callAt n) w = .ok (.ok q) u ∧ v.state.findProxy a = some q

/-- A constructor is none of the methods that are called around it. -/
theorem World.Braced.constructor_ne {o : List Owed} {w : World σ} (hw : w.Braced o) {host : Address}
    {m : Nat} {ys : List Address} (h : w.Constructs host m ys) :
    m ≠ w.state.bridge.helpers.beforeConstruct ∧ m ≠ w.state.bridge.helpers.afterConstruct := by
  obtain ⟨c, b, _, -, hb, rfl, -⟩ := h
  obtain ⟨sig, hsig, hctor, -⟩ := State.constructor_of_resolveBinding hb
  have hne {m : Nat} (hm : m ∈ [w.state.bridge.helpers.beforeConstruct,
      w.state.bridge.helpers.afterConstruct]) : b.method ≠ m := by
    rintro rfl
    obtain ⟨sig', hsig', hne⟩ := hw.apart _ hm
    cases hsig.symm.trans hsig'
    exact hne hctor
  exact ⟨hne (by simp), hne (by simp)⟩

/-- The plan to give these objects proxies, by the constructors of their classes. -/
def State.planFor (s : State) (wants : Address → List Address) (wanted : Finset Address) : Plan where
  hosts := wanted
  wants := wants
  constructor := s.constructorOf
  helpers := s.bridge.helpers

theorem State.lacking_planFor {s : State} {wants : Address → List Address} {wanted : Finset Address}
    {host : Address} (hwanted : ∀ a ∈ wanted, s.Wanted wants host a) :
    (s.planFor wants wanted).lacking s = wanted :=
  Finset.filter_true_of_mem fun a ha => (hwanted a ha).lacks

/-- All objects that are wanted for one can be given proxies; whatever else they ask for has its own. -/
theorem World.Braced.prepared {o : List Owed} {w : World σ} (hw : w.Braced o)
    (hbefore : w.bodies[w.state.bridge.helpers.beforeConstruct]? =
      some fun inv => (Library.connect inv).toProgram)
    (hafter : w.bodies[w.state.bridge.helpers.afterConstruct]? = some fun _ => .done none)
    (hbindings : ∀ c b, w.state.bridge.bindings.get? c = some b →
      w.state.resolveBinding c = .ok (.ok b))
    {wanted : Finset Address} {wants : Address → List Address} {host : Address}
    (hwanted : ∀ a, a ∈ wanted ↔ w.state.Wanted wants host a)
    (hconstructs : ∀ a ∈ wanted, ∃ m, w.Constructs a m (wants a)) :
    w.Prepared (w.state.planFor wants wanted) where
  sound := ⟨⟨o, hw.tallied.balanced⟩, hw.anchored⟩
  helpers := rfl
  connects := hbefore
  completes := hafter
  bindings := hbindings
  constructs a ha := by
    rw [State.lacking_planFor fun a => (hwanted a).1] at ha
    obtain ⟨m, hm⟩ := hconstructs a ha
    exact ⟨m, hm.constructorOf, hm⟩
  apart a ha := by
    obtain ⟨m, hm⟩ := hconstructs a ha
    obtain ⟨hb, ha⟩ := hw.constructor_ne hm
    show w.state.constructorOf a ≠ _ ∧ w.state.constructorOf a ≠ _
    rw [hm.constructorOf]
    exact ⟨fun he => hb (Option.some.inj he), fun he => ha (Option.some.inj he)⟩
  closed a ha y hy := by
    rw [State.lacking_planFor fun a => (hwanted a).1] at ha
    by_cases hn : w.state.findProxy y = none
    · exact .inl ((hwanted y).2 (((hwanted a).1 ha).step hy hn))
    · exact .inr hn

/-- Where the proxy of a host object was asked for, the objects that were given proxies are those
without one that it leads to. -/
theorem Tour.mem_made_iff {P : Plan} {es : List (Enclosing σ)} {seen : Spot σ → Prop}
    {made : List Address} {w v : World σ} {host p : Address} (h : Tour P es seen made w v)
    (hp : v.state.findProxy host = some p) (hosts : ∀ a ∈ P.hosts, w.state.Wanted P.wants host a)
    (a : Address) : a ∈ made ↔ w.state.Wanted P.wants host a := by
  refine ⟨fun ha => hosts a (h.planned a ha), fun ha => ?_⟩
  have hmade {y : Address} (hn : w.state.findProxy y = none) (hv : v.state.findProxy y ≠ none) :
      y ∈ made := by
    by_contra hy
    exact hv ((h.equips.same y hy).trans hn)
  induction ha with
  | root hn => exact hmade hn (by rw [hp]; exact nofun)
  | step _ hy hn ih => exact hmade hn (h.closed _ ih _ hy)

/-- What a tour says of the spot. -/
theorem Tour.spot_equips {P : Plan} {n : Nat} {es : List (Enclosing σ)} {made : List Address}
    {w v : World σ} {host p : Address} {next : Except BridgeError Address → Program σ}
    (h : Tour P es (Spot.Within ⟨n, es, .ask (.proxy host) next, w⟩) made w v)
    (hanswer : (Request.proxy host).perform (callAt n) w = .ok (.ok p) v)
    (hp : v.state.findProxy host = some p) (hctor : P.constructor = w.state.constructorOf)
    (hhelpers : P.helpers = w.state.bridge.helpers) :
    Spot.Equips ⟨n, es, .ask (.proxy host) next, w⟩ host made.toFinset p v where
  answered := hanswer
  found := hp
  given a ha := h.equips.found a (List.mem_toFinset.1 ha)
  others a ha := h.equips.same a fun hmem => ha (List.mem_toFinset.2 hmem)
  counted := by
    rw [List.toFinset_card_of_nodup h.equips.nodup]
    exact h.equips.counter
  calls m hm hb ha := by
    have hcount := P.count_calls (hhelpers ▸ hb) (hhelpers ▸ ha) made
    rw [hctor, ← List.toFinset_card_of_nodup (h.equips.nodup.filter _), List.toFinset_filter] at hcount
    simp only [decide_eq_true_eq] at hcount
    exact (h.equips.calls m hm).trans (congrArg (w.state.callsOf m + ·) hcount)
  constructed a ha := hctor ▸ h.sights.once a (List.mem_toFinset.1 ha)
  receives e a he hr := by
    rw [← hctor] at hr
    refine ⟨List.mem_toFinset.2 (h.sights.mem_of_runs he hr), ?_⟩
    obtain ⟨y, inner, hy, ha, he⟩ := he
    obtain ⟨inner', ha', hinner⟩ := h.sights.around y hy
    -- All that goes on inside of the request is the making of proxies of the tour.
    cases List.append_cancel_right (ha.symm.trans ha')
    obtain ⟨b, q, hb, hq, hfind, -⟩ := hinner e he
    cases hr.1.symm.trans hb
    exact ⟨q, hq, hfind⟩
  answers := h.sights.answers

/-- Wherever a session comes to, it may ask for the proxy of any host object out of a finite set whose
constructors ask for the proxies of objects of the set, be it in circles or each for its own: if calls
may nest as deep as there are objects to be given proxies, and these can be counted, the request is
answered. The objects are those without a proxy that the one leads to by what such objects ask for. The
constructor of each is run just once, no other is, whatever proxy is asked for meanwhile is the one that
stays, also for an object whose constructor is still running, and just so many proxies are counted. -/
theorem cyclic_construction {config : Config} {registry : Registry} {side : ForeignSide σ} {memory : σ}
    {start : World σ} (hside : side.foreign.heap = .empty)
    (hstart : World.connect config registry side memory = .ok start)
    {ps : List (Nat × Program σ)} {x : Spot σ} (hx : Along start ps x)
    (hbefore : x.world.bodies[x.world.state.bridge.helpers.beforeConstruct]? =
      some fun inv => (Library.connect inv).toProgram)
    (hafter : x.world.bodies[x.world.state.bridge.helpers.afterConstruct]? = some fun _ => .done none)
    {hosts : Finset Address} {wants : Address → List Address}
    (hhosts : ∀ a ∈ hosts, (∃ m, x.world.Constructs a m (wants a)) ∧ ∀ y ∈ wants a, y ∈ hosts)
    {host : Address} (hhost : host ∈ hosts) :
    ∃ made : Finset Address, (∀ a, a ∈ made ↔ x.world.state.Wanted wants host a) ∧
      ∀ n es next, made.card ≤ n →
        x.world.counter Counter.proxiesCreated + made.card < wordModulus →
        ∃ p v, Spot.Equips ⟨n, es, .ask (.proxy host) next, x.world⟩ host made p v := by
  classical
  obtain ⟨o, hw⟩ := hx.upholds (World.Braced.upholds start ps) (World.braced_connect hside hstart)
  let wanted : Finset Address := hosts.filter (x.world.state.Wanted wants host)
  have hwanted (a : Address) : a ∈ wanted ↔ x.world.state.Wanted wants host a :=
    ⟨fun ha => (Finset.mem_filter.1 ha).2, fun ha =>
      Finset.mem_filter.2 ⟨ha.mem hhost fun a ha => (hhosts a ha).2, ha⟩⟩
  have hprepared : x.world.Prepared (x.world.state.planFor wants wanted) :=
    hw.prepared hbefore hafter (memos_fresh hstart hx).1 hwanted
      fun a ha => (hhosts a (Finset.mem_filter.1 ha).1).1
  have hplanned : host ∈ wanted ∨ x.world.state.findProxy host ≠ none := by
    by_cases hn : x.world.state.findProxy host = none
    · exact .inl ((hwanted host).2 (.root hn))
    · exact .inr hn
  refine ⟨wanted, hwanted, fun n es next hn hroom => ?_⟩
  have haffords : x.world.Affords (x.world.state.planFor wants wanted) n := by
    unfold World.Affords
    rw [State.lacking_planFor fun a => (hwanted a).1]
    exact ⟨hn, hroom⟩
  -- The plan is followed to its end, and the proxies that it makes are those that are wanted.
  obtain ⟨made, p, v, hanswer, hp, htour⟩ :=
    Plan.answers _ n x.world host es next hprepared haffords hplanned
  have hmade : wanted = made.toFinset := Finset.ext fun a => by
    rw [hwanted, List.mem_toFinset]
    exact (htour.mem_made_iff hp (fun a => (hwanted a).1) a).symm
  rw [hmade]
  exact ⟨p, v, htour.spot_equips hanswer hp rfl rfl⟩

namespace Sample

/-- The constructor of a proxy class: for the first host object it asks for the proxies of that object
and of the second one, and for any other for that of the first. -/
def circling (inv : Invocation) : Program Unit :=
  .observe fun s _ =>
    if inv.receiver.bind s.heap.nativeOf = some (.hostObject 0) then
      .ask (.proxy (.hostObject 0)) fun _ => .ask (.proxy (.hostObject 1)) fun _ => .done none
    else .ask (.proxy (.hostObject 0)) fun _ => .done none

def circle (host : Address) : List Address :=
  if host = .hostObject 0 then [.hostObject 0, .hostObject 1] else [.hostObject 0]

/-- The stock methods that are called around constructors, and that constructor. -/
def circlingBodies : List (Invocation → Program Unit) :=
  let idle (_ : Invocation) : Program Unit := .done none
  [idle, idle, fun inv => (Library.connect inv).toProgram] ++ List.replicate 11 idle ++ [circling]

def circlingStart : World Unit :=
  world [⟨"G", ⟨"", "P", ".ctor", some ["intptr"]⟩, 1, 0⟩] circlingBodies

/-- The host has two objects of one class. -/
def acquainting : Program Unit :=
  .ask (.defineType "G" "P") fun _ =>
  .ask (.defineClass ⟨"P", "P", "G", .native, false⟩ none) fun c =>
  .ask (.spawn c none "o") fun _ =>
  .ask (.spawn c none "p") fun _ => .done none

def acquainted : World Unit :=
  circlingStart.withState { circlingStart.state with
    host := ⟨[⟨⟨"P", "P", "G", .native, false⟩, []⟩],
      [⟨.hostClass 0, [], true, "o"⟩, ⟨.hostClass 0, [], true, "p"⟩], []⟩
    foreign := (circlingStart.state.foreign.defineType "G" "P").2 }

theorem run_acquainting : acquainting.run (callAt 2) circlingStart = .ok (.ok none) acquainted := by
  rfl

theorem requests_circling {p : Address} {args : List Address} {host : Address} :
    (circling ⟨some p, args⟩).Requests ⟨some p, args⟩ host (circle host) := by
  refine .observe fun s _ h => ?_
  obtain ⟨_, hp, -, hnative⟩ := h.receiver
  cases hp
  have hbind : (some p).bind s.heap.nativeOf = some host := hnative
  dsimp only
  rw [hbind]
  unfold circle
  by_cases hhost : host = .hostObject 0
  · rw [if_pos hhost, if_pos (congrArg some hhost)]
    exact .proxy fun _ => .proxy fun _ => .done
  · rw [if_neg hhost, if_neg fun he => hhost (Option.some.inj he)]
    exact .proxy fun _ => .done

theorem constructs_circling {host : Address}
    (hc : acquainted.state.host.classOf host = .ok (.hostClass 0)) :
    acquainted.Constructs host 14 (circle host) := by
  refine ⟨_, ⟨"P", "G", ⟨"", "P", ".ctor", some ["intptr"]⟩, 1, 14, true⟩, circling, hc, ?_, rfl, rfl,
    fun p args _ => requests_circling⟩
  decide +kernel

end Sample

/-- `cyclic_construction` of an object whose constructor asks for its own proxy and for that of another,
which asks for that of the first: two proxies are made, and two calls of the constructor. -/
theorem cyclic_construction_of_circling : ∃ (p q : Address) (v : World Unit),
    Along Sample.circlingStart [(2, Sample.acquainting), (2, .done none)]
      ⟨2, [], .done none, Sample.acquainted⟩ ∧
    (Request.proxy (.hostObject 0)).perform (callAt 2) Sample.acquainted = .ok (.ok p) v ∧
    v.state.findProxy (.hostObject 0) = some p ∧ v.state.findProxy (.hostObject 1) = some q ∧
    v.counter Counter.proxiesCreated = 2 ∧ v.state.callsOf 14 = 2 := by
  have hx : Along Sample.circlingStart [(2, Sample.acquainting), (2, .done none)]
      ⟨2, [], .done none, Sample.acquainted⟩ :=
    .begins (.ended .start Sample.run_acquainting) (List.prefix_refl _)
  let hosts : Finset Address := {.hostObject 0, .hostObject 1}
  have hhosts : ∀ a ∈ hosts, (∃ m, Sample.acquainted.Constructs a m (Sample.circle a)) ∧
      ∀ y ∈ Sample.circle a, y ∈ hosts := by
    intro a ha
    obtain rfl | ha := Finset.mem_insert.1 ha
    · exact ⟨⟨14, Sample.constructs_circling rfl⟩, by decide⟩
    · cases Finset.mem_singleton.1 ha
      exact ⟨⟨14, Sample.constructs_circling rfl⟩, by decide⟩
  have hfirst : Address.hostObject 0 ∈ hosts := by decide
  obtain ⟨made, hmade, hequips⟩ :=
    cyclic_construction rfl (Sample.connect_world _ _) hx rfl rfl hhosts hfirst
  have hroot : Sample.acquainted.state.Wanted Sample.circle (.hostObject 0) (.hostObject 0) := .root rfl
  -- Each of the two objects wants the other.
  have hboth : made = hosts := by
    refine Finset.ext fun a => (hmade a).trans
      ⟨fun ha => ha.mem hfirst fun a ha => (hhosts a ha).2, fun ha => ?_⟩
    obtain rfl | ha := Finset.mem_insert.1 ha
    · exact hroot
    · cases Finset.mem_singleton.1 ha
      exact hroot.step (by decide) rfl
  subst hboth
  obtain ⟨p, v, h⟩ := hequips 2 [] (fun _ => .done none) (by decide) (by decide)
  obtain ⟨q, hq⟩ := Option.ne_none_iff_exists'.1 (h.given (.hostObject 1) (by decide))
  have hcalls := h.calls 14 (by decide) (by decide) (by decide)
  exact ⟨p, q, v, hx, h.answered, h.found, hq, h.counted, hcalls.trans (by decide +kernel)⟩

end TwinHeap
