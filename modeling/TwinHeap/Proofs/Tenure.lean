import TwinHeap.Proofs.Creation
import TwinHeap.Proofs.Lifetime
import TwinHeap.Proofs.Tightness

/-!
# Tenure — how long a proxy lasts that a call hands to its method

A redirected call holds the objects that it has staged, but proxies it leaves to the identity table. So a
proxy that is handed to a method, as its receiver or for an argument, lasts until the method has answered
if the entry of its host object is strong where staging begins and is left alone from then on
(`handed_until_answered`), whatever is collected meanwhile. Nothing else holds it: an entry that was made
weak before the call lets go of a proxy that is in the argument list.
-/

namespace TwinHeap

variable {σ : Type}

/-! ## Tight entries -/

/-- The entry of the host object, if there is one, is strong. -/
def State.Tight (s : State) (host : Address) : Prop :=
  ∀ g, s.bridge.entries.get? host = some g → g.strength = .strong

variable {s : State} {host p : Address}

/-- A proxy that is found is held then. -/
theorem State.Tight.firm (h : s.Tight host) {gs : List Grip} (hb : s.Balanced gs)
    (hf : s.findProxy host = some p) : s.Firm host p := by
  obtain ⟨g, hg, -⟩ := findProxy_eq_some.1 hf
  exact hb.firm hg (h g hg) hf

theorem Request.Outcome.tight {r : Request} {s' : State} (ho : r.Outcome s s')
    (hr : r ≠ .setRooted host false) (h : s.Tight host) : s'.Tight host := by
  cases ho with
  | @setRooted other old rooted hold hs =>
    by_cases he : other = host
    · -- The entry itself can only be made strong, which it is.
      subst he
      cases rooted with
      | true => exact absurd (h old hold) hs
      | false => exact absurd rfl hr
    · intro g hg
      exact h g (((Table.get?_insert ..).trans (if_neg he)).symm.trans hg)
  | _ => exact h

/-- The bridge makes no entry weak. -/
theorem Change.tight {ready : List Owed → Prop} {o o' : List Owed} {s' : State}
    (hc : Change (.asking Request.OfBridge ready) o s o' s') (h : s.Tight host) : s'.Tight host := by
  intro g hg
  cases hc.entry_of hg with
  | inl hstrong => exact hstrong
  | inr hbefore => exact h g hbefore

/-- An entry that is left alone stays tight. -/
theorem Act.Spares.upholds_tight {α : Type} {act : Act σ α} {n : Nat} {w : World σ}
    (S : act.Spares n w host) :
    Spot.Upholds (act.Reaches n w) fun o v => v.Tallied o ∧ v.state.Tight host where
  step := Reaches.step
  congr hcore h := ⟨h.1.congr hcore, h.2⟩
  change h hc := ⟨hc.tallied h.1, hc.tight h.2⟩
  alone hx hf h := ⟨h.1.alone hf, (Request.outcome hf _).tight (S.asks hx).2 h.2⟩
  counted m h := ⟨h.1.countCall m, h.2⟩
  defined info body h := ⟨h.1.define info body, h.2⟩
  remembered _ h := ⟨h.1.remember _, h.2⟩

/-- An instance that foreign code does not tell that it stands for another host object goes on standing
for this one. -/
theorem Act.upholds_loyal {α : Type} {act : Act σ α} {n : Nat} {w : World σ}
    (htells : ∀ {d es a next v}, act.Reaches n w ⟨d, es, .ask (.setNative p a) next, v⟩ → a = host) :
    Spot.Upholds (act.Reaches n w) fun _ v => v.state.heap.Loyal p host where
  step := Reaches.step
  congr _ h := h
  change h hc := hc.alters.loyal h fun _ => False.elim
  alone hx hf h := by
    apply (Request.outcome hf _).alters.loyal h
    rintro a rfl
    exact htells hx
  counted _ h := h
  defined _ _ h := h
  remembered _ h := h

/-! ## Proxies that are handed over -/

/-- The world in which a call that has loaded its parameters begins to stage its arguments. -/
def World.staging (w : World σ) : World σ :=
  { w with state := (w.state.frameCell (.plain [])).2 }

namespace Redirection

open Act

/-- What holds where a call begins holds where it begins to stage its arguments, and its function is
linked then. -/
theorem Loads.staging {L : Law σ} {o : List Owed} {w loaded : World σ} {key : Redirector.Key}
    {r : Redirector} {stack left : ArgStack} {l : Linkage} {m : Nat} {params : List Parameter}
    (h : Loads L.call key r stack w l m params left loaded)
    (hr : w.state.redirector? key = some r)
    (hrun : L.course.Runs (invoke key r none stack none : Act σ _) w) (hb : L.base <:+ o)
    (hready : L.ready o) (ho : L.holds o w) :
    L.holds (.frame key :: o) loaded.staging ∧
      ∃ r', loaded.staging.state.redirector? key = some r' ∧ r'.binding = .linked l m := by
  obtain ⟨hloaded, -, r', hk, hl⟩ := h.holds hr none none hrun hb hready ho
  refine ⟨L.change hloaded (.frameCell _), ?_⟩
  exact (State.grows_frameCell loaded.state (.plain [])).linked key r' l m hk hl

variable {call : Invoker σ} {function : Function} {m : Nat} {target : Option Address}
  {params : List Parameter} {scratch : Nat} {args : List LinkedArg} {pointers : List Address}
  {w turn made : World σ} {rest : Act σ (Except ForeignException (Option Address))}

theorem attend_append (before after : List LinkedArg) (pointers : List Address) :
    (attend function m target params scratch (before ++ after) pointers : Act σ _) =
      stageArgs params scratch before >>= fun front =>
        attend function m target params scratch after (pointers ++ front.1) := by
  unfold attend
  simp only [stageArgs_append, bind_assoc, pure_bind, List.append_assoc]

/-- For an object that is passed by value, its proxy is asked for. -/
theorem stage_of_object {a : LinkedArg} (hobject : a.marshaller = .object) (hvalue : a.byRef = false)
    {place : Address} (hhost : (turn.state.addressAt place).nonNull = some host) (p : Property)
    (slot : Slot) (call : Invoker σ) :
    a.marshaller.stage p place slot a.byRef call turn =
      (Identity.proxyFor host >>= fun proxy => pure (proxy, none)) call turn := by
  rw [hobject, hvalue]
  show (Marshaller.object.present p place slot >>= fun x => pure (x.1, x.2)) call turn = _
  unfold Marshaller.present Marshaller.proxyOrNull
  simp only [bind_assoc, pure_bind]
  rw [state_bind, hhost]

theorem attend_of_object {a : LinkedArg} {after : List LinkedArg} {param : Parameter}
    (hparam : params[a.param]? = some param) (hobject : a.marshaller = .object)
    (hvalue : a.byRef = false) (hhost : (turn.state.addressAt param.place).nonNull = some host)
    (pointers : List Address) (call : Invoker σ) :
    attend function m target params scratch (a :: after) pointers call turn =
      (Identity.proxyFor host >>= fun p =>
        attend function m target params scratch after (pointers ++ [p])) call turn := by
  unfold attend
  rw [stageArgs, hparam]
  simp only [bind_assoc]
  refine (bind_of_eq (stage_of_object hobject hvalue hhost _ _ call)).trans ?_
  simp only [bind_assoc, pure_bind, List.append_assoc, List.singleton_append]

/-- The receiver of a method is the proxy of its target. -/
theorem attend_of_receiver (hstatic : function.flags.static = false) (pointers : List Address) :
    (attend function m (some host) params scratch [] pointers : Act σ _) =
      Identity.proxyFor host >>= fun p => callMethod m (some p) pointers := by
  unfold attend receiverOf
  simp only [hstatic, stageArgs, Bool.false_eq_true, if_false, map_eq_pure_bind, bind_assoc, pure_bind,
    List.append_nil]

/-- A call has just been answered with the proxy `p` of `host`, to be handed to its method for an argument
that is an object passed by value, or as the receiver; `rest` is what is left until the method has
answered. -/
inductive Hands (call : Invoker σ) (function : Function) (m : Nat) (target : Option Address)
    (params : List Parameter) (scratch : Nat) (args : List LinkedArg) (w : World σ)
    (host p : Address) : Act σ (Except ForeignException (Option Address)) → World σ → Prop
  | argument {before after : List LinkedArg} {a : LinkedArg} {param : Parameter}
      {pointers : List Address} {staged : List StagedArg} {turn made : World σ}
      (hargs : args = before ++ a :: after)
      (hstages : Stages call params scratch before w pointers staged turn)
      (hparam : params[a.param]? = some param) (hobject : a.marshaller = .object)
      (hvalue : a.byRef = false) (hhost : (turn.state.addressAt param.place).nonNull = some host)
      (hproxy : Identity.proxyFor host call turn = .ok p made) :
      Hands call function m target params scratch args w host p
        (attend function m target params scratch after (pointers ++ [p])) made
  | receiver {pointers : List Address} {staged : List StagedArg} {turn made : World σ}
      (hstages : Stages call params scratch args w pointers staged turn)
      (htarget : target = some host) (hstatic : function.flags.static = false)
      (hproxy : Identity.proxyFor host call turn = .ok p made) :
      Hands call function m target params scratch args w host p
        (callMethod m (some p) pointers) made

/-- Some arguments are staged before the proxy is asked for, and the rest comes after it. -/
theorem Hands.split (h : Hands call function m target params scratch args w host p rest made) :
    ∃ before after pointers staged turn next, args = before ++ after ∧
      Stages call params scratch before w pointers staged turn ∧
      (∀ call', attend function m target params scratch after pointers call' turn =
        (Identity.proxyFor host >>= next) call' turn) ∧
      Identity.proxyFor host call turn = .ok p made ∧ rest = next p := by
  cases h with
  | argument hargs hstages hparam hobject hvalue hhost hproxy =>
    exact ⟨_, _, _, _, _, fun p => attend function m target params scratch _ (_ ++ [p]), hargs,
      hstages, attend_of_object hparam hobject hvalue hhost _, hproxy, rfl⟩
  | receiver hstages htarget hstatic hproxy =>
    subst htarget
    refine ⟨args, [], _, _, _, fun p => callMethod m (some p) _, (List.append_nil _).symm, hstages,
      fun call' => ?_, hproxy, rfl⟩
    rw [attend_of_receiver hstatic]

section Laws

variable {L : Law σ} {o : List Owed} {key : Redirector.Key} {l : Linkage}

/-- A law that holds where staging begins holds where the proxy is asked for and where it is answered. -/
theorem Hands.holds
    (h : Hands L.call function m target params scratch args w host p rest made)
    (hproxies : L.MakesProxies) (hw : ∀ a, L.mayWrite a)
    (hrun : L.course.Runs (attend function m target params scratch args []) w)
    (hb : L.base <:+ .frame key :: o) (hready : L.ready (.frame key :: o))
    (ho : L.holds (.frame key :: o) w) :
    ∃ turn, L.course.Runs (Identity.proxyFor host) turn ∧ L.holds (.frame key :: o) turn ∧
      Identity.proxyFor host L.call turn = .ok p made ∧ L.course.Runs rest made ∧
      L.holds (.frame key :: o) made ∧ w.state.Grows made.state := by
  obtain ⟨before, after, pointers, staged, turn, next, rfl, hstages, heq, hproxy, rfl⟩ := h.split
  -- The arguments before this one are staged first, and the law holds when they are.
  rw [attend_append] at hrun
  have hbefore : (stageArgs params scratch before : Act σ _).Obeys L .plain (.frame key :: o) w :=
    stageArgs_obeys hproxies (fun _ _ => hw _) (fun _ => hw _) _
  have hmeets := hbefore hb hready (L.course.closed hrun (.first .here)) ho
  obtain ⟨hturn, hg, -⟩ := hmeets.ok _ _ hstages.stageArgs_eq
  have hafter := L.course.closed hrun (.next .here hmeets.strict hstages.stageArgs_eq)
  -- From there on the run is that of asking for the proxy, and then of the rest.
  have hnext : L.course.Runs (Identity.proxyFor host >>= next) turn :=
    L.course.closed hafter (.congr .here fun call' => (heq call').symm)
  have hasks := L.course.closed hnext (.first .here)
  have hmeets := hproxies host (.frame key :: o) turn hb hready hasks hturn
  obtain ⟨hmade, hg', -⟩ := hmeets.ok _ _ hproxy
  exact ⟨turn, hasks, hturn, hproxy, L.course.closed hnext (.next .here hmeets.strict hproxy), hmade,
    hg.trans hg'⟩

theorem Hands.obeys (h : Hands call function m target params scratch args w host p rest made)
    (hproxies : L.MakesProxies) (hw : ∀ a, L.mayWrite a)
    (hlinked : ∃ r, made.state.redirector? key = some r ∧ r.binding = .linked l m) :
    rest.Obeys L .plain (.frame key :: o) made := by
  cases h with
  | argument => exact attend_obeys hproxies hw hlinked function target
  | receiver => exact callMethod_obeys hlinked _ _

end Laws

section Entry

variable {n : Nat} {o : List Owed} {key : Redirector.Key} {l : Linkage}

/-- The calls of the rest are calls of the whole, and so the rest comes to no other spots. -/
theorem Hands.reaches
    (h : Hands (callAt n) function m target params scratch args w host p rest made)
    (hlinked : ∃ r, w.state.redirector? key = some r ∧ r.binding = .linked l m) {y : Spot σ}
    (hy : rest.Reaches n made y) :
    (attend function m target params scratch args []).Reaches n w y := by
  let L : Law σ := .along (attend function m target params scratch args []) n w
  have hproxies : L.MakesProxies := Identity.makesProxies fun _ => trivial
  have hstart : L.holds [.frame key] w := trivial
  obtain ⟨-, -, -, -, hrun, -, hgrows⟩ :=
    h.holds hproxies (fun _ => trivial) .here List.nil_suffix trivial hstart
  obtain ⟨r, hk, hl⟩ := hlinked
  have hobeys : rest.Obeys L .plain [.frame key] made :=
    h.obeys hproxies (fun _ => trivial) (hgrows.linked key r l m hk hl)
  -- The law says of each call in the rest that it is one of the whole.
  apply hy.of_makes
  intro m' inv v hm
  obtain ⟨-, -, -, -, -, -, -, hcalls, -⟩ :=
    (hobeys List.nil_suffix trivial hrun trivial).only.of_makes hm
  exact hcalls.makes

/-- Where the proxy is answered it is held strongly. -/
theorem Hands.kept
    (h : Hands (callAt n) function m target params scratch args w host p rest made)
    (ht : w.Tallied (.frame key :: o)) (htight : w.state.Tight host)
    (hlinked : ∃ r, w.state.redirector? key = some r ∧ r.binding = .linked l m)
    (S : (attend function m target params scratch args []).Spares n w host) :
    made.Kept host p (.frame key :: o) ∧
      ∃ r, made.state.redirector? key = some r ∧ r.binding = .linked l m := by
  obtain ⟨turn, hcomes, ⟨hturn, htight⟩, hproxy, -, ⟨hmade, -⟩, hgrows⟩ :=
    h.holds (L := S.upholds_tight.law) (Identity.makesProxies fun _ => trivial) (fun _ => trivial)
      .here List.nil_suffix trivial ⟨ht, htight⟩
  obtain ⟨r, hk, hl⟩ := hlinked
  refine ⟨⟨hmade, fun _ => ?_⟩, hgrows.linked key r l m hk hl⟩
  -- A proxy that is found is held since its entry is tight still; a new one is entered strongly.
  cases hn : turn.state.findProxy host with
  | some q =>
    cases (Identity.proxyFor_of_found hn (callAt n)).symm.trans hproxy
    exact htight.firm hturn.balanced hn
  | none => exact (Identity.kept_of_proxyFor hturn hn S hcomes hproxy).firm trivial

end Entry

end Redirection

open Redirection in
/-- A proxy that a call hands to its method lasts until the method has answered: wherever foreign code is
in control in the meantime, and at the end, it is alive and found for its host object; and where it knew
its host object when it was handed over it still does, unless foreign code tells it otherwise. This needs
the entry of the host object to be strong, if there is one where staging begins, and to be left alone from
then on. -/
theorem handed_until_answered {config : Config} {registry : Registry} {side : ForeignSide σ}
    {memory : σ} {start x w loaded made : World σ} {rs : List Request} {n : Nat} {q : Request}
    {key : Redirector.Key} {r : Redirector} {target result : Option Address} {stack left : ArgStack}
    {l : Linkage} {m : Nat} {params : List Parameter} {host p : Address}
    {rest : Act σ (Except ForeignException (Option Address))}
    (hside : side.foreign.heap = .empty)
    (hstart : World.connect config registry side memory = .ok start)
    (hx : Session.Sees (fun _ _ => True) (fun _ => True) start rs x)
    (hcall : q.Redirects (callAt n) x key r target stack result w)
    (hloads : Loads (callAt n) key r stack w l m params left loaded)
    (htight : loaded.state.Tight host)
    (S : (attend r.function m target params loaded.state.memory.next l.args []).Spares n
      loaded.staging host)
    (h : Hands (callAt n) r.function m target params loaded.state.memory.next l.args loaded.staging
      host p rest made) :
    (rest.Throughout n made fun v =>
      v.state.heap.isAlive p = true ∧ v.state.findProxy host = some p) ∧
    (made.state.heap.nativeOf p = some host →
      (∀ {d es a next v}, rest.Reaches n made ⟨d, es, .ask (.setNative p a) next, v⟩ → a = host) →
      rest.Throughout n made fun v => v.state.heap.nativeOf p = some host) := by
  obtain ⟨o, ho⟩ := hx.tallied hside hstart
  let L : Law σ := (handleRealm σ).law ((handleRealm σ).respected n)
  obtain ⟨hw, hr⟩ := hcall.holds (L := L) (Identity.makesProxies fun _ => trivial) (fun _ => trivial)
    (fun _ _ => trivial) List.nil_suffix trivial ho
  obtain ⟨hstaging, hlinked⟩ := hloads.staging (L := L) hr trivial List.nil_suffix trivial hw
  obtain ⟨hkept, hmade⟩ := h.kept hstaging htight hlinked S
  -- The rest reaches only spots of the whole, so it spares the entry, too.
  have hspares : rest.Spares n made host := ⟨fun hy => S.asks (h.reaches hlinked hy)⟩
  have hlasts : rest.Throughout n made fun v => ∃ o, v.Kept host p o :=
    hspares.throughout (h.obeys (hspares.makesProxies p _) (fun _ => trivial) hmade) hkept
  have hfound : rest.Throughout n made fun v =>
      v.state.heap.isAlive p = true ∧ v.state.findProxy host = some p := by
    apply hlasts.mono
    rintro v ⟨o, hv⟩
    exact ⟨State.isAlive_of_findProxy hv.findProxy, hv.findProxy⟩
  refine ⟨hfound, fun hknows htells => ?_⟩
  -- An address is not given out again, so what lives there is the instance that was handed over.
  have hgiven := hkept.tallied.balanced.numbered.given (Heap.isAlive_of_nativeOf hknows)
  have hloyal : rest.Throughout n made fun v => ∃ _ : List Owed, v.state.heap.Loyal p host :=
    (Act.upholds_loyal htells).throughout (o := .frame key :: o)
      (h.obeys (Identity.makesProxies fun _ => trivial) (fun _ => trivial) hmade)
      ⟨hgiven, fun _ => hknows⟩
  apply (hloyal.and hfound).mono
  rintro v ⟨⟨-, hv⟩, halive, -⟩
  exact hv.stands halive

/-! ## A method that sweeps -/

/-- Where all methods are programs that are known, those are that a call comes to. -/
theorem Redirection.Loads.reaches_asks {may : State → Request → Prop}
    {bodies : List (Invocation → Program σ)} (h : ∀ body ∈ bodies, ∀ inv s, (body inv).Asks may s)
    {n : Nat} {w loaded : World σ} {key : Redirector.Key} {r : Redirector} {target : Option Address}
    {stack left : ArgStack} {l : Linkage} {m : Nat} {params : List Parameter}
    (hloads : Loads (callAt n) key r stack w l m params left loaded) (hw : w.bodies = bodies)
    (hr : w.state.redirector? key = some r) {y : Spot σ}
    (hy : (attend r.function m target params loaded.state.memory.next l.args []).Reaches n
      loaded.staging y) : y.program.Asks may y.world.state := by
  let L : Law σ := (knownRealm h).law ((knownRealm h).respected n)
  have hstart : L.holds [] w := hw
  obtain ⟨hstaging, hlinked⟩ := hloads.staging hr trivial List.nil_suffix trivial hstart
  have hobeys : (attend r.function m target params loaded.state.memory.next l.args [] : Act σ _).Obeys
      L .plain [.frame key] loaded.staging :=
    attend_obeys (Identity.makesProxies fun _ => trivial) (fun _ => trivial) hlinked _ _
  refine (hy.asks h fun m' inv v hm => ?_).1
  obtain ⟨_, _, _, -, -, hv, -⟩ := (hobeys List.nil_suffix trivial trivial hstaging).only.of_makes hm
  exact hv

namespace Sample

/-- Runs a pass, unless this would sever the object. -/
def sweeping (_ : Invocation) : Program Bool :=
  .observe fun s _ =>
    if .hostObject 0 ∈ s.unreached then .done none else .ask .sweep fun _ => .done none

/-- A library that connects proxies, and that method. -/
def presentingBodies : List (Invocation → Program Bool) :=
  [fun _ => .done none, fun _ => .done none, claiming] ++ List.replicate 12 (fun _ => .done none) ++
    [sweeping]

/-- A bridge to these methods. -/
def presentingStart : World Bool where
  state := (world [⟨"G", ⟨"", "P", ".ctor", some ["intptr"]⟩, 1, 0⟩,
    ⟨"G", ⟨"", "T", "Show", some ["G.P"]⟩, 1, 0⟩] []).state
  bodies := presentingBodies
  memory := false

theorem connect_presentingStart : World.connect config .default
    ⟨presentingStart.state.foreign, presentingBodies⟩ false = .ok presentingStart := by
  rfl

/-- A function that passes an object to the method that runs a pass. -/
def presents : Redirector where
  function := ⟨"T", "Show", ⟨true, true, false, false⟩,
    [⟨"Value", .object, 8, 8, 0, ⟨true, false, false, false, false⟩⟩], ⟨8, 8⟩⟩
  method := ⟨"G", ⟨"", "T", "Show", some ["G.P"]⟩, [⟨"Value", false, false⟩]⟩
  binding := .unbound
  depth := 0

/-- Makes an object, an argument that holds it, and its proxy, which is rooted or not. -/
def presenting (rooted : Bool) : Program Bool :=
  .ask (.defineType "G" "P") fun _ =>
  .ask (.defineClass ⟨"P", "P", "G", .native, false⟩ none) fun c =>
  .ask (.spawn c none "o") fun o =>
  .ask (.allot (.plain o.octets)) fun _ =>
  .ask (.proxy o) fun _ =>
  .ask (.setRooted o rooted) fun _ =>
  .ask (.redirect presents.function presents.method) fun _ => .done none

def objectStack : ArgStack := ⟨[⟨0, false⟩], 0⟩

/-- Whether the method of a call from `w`, which is handed the proxy of the object, answers as `check`
says: where staging begins, where the proxy was found, and at the end. -/
def handing (w : World Bool)
    (check : World Bool → Address → World Bool → World Bool → Bool) : Bool :=
  match Redirection.linked ("T", "Show") presents (callAt 3) w with
  | .ok (.ok (l, m)) v =>
    match Redirection.load ("T", "Show") presents l objectStack (callAt 3)
      { v with state := v.state.enter ("T", "Show") } with
    | .ok (params, _) u =>
      match l.args with
      | [] => false
      | a :: after =>
        match params[a.param]? with
        | none => false
        | some param =>
          a.marshaller == .object && !a.byRef &&
          (u.staging.state.addressAt param.place).nonNull == some (.hostObject 0) &&
          match Identity.proxyFor (.hostObject 0) (callAt 3) u.staging with
          | .ok p made =>
            match Redirection.attend presents.function m none params u.state.memory.next after [p]
              (callAt 3) made with
            | .ok _ v => check u p made v
            | .error _ _ => false
          | .error _ _ => false
    | .error _ _ => false
  | _ => false

/-- Whether it does so in a session in which the proxy is rooted or not. -/
def presented (rooted : Bool)
    (check : World Bool → Address → World Bool → World Bool → Bool) : Bool :=
  match (presenting rooted).run (callAt 2) presentingStart with
  | .ok _ w =>
    w.state.redirector? ("T", "Show") == some presents && w.bodies.length == 16 && handing w check
  | .error _ _ => false

theorem presented_rooted : presented true (fun loaded p made v =>
    loaded.state.strength? (.hostObject 0) == some .strong &&
      made.state.heap.nativeOf p == some (.hostObject 0) && v.state.heap.collections == 1) = true := by
  decide +kernel

theorem presented_loosened : presented false (fun _ p made v =>
    made.state.heap.nativeOf p == some (.hostObject 0) && !v.state.heap.isAlive p &&
      v.state.strength? (.hostObject 0) == some .weak) = true := by
  decide +kernel

open Redirection in
theorem of_handing {w : World Bool} {check : World Bool → Address → World Bool → World Bool → Bool}
    (h : handing w check = true) : ∃ l m params left loaded p made v rest answer,
      Loads (callAt 3) ("T", "Show") presents objectStack w l m params left loaded ∧
      Hands (callAt 3) presents.function m none params loaded.state.memory.next l.args loaded.staging
        (.hostObject 0) p rest made ∧
      rest (callAt 3) made = .ok answer v ∧ check loaded p made v = true := by
  unfold handing at h
  split at h
  · rename_i l m v hlinked
    split at h
    · rename_i params left loaded hload
      split at h
      · cases h
      · rename_i a after hargs
        split at h
        · cases h
        · rename_i param hparam
          simp only [Bool.and_eq_true, beq_iff_eq, Bool.not_eq_true'] at h
          obtain ⟨⟨⟨hobject, hvalue⟩, hhost⟩, h⟩ := h
          split at h
          · rename_i p made hproxy
            split at h
            · rename_i answer v' hanswer
              exact ⟨l, m, params, left, loaded, p, made, v', _, answer, ⟨v, hlinked, hload⟩,
                .argument hargs .nil hparam hobject hvalue hhost hproxy, hanswer, h⟩
            · cases h
          · cases h
    · cases h
  · cases h

open Redirection in
/-- The call is made in a session. -/
theorem of_presented {rooted : Bool}
    {check : World Bool → Address → World Bool → World Bool → Bool}
    (h : presented rooted check = true) : ∃ w l m params left loaded p made v rest answer,
      Session.Sees (fun _ _ => True) (fun _ => True) presentingStart [] w ∧
      w.bodies = presentingBodies ∧ w.state.redirector? ("T", "Show") = some presents ∧
      Loads (callAt 3) ("T", "Show") presents objectStack w l m params left loaded ∧
      Hands (callAt 3) presents.function m none params loaded.state.memory.next l.args loaded.staging
        (.hostObject 0) p rest made ∧
      rest (callAt 3) made = .ok answer v ∧ check loaded p made v = true := by
  unfold presented at h
  split at h
  · rename_i a w hrun
    simp only [Bool.and_eq_true, beq_iff_eq] at h
    obtain ⟨⟨hr, hlength⟩, h⟩ := h
    obtain ⟨l, m, params, left, loaded, p, made, v, rest, answer, hcall⟩ := of_handing h
    have hbodies := (bodies_of_run hrun).eq_of_length hlength.symm
    exact ⟨w, l, m, params, left, loaded, p, made, v, rest, answer,
      ⟨w, .done none, 0, .ended .start trivial hrun, trivial, .here⟩, hbodies.symm, hr, hcall⟩
  · cases h

/-- What these methods ask for. -/
inductive Gentle (s : State) : Request → Prop
  | sweep (h : .hostObject 0 ∉ s.unreached) : Gentle s .sweep
  | connect (p : Address) : Gentle s (.setNative p (.hostObject 0))

theorem Gentle.spares {s : State} {r : Request} (h : Gentle s r) :
    Address.hostObject 0 ∉ r.severed s ∧ r ≠ .setRooted (.hostObject 0) false := by
  cases h with
  | sweep h => exact ⟨h, by rintro ⟨⟩⟩
  | connect => exact ⟨List.not_mem_nil, by rintro ⟨⟩⟩

theorem asks_presenting : ∀ body ∈ presentingBodies, ∀ inv s, (body inv).Asks Gentle s := by
  intro body hbody inv s
  simp only [presentingBodies, List.cons_append, List.nil_append, List.mem_cons, List.mem_append,
    List.mem_replicate, List.not_mem_nil, or_false] at hbody
  obtain rfl | rfl | rfl | ⟨-, rfl⟩ | rfl := hbody
  · trivial
  · trivial
  · exact asks_claiming (fun _ p _ => .connect p) inv s
  · trivial
  · intro s _
    dsimp only
    split
    · trivial
    · rename_i h
      exact ⟨.sweep h, fun _ _ => trivial⟩

end Sample

open Redirection in
/-- `handed_until_answered` where the method runs a pass. -/
theorem handed_until_answered_of_sweep :
    ∃ (w loaded made v : World Bool) (l : Linkage) (m : Nat) (params : List Parameter)
      (left : ArgStack) (p : Address) (rest : Act Bool (Except ForeignException (Option Address)))
      (answer : Except ForeignException (Option Address)),
      Session.Sees (fun _ _ => True) (fun _ => True) Sample.presentingStart [] w ∧
      Loads (callAt 3) ("T", "Show") Sample.presents Sample.objectStack w l m params left loaded ∧
      loaded.state.Tight (.hostObject 0) ∧
      (attend Sample.presents.function m none params loaded.state.memory.next l.args []).Spares 3
        loaded.staging (.hostObject 0) ∧
      Hands (callAt 3) Sample.presents.function m none params loaded.state.memory.next l.args
        loaded.staging (.hostObject 0) p rest made ∧
      rest (callAt 3) made = .ok answer v ∧ v.state.heap.collections = 1 ∧
      v.state.heap.isAlive p = true ∧ v.state.findProxy (.hostObject 0) = some p ∧
      v.state.heap.nativeOf p = some (.hostObject 0) := by
  obtain ⟨w, l, m, params, left, loaded, p, made, v, rest, answer, hsees, hbodies, hr, hloads, hhands,
    hrest, hcheck⟩ := Sample.of_presented Sample.presented_rooted
  simp only [Bool.and_eq_true, beq_iff_eq] at hcheck
  obtain ⟨⟨hstrong, hknows⟩, hcollections⟩ := hcheck
  have htight : loaded.state.Tight (.hostObject 0) := by
    intro g hg
    have hstrength : loaded.state.strength? (.hostObject 0) = some g.strength :=
      congrArg (Option.map Grip.strength) hg
    exact Option.some.inj (hstrength.symm.trans hstrong)
  have hgentle {y : Spot Bool} (hy : (attend Sample.presents.function m none params
      loaded.state.memory.next l.args []).Reaches 3 loaded.staging y) :
      y.program.Asks Sample.Gentle y.world.state :=
    hloads.reaches_asks Sample.asks_presenting hbodies hr hy
  have hspares : (attend Sample.presents.function m none params loaded.state.memory.next l.args
      []).Spares 3 loaded.staging (.hostObject 0) := ⟨fun hy => (hgentle hy).1.spares⟩
  obtain ⟨-, hlinked⟩ := hloads.staging (L := .free (callAt 3) (callAt_grows 3)) (o := []) hr trivial
    List.nil_suffix trivial trivial
  have hcall : Request.Redirects (callAt 3) w (.invoke ("T", "Show") none Sample.objectStack none)
      ("T", "Show") Sample.presents none Sample.objectStack none w := .invoke hr
  obtain ⟨⟨-, hfound⟩, hknown⟩ := handed_until_answered rfl Sample.connect_presentingStart hsees
    hcall hloads htight hspares hhands
  obtain ⟨-, hknown⟩ := hknown hknows fun hy => by
    cases (hgentle (hhands.reaches hlinked hy)).1
    rfl
  rw [hrest] at hfound hknown
  exact ⟨w, loaded, made, v, l, m, params, left, p, rest, answer, hsees, hloads, htight, hspares, hhands,
    hrest, hcollections, hfound.1, hfound.2, hknown⟩

open Redirection in
/-- The same call lets go of its argument where the entry was made weak before: the method runs a pass,
which leaves the object and its entry alone, and ends with an argument that is gone. -/
theorem handed_proxy_not_always_alive :
    ∃ (w loaded made v : World Bool) (l : Linkage) (m : Nat) (params : List Parameter)
      (left : ArgStack) (p : Address) (rest : Act Bool (Except ForeignException (Option Address)))
      (answer : Except ForeignException (Option Address)),
      Session.Sees (fun _ _ => True) (fun _ => True) Sample.presentingStart [] w ∧
      Loads (callAt 3) ("T", "Show") Sample.presents Sample.objectStack w l m params left loaded ∧
      (attend Sample.presents.function m none params loaded.state.memory.next l.args []).Spares 3
        loaded.staging (.hostObject 0) ∧
      Hands (callAt 3) Sample.presents.function m none params loaded.state.memory.next l.args
        loaded.staging (.hostObject 0) p rest made ∧
      made.state.heap.nativeOf p = some (.hostObject 0) ∧ rest (callAt 3) made = .ok answer v ∧
      v.state.heap.isAlive p = false ∧ v.state.strength? (.hostObject 0) = some .weak := by
  obtain ⟨w, l, m, params, left, loaded, p, made, v, rest, answer, hsees, hbodies, hr, hloads, hhands,
    hrest, hcheck⟩ := Sample.of_presented Sample.presented_loosened
  simp only [Bool.and_eq_true, beq_iff_eq, Bool.not_eq_true'] at hcheck
  obtain ⟨⟨hknows, hgone⟩, hweak⟩ := hcheck
  refine ⟨w, loaded, made, v, l, m, params, left, p, rest, answer, hsees, hloads, ⟨fun hy => ?_⟩,
    hhands, hknows, hrest, hgone, hweak⟩
  exact (hloads.reaches_asks Sample.asks_presenting hbodies hr hy).1.spares

end TwinHeap
