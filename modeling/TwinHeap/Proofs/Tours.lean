import TwinHeap.Proofs.Books
import TwinHeap.Proofs.Equipping
import TwinHeap.Proofs.Sights
import Mathlib.Data.Finset.Card

/-!
# Tours — constructors that ask for proxies

A constructor may ask for the proxies of other host objects, and of its own, in any order and in
circles. The entry of an object is made before its constructor runs, so each request made meanwhile
finds it, and every proxy that is made leaves fewer objects without one. That number bounds how deep
calls nest, and `Plan.answers` is an induction on it; `Tour` is what becomes of a part of such a run.
-/

namespace TwinHeap

variable {σ : Type}

/-! ## Constructors -/

/-- The invocation is for the host object: it is on its proxy, which stands for it, and the pointers
passed lead to it. -/
structure Invocation.Stands (inv : Invocation) (host : Address) (s : State) : Prop where
  receiver : ∃ p, inv.receiver = some p ∧ s.findProxy host = some p ∧
    s.heap.nativeOf p = some host
  args : ∀ a ∈ inv.args, ∃ c < s.memory.next, a = .ofCell c ∧ s.memory.get c = .plain host.octets

/-- Run for a host object, foreign code asks for the proxies of these objects, one after the other, and
returns. Apart from that it looks around, remembers, defines methods, connects its receiver and makes
requests that concern no proxy. -/
inductive Program.Requests (inv : Invocation) (host : Address) : List Address → Program σ → Prop
  | done {a : Option Address} : Requests inv host [] (.done a)
  | observe {ys : List Address} {next : State → σ → Program σ}
      (h : ∀ s memory, inv.Stands host s → Requests inv host ys (next s memory)) :
      Requests inv host ys (.observe next)
  | remember {ys : List Address} {memory : σ} {next : Program σ} (h : Requests inv host ys next) :
      Requests inv host ys (.remember memory next)
  | define {ys : List Address} {info : MethodInfo} {body : Invocation → Program σ}
      {next : Nat → Program σ} (h : ∀ i, Requests inv host ys (next i)) :
      Requests inv host ys (.define info body next)
  | quiet {ys : List Address} {r : Request} {next : r.Reply → Program σ} (hr : r.Quiet)
      (h : ∀ reply, Requests inv host ys (next reply)) : Requests inv host ys (.ask r next)
  | connect {ys : List Address} {p : Address} {next : Unit → Program σ}
      (hp : inv.receiver = some p) (h : ∀ reply, Requests inv host ys (next reply)) :
      Requests inv host ys (.ask (.setNative p host) next)
  | proxy {y : Address} {ys : List Address} {next : Except BridgeError Address → Program σ}
      (h : ∀ q, Requests inv host ys (next (.ok q))) :
      Requests inv host (y :: ys) (.ask (.proxy y) next)

/-- The class of the object has a proxy class with the constructor `m`, which asks for these
proxies. -/
def World.Constructs (w : World σ) (host : Address) (m : Nat) (ys : List Address) : Prop :=
  ∃ c b body, w.state.host.classOf host = .ok c ∧ w.state.resolveBinding c = .ok (.ok b) ∧
    b.method = m ∧ w.bodies[m]? = some body ∧ ∀ p args,
      args.length = (if b.takesNative then 1 else 0) →
        (body ⟨some p, args⟩).Requests ⟨some p, args⟩ host ys

/-! ## Prepared worlds -/

/-- The host objects that may come to be given proxies, what their constructors ask for, these
constructors, and the methods that are called around them. -/
structure Plan where
  hosts : Finset Address
  wants : Address → List Address
  constructor : Address → Option Nat
  helpers : Helpers

namespace Plan

variable (P : Plan)

/-- The methods that are called for an object. -/
def calls (a : Address) : List Nat :=
  P.helpers.beforeConstruct :: ((P.constructor a).toList ++ [P.helpers.afterConstruct])

/-- The objects without a proxy. -/
def lacking (s : State) : Finset Address := P.hosts.filter fun a => s.findProxy a = none

end Plan

/-- Objects of the plan without a proxy can be given one, with constructors as planned and the stock
methods around them. -/
structure World.Prepared (P : Plan) (w : World σ) : Prop where
  sound : w.state.Sound
  helpers : w.state.bridge.helpers = P.helpers
  connects : w.bodies[P.helpers.beforeConstruct]? = some fun inv => (Library.connect inv).toProgram
  completes : w.bodies[P.helpers.afterConstruct]? = some fun _ => .done none
  bindings : ∀ c b, w.state.bridge.bindings.get? c = some b → w.state.resolveBinding c = .ok (.ok b)
  constructs : ∀ a ∈ P.lacking w.state,
    ∃ m, P.constructor a = some m ∧ w.Constructs a m (P.wants a)
  apart : ∀ a ∈ P.hosts, P.constructor a ≠ some P.helpers.beforeConstruct ∧
    P.constructor a ≠ some P.helpers.afterConstruct
  closed : ∀ a ∈ P.lacking w.state, ∀ y ∈ P.wants a, y ∈ P.hosts ∨ w.state.findProxy y ≠ none

section Equips

variable {P : Plan} {w v : World σ} {made : List Address} {ran : List Nat} {k : Nat}

/-- Those that were given proxies lack them no more. -/
theorem State.Equips.lacking (he : w.state.Equips made ran k v.state)
    (hm : ∀ a ∈ made, a ∈ P.hosts) :
    (P.lacking v.state).card + made.length ≤ (P.lacking w.state).card := by
  have hdisjoint : Disjoint (P.lacking v.state) made.toFinset := by
    rw [Finset.disjoint_left]
    intro a ha hmade
    exact he.found a (List.mem_toFinset.1 hmade) (Finset.mem_filter.1 ha).2
  rw [← List.toFinset_card_of_nodup he.nodup, ← Finset.card_union_of_disjoint hdisjoint]
  refine Finset.card_le_card fun a ha => ?_
  obtain ha | ha := Finset.mem_union.1 ha
  · obtain ⟨hmem, hnone⟩ := Finset.mem_filter.1 ha
    exact Finset.mem_filter.2 ⟨hmem, he.lacked hnone⟩
  · have ha := List.mem_toFinset.1 ha
    exact Finset.mem_filter.2 ⟨hm a ha, he.fresh a ha⟩

theorem State.Equips.mem_lacking (he : w.state.Equips made ran k v.state) {a : Address}
    (ha : a ∈ P.lacking v.state) : a ∈ P.lacking w.state := by
  obtain ⟨hmem, hnone⟩ := Finset.mem_filter.1 ha
  exact Finset.mem_filter.2 ⟨hmem, he.lacked hnone⟩

theorem World.Prepared.equips (h : w.Prepared P) (hb : w.bodies <+: v.bodies)
    (he : w.state.Equips made ran k v.state) : v.Prepared P where
  sound := he.sound
  helpers := he.grows.helpers.trans h.helpers
  connects := getElem?_of_extends hb h.connects
  completes := getElem?_of_extends hb h.completes
  bindings c b hc := by
    have hholds {s : State} (hs : s.resolveBinding c = .ok (.ok b)) :
        (Finding.binding c b).Holds s := hs
    obtain hx | hx := he.evolves.newly (.binding c b) (.binding hc)
    · cases hx with
      | binding hc => exact he.evolves.holds (hholds (h.bindings c b hc))
    · exact hx
  constructs a ha := by
    obtain ⟨m, hctor, c, b, body, hc, hresolve, hm, hbody, hrequests⟩ :=
      h.constructs a (he.mem_lacking ha)
    exact ⟨m, hctor, c, b, body, he.classes a c hc, he.evolves.holds (x := .binding c b) hresolve, hm,
      getElem?_of_extends hb hbody, hrequests⟩
  apart := h.apart
  closed a ha y hy := by
    refine (h.closed a (he.mem_lacking ha) y hy).imp_right fun hne hn => hne (he.lacked hn)

/-- An invocation goes on standing for its object. -/
theorem Invocation.Stands.equips {inv : Invocation} {host : Address} (h : inv.Stands host w.state)
    (hhost : host ≠ .null) (he : w.state.Equips made ran k v.state) : inv.Stands host v.state where
  receiver := by
    obtain ⟨p, hp, hfind, hnative⟩ := h.receiver
    exact ⟨p, hp, he.stays hfind, he.stands p host hhost hnative⟩
  args a ha := by
    obtain ⟨c, hc, rfl, hget⟩ := h.args a ha
    refine ⟨c, Nat.lt_of_lt_of_le hc he.grows.next, rfl, ?_⟩
    unfold Memory.get
    rw [he.cells c hc]
    exact hget

end Equips

/-- Calls may nest as deep as objects may be given proxies one within the other, and these can all be
counted. -/
def World.Affords (P : Plan) (n : Nat) (w : World σ) : Prop :=
  (P.lacking w.state).card ≤ n ∧
    w.counter Counter.proxiesCreated + (P.lacking w.state).card < wordModulus

theorem World.Affords.equips {P : Plan} {n k : Nat} {w v : World σ} {made : List Address}
    {ran : List Nat} (h : w.Affords P n) (he : w.state.Equips made ran k v.state)
    (hm : ∀ a ∈ made, a ∈ P.hosts) (hk : k ≤ made.length) : v.Affords P n := by
  have hlacking := he.lacking hm
  have hcounter : v.counter Counter.proxiesCreated = w.counter Counter.proxiesCreated + k :=
    he.counter
  obtain ⟨hdepth, hroom⟩ := h
  constructor <;> omega

/-! ## Tours -/

/-- In a part of a run the host objects `made` of the plan were given proxies: constructors were run for
them and for no others, and what they ask for has proxies now. -/
structure Tour (P : Plan) (es : List (Enclosing σ)) (seen : Spot σ → Prop) (made : List Address)
    (w v : World σ) : Prop where
  bodies : w.bodies <+: v.bodies
  equips : w.state.Equips made (made.flatMap P.calls) made.length v.state
  planned : ∀ a ∈ made, a ∈ P.hosts
  closed : ∀ a ∈ made, ∀ y ∈ P.wants a, v.state.findProxy y ≠ none
  sights : Sights P.constructor es seen made v.state

namespace Tour

variable {P : Plan} {es : List (Enclosing σ)} {seen seen' : Spot σ → Prop}
  {made made' : List Address} {w u v : World σ}

theorem congr (h : Tour P es seen made w v) (hseen : ∀ y, seen' y ↔ seen y) :
    Tour P es seen' made w v :=
  { h with sights := h.sights.congr hseen }

/-- A step in which nothing is seen. -/
theorem of_equips (hb : w.bodies <+: v.bodies) (he : w.state.Equips [] [] 0 v.state) :
    Tour P es (fun _ => False) [] w v where
  bodies := hb
  equips := he
  planned _ ha := (List.not_mem_nil ha).elim
  closed _ ha := (List.not_mem_nil ha).elim
  sights := .unseen

theorem append (h : Tour P es seen made w u) (h' : Tour P es seen' made' u v) :
    Tour P es (fun y => seen y ∨ seen' y) (made ++ made') w v where
  bodies := h.bodies.trans h'.bodies
  equips := by
    rw [List.flatMap_append, List.length_append]
    exact h.equips.trans h'.equips
  planned a ha := (List.mem_append.1 ha).elim (h.planned a) (h'.planned a)
  closed a ha y hy := by
    obtain ha | ha := List.mem_append.1 ha
    · exact fun hn => h.closed a ha y hy (h'.equips.lacked hn)
    · exact h'.closed a ha y hy
  sights := by
    refine (h.sights.mono fun _ _ hq => h'.equips.stays hq).append h'.sights fun a ha ha' => ?_
    exact h.equips.found a ha (h'.equips.fresh a ha')

/-- A step, and what follows it. -/
theorem after (h : Tour P es seen made u v) (hb : w.bodies <+: u.bodies)
    (he : w.state.Equips [] [] 0 u.state) : Tour P es seen made w v :=
  ((of_equips hb he).append h).congr fun _ => (or_iff_right not_false).symm

/-- One more spot is seen, at which no proxy is asked for. -/
theorem here {n : Nat} {p : Program σ} (h : Tour P es seen made w v)
    (hp : ∀ a next, p ≠ .ask (.proxy a) next) {x : World σ} :
    Tour P es (fun y => y = ⟨n, es, p, x⟩ ∨ seen y) made w v :=
  { h with sights := h.sights.here fun a next he => absurd he (hp a next) }

end Tour

/-! ## Making a proxy -/

theorem State.isType_of_resolveBinding {s : State} {c : Address} {b : ProxyBinding}
    (h : s.resolveBinding c = .ok (.ok b)) : s.foreign.isType b.type = true := by
  obtain ⟨_, info, -, -, hb⟩ := resolveBinding_eq_ok.1 h
  unfold Foreign.findBinding at hb
  dsimp only at hb
  cases htype : s.foreign.lookupType info.assembly info.foreignName with
  | none =>
    rw [htype] at hb
    cases hb
  | some type =>
    rw [htype] at hb
    obtain ⟨m, -, hb⟩ := ok_of_bind hb
    cases hb
    exact List.contains_iff_mem.2 (Table.mem_values_of_get? htype)

namespace Identity

open Act

variable {w : World σ} {c host p : Address} {b : ProxyBinding}

/-- A class that is resolved has its binding, be it remembered or not. -/
theorem bindingFor_equips (hs : w.state.Sound) (hb : w.state.resolveBinding c = .ok (.ok b))
    (hmemo : ∀ b', w.state.bridge.bindings.get? c = some b' →
      w.state.resolveBinding c = .ok (.ok b')) :
    ∃ x : World σ, (∀ call, bindingFor c call w = .ok (.ok b) x) ∧ x.bodies = w.bodies ∧
      x.state.bridge.entries = w.state.bridge.entries ∧ w.state.Equips [] [] 0 x.state := by
  unfold bindingFor
  cases hget : w.state.bridge.bindings.get? c with
  | some b' =>
    cases hb.symm.trans (hmemo b' hget)
    refine ⟨w, fun call => ?_, rfl, rfl, .refl hs⟩
    rw [state_bind, hget]
    rfl
  | none =>
    obtain ⟨info, _, hinfo, -, -⟩ := State.resolveBinding_eq_ok.1 hb
    let noted := w.state.report (.proxyClassResolved info.name b.proxyClass)
    have hnoted : w.state.Equips [] [] 0 noted := .note hs _ rfl
    have hresolve : noted.resolveBinding c = .ok (.ok b) :=
      hnoted.evolves.holds (x := .binding c b) hb
    let found : State := { noted with
      bridge := { noted.bridge with bindings := noted.bridge.bindings.insert c b } }
    have hfound : w.state.Equips [] [] 0 found :=
      hnoted.trans (.resolve hnoted.sound hresolve hget)
    refine ⟨w.withState found, fun call => ?_, rfl, rfl, hfound⟩
    rw [state_bind, hget, hinfo, hb]
    rfl

/-- The calls of foreign code by which a new proxy is constructed. -/
def constructing (b : ProxyBinding) (proxy host : Address) (w u v : World σ) :
    List (Nat × Invocation × World σ) :=
  [(w.state.bridge.helpers.beforeConstruct, ⟨some proxy, [.ofCell w.state.memory.next]⟩,
      w.lend (.plain host.octets)),
    (b.method, ⟨some proxy, if b.takesNative then [.ofCell u.state.memory.next] else []⟩,
      u.lend (.plain host.octets)),
    (v.state.bridge.helpers.afterConstruct, ⟨some proxy, []⟩, v)]

/-- A new proxy is connected and constructed if the three methods return. -/
theorem construct_proceeds {call : Invoker σ} {u v x y z : World σ} {a a' a'' : Option Address}
    (hbefore : call w.state.bridge.helpers.beforeConstruct
      ⟨some p, [.ofCell w.state.memory.next]⟩ (w.lend (.plain host.octets)) = .ok (.ok a) x)
    (hu : u = x.withState (x.state.discard w.state.memory.next))
    (hctor : call b.method ⟨some p, if b.takesNative then [.ofCell u.state.memory.next] else []⟩
      (u.lend (.plain host.octets)) = .ok (.ok a') y)
    (hv : v = y.withState (y.state.discard u.state.memory.next))
    (hafter : call v.state.bridge.helpers.afterConstruct ⟨some p, []⟩ v = .ok (.ok a'') z) :
    (construct b p host : Act σ Unit).Proceeds call w (constructing b p host w u v) () z := by
  subst hu hv
  have hcalled {m : Nat} {inv : Invocation} {a : Option Address} {w v : World σ}
      (h : call m inv w = .ok (.ok a) v) :
      (callMethod m inv.receiver inv.args >>= fun a => discard (ofForeign a) : Act σ Unit).Proceeds
        call w [(m, inv, w)] () v :=
    (Proceeds.callMethod h).bind (.of_const fun _ => rfl)
  have hfirst : (Engine.beforeConstruct p host : Act σ Unit).Proceeds call w
      [(w.state.bridge.helpers.beforeConstruct, ⟨some p, [.ofCell w.state.memory.next]⟩,
        w.lend (.plain host.octets))] () (x.withState (x.state.discard w.state.memory.next)) := by
    unfold Engine.beforeConstruct Engine.withPointer
    exact .withCell (.state_bind (hcalled hbefore))
  show (construct b p host : Act σ Unit).Proceeds call w ([_] ++ ([_] ++ [_])) () z
  exact hfirst.bind (.bind (.withCell (hcalled hctor)) (.state_bind (hcalled hafter)))

/-- An object without a proxy is entered with a new one, which is then constructed and counted. -/
theorem proxyFor_of_fresh (hs : w.state.Sound) (hn : w.state.findProxy host = none)
    (hc : w.state.host.classOf host = .ok c) (hb : w.state.resolveBinding c = .ok (.ok b))
    (hmemo : ∀ b', w.state.bridge.bindings.get? c = some b' →
      w.state.resolveBinding c = .ok (.ok b')) :
    ∃ (p : Address) (x : World σ), x.bodies = w.bodies ∧ w.state.Equips [host] [] 0 x.state ∧
      x.state.findProxy host = some p ∧ x.state.heap.nativeOf p = some .null ∧
      ∀ (call : Invoker σ) (calls : List (Nat × Invocation × World σ)) (v : World σ),
        (construct b p host : Act σ Unit).Proceeds call x calls () v → v.state.Sound →
        v.counter Counter.proxiesCreated + 1 < wordModulus →
        ∃ v', (proxyFor host : Act σ Address).Proceeds call w calls p v' ∧ v'.bodies = v.bodies ∧
          v.state.Equips [] [] 1 v'.state := by
  -- An entry that leads nowhere goes first; the object is entered anew when its class is resolved.
  have hdrop : w.state.Equips [] [] 0 (w.state.dropEntry host) := .dropEntry hs hn
  have hclass := hdrop.classes host c hc
  have hmemo' (b' : ProxyBinding) (hget : (w.state.dropEntry host).bridge.bindings.get? c = some b') :
      (w.state.dropEntry host).resolveBinding c = .ok (.ok b') := by
    refine hdrop.evolves.holds (x := .binding c b') (hmemo b' ?_)
    unfold State.dropEntry at hget
    split at hget <;> exact hget
  obtain ⟨u, hfor, hbodies, hentries, hu⟩ :=
    bindingFor_equips (w := w.withState (w.state.dropEntry host)) hdrop.sound
      (hdrop.evolves.holds (x := .binding c b) hb) hmemo'
  have hfound := hdrop.trans hu
  have htype : u.state.foreign.isType b.type = true :=
    State.isType_of_resolveBinding (hfound.evolves.holds (x := .binding c b) hb)
  have habsent : u.state.bridge.entries.get? host = none := by
    rw [hentries]
    exact get?_dropEntry_self w.state host
  obtain ⟨hsome, hadd⟩ := instantiate_addEntry u.state host htype
  obtain ⟨hself, hnull⟩ := findProxy_addProxy u.state host htype
  have hmade : u.state.Equips [host] [] 0 (u.state.addProxy host b.type) :=
    .addProxy hu.sound habsent (hfound.classes host c hc) htype
  refine ⟨.foreign u.state.heap.nextObject, u.withState (u.state.addProxy host b.type), hbodies,
    hfound.trans hmade, hself, hnull, fun call calls v hconstruct hv hroom => ?_⟩
  obtain ⟨metrics, hcount⟩ : ∃ m, v.state.bridge.metrics.add Counter.proxiesCreated 1 = .ok m :=
    ⟨_, (Metrics.add_eq _ _ _).trans (if_pos hroom)⟩
  have hcounter := Metrics.counter_of_add hcount Counter.proxiesCreated
  rw [if_pos rfl] at hcounter
  let noted : State := { v.state with
    journal := .proxyCreated host b.proxyClass :: v.state.journal
    bridge := { v.state.bridge with metrics := metrics } }
  refine ⟨v.withState noted, ?_, rfl, .note hv _ hcounter⟩
  unfold proxyFor
  refine .state_bind ?_
  rw [hn]
  refine .after (fun _ => rfl) (.state_bind ?_)
  rw [hclass]
  refine .after (fun _ => rfl) (.after hfor (.after (fun _ => rfl) ?_))
  refine .after (a := some (.foreign u.state.heap.nextObject))
    (u := u.withState (u.state.instantiate b.type).2) (fun _ => ?_) ?_
  · exact congrArg (EStateM.Result.ok · _) hsome
  refine .after (a := ()) (u := u.withState (u.state.addProxy host b.type)) (fun _ => ?_) ?_
  · exact congrArg (fun s => EStateM.Result.ok () (u.withState s)) hadd
  -- The new proxy is noted and counted when it is constructed, for which there is room.
  refine .before hconstruct.attempt fun call' => ?_
  show (count Counter.proxiesCreated 1 >>= fun _ => pure _ : Act σ Address) call'
    (v.withState (v.state.report (.proxyCreated host b.proxyClass))) = _
  exact bind_of_ok (count_of_ok hcount)

end Identity

/-! ## Runs of constructors -/

section Runs

variable {P : Plan} {n : Nat} {es : List (Enclosing σ)} {made : List Address} {w u v : World σ}

/-- A request that calls no method, and what follows it. -/
theorem Tour.ask {r : Request} {next : r.Reply → Program σ} {reply : r.Reply}
    (h : Tour P es (Spot.Leads ⟨n, es, next reply, u⟩) made u v)
    (hr : ∀ call, r.perform call w = .ok reply u) (hproxy : ∀ a, r ≠ .proxy a)
    (hb : w.bodies <+: u.bodies) (he : w.state.Equips [] [] 0 u.state) :
    Tour P es (Spot.Leads ⟨n, es, .ask r next, w⟩) made w v := by
  refine ((h.after hb he).here (n := n) (p := .ask r next) (x := w) ?_).congr fun y => ?_
  · rintro a next' heq
    exact hproxy a (Program.ask.inj heq).1
  · rw [Spot.leads_ask (hr _), or_iff_right (a := Spot.Within _ _) (Spot.not_within (.of_const hr))]

/-- Requests for proxies are answered, with calls nested at most so deep. -/
def Plan.Answers (P : Plan) (σ : Type) (n : Nat) : Prop :=
  ∀ (w : World σ) (y : Address) (es : List (Enclosing σ))
    (next : Except BridgeError Address → Program σ), w.Prepared P → w.Affords P n →
    y ∈ P.hosts ∨ w.state.findProxy y ≠ none → ∃ made q v,
      (Request.proxy y).perform (callAt n) w = .ok (.ok q) v ∧ v.state.findProxy y = some q ∧
        Tour P es (Spot.Within ⟨n, es, .ask (.proxy y) next, w⟩) made w v

/-- The invocation of a constructor stands for the host object, and may ask for these proxies. -/
structure World.Serves (P : Plan) (n : Nat) (inv : Invocation) (host : Address) (ys : List Address)
    (w : World σ) : Prop where
  prepared : w.Prepared P
  affords : w.Affords P n
  stands : inv.Stands host w.state
  proper : host ≠ .null
  planned : ∀ y ∈ ys, y ∈ P.hosts ∨ w.state.findProxy y ≠ none

theorem World.Serves.equips {inv : Invocation} {host : Address} {ys : List Address} {ran : List Nat}
    {k : Nat} (h : w.Serves P n inv host ys) (hb : w.bodies <+: v.bodies)
    (he : w.state.Equips made ran k v.state) (hm : ∀ a ∈ made, a ∈ P.hosts) (hk : k ≤ made.length) :
    v.Serves P n inv host ys where
  prepared := h.prepared.equips hb he
  affords := h.affords.equips he hm hk
  stands := h.stands.equips h.proper he
  proper := h.proper
  planned y hy := (h.planned y hy).imp_right fun hne hn => hne (he.lacked hn)

/-- A step that concerns no proxy. -/
theorem World.Serves.step {inv : Invocation} {host : Address} {ys : List Address}
    (h : w.Serves P n inv host ys) (hb : w.bodies <+: v.bodies)
    (he : w.state.Equips [] [] 0 v.state) : v.Serves P n inv host ys :=
  h.equips hb he (fun _ ha => (List.not_mem_nil ha).elim) (Nat.le_refl _)

/-- A constructor returns, and what it asks for has proxies then. -/
theorem Program.Requests.tour (es : List (Enclosing σ)) (hanswers : P.Answers σ n)
    {inv : Invocation} {host : Address} {ys : List Address} {p : Program σ}
    (hp : p.Requests inv host ys) (hw : w.Serves P n inv host ys) :
    ∃ a made v, p.run (callAt n) w = .ok (.ok a) v ∧ (∀ y ∈ ys, v.state.findProxy y ≠ none) ∧
      Tour P es (Spot.Leads ⟨n, es, p, w⟩) made w v := by
  have hsame (w : World σ) : w.bodies <+: w.bodies := List.prefix_refl _
  induction hp generalizing w with
  | @done a =>
    refine ⟨a, [], w, rfl, fun _ ha => (List.not_mem_nil ha).elim, ?_⟩
    have hstill : Tour P es (fun _ : Spot σ => False) [] w w :=
      .of_equips (hsame w) (.refl hw.prepared.sound)
    refine (hstill.here (n := n) (p := .done a) (x := w) nofun).congr fun y => ?_
    rw [Spot.leads_done, or_false]
  | @observe ys next _ ih =>
    -- What is looked at is the state of a world in which the invocation stands for its object.
    obtain ⟨a, made, v, hrun, hfound, htour⟩ := ih w.state w.memory hw.stands hw
    refine ⟨a, made, v, hrun, hfound, ?_⟩
    exact (htour.here (p := .observe next) (x := w) nofun).congr fun y => Spot.leads_observe
  | @remember ys memory next _ ih =>
    let u : World σ := { w with memory := memory }
    have hstill : w.state.Equips [] [] 0 u.state := .refl hw.prepared.sound
    obtain ⟨a, made, v, hrun, hfound, htour⟩ := ih (hw.step (v := u) (hsame w) hstill)
    refine ⟨a, made, v, hrun, hfound, ?_⟩
    exact ((htour.after (hsame w) hstill).here (p := .remember memory next) (x := w) nofun).congr
      fun y => Spot.leads_remember
  | @define ys info body next _ ih =>
    have hb : w.bodies <+: (w.define info body).bodies := List.prefix_append _ _
    have hdefine := State.Equips.define hw.prepared.sound info body
    obtain ⟨a, made, v, hrun, hfound, htour⟩ := ih w.bodies.length (hw.step hb hdefine)
    refine ⟨a, made, v, hrun, hfound, ?_⟩
    exact ((htour.after hb hdefine).here (p := .define info body next) (x := w) nofun).congr
      fun y => Spot.leads_define
  | @quiet ys r next hr _ ih =>
    obtain ⟨f, hf⟩ := hr.alone
    obtain ⟨reply, hreply⟩ := Request.perform_alone hf w
    have hquiet : w.state.Equips [] [] 0 (f w.state) := hr.equips hf hw.prepared.sound
    obtain ⟨a, made, v, hrun, hfound, htour⟩ :=
      ih reply (hw.step (v := w.withState (f w.state)) (hsame w) hquiet)
    refine ⟨a, made, v, ?_, hfound, htour.ask hreply ?_ (hsame w) hquiet⟩
    · rw [run_ask, hreply]
      exact hrun
    · rintro a rfl
      exact hr
  | @connect ys p next hp _ ih =>
    obtain ⟨p', hp', -, hnative⟩ := hw.stands.receiver
    cases hp.symm.trans hp'
    have hset := State.Equips.setNative hw.prepared.sound (.inr hnative)
    let u := w.withState (w.state.withHeap (w.state.heap.setNative p host))
    obtain ⟨a, made, v, hrun, hfound, htour⟩ := ih () (hw.step (v := u) (hsame w) hset)
    exact ⟨a, made, v, hrun, hfound, htour.ask (fun _ => rfl) nofun (hsame w) hset⟩
  | @proxy y ys next _ ih =>
    obtain ⟨made, q, u, hperform, hq, htour⟩ := hanswers w y es next hw.prepared hw.affords
      (hw.planned y List.mem_cons_self)
    have hu := hw.equips htour.bodies htour.equips htour.planned (Nat.le_refl _)
    obtain ⟨a, made', v, hrun, hfound, htour'⟩ :=
      ih q { hu with planned := fun y hy => hu.planned y (List.mem_cons_of_mem _ hy) }
    refine ⟨a, made ++ made', v, ?_, ?_, ?_⟩
    · refine (run_ask (.proxy y) next).trans ?_
      rw [hperform]
      exact hrun
    · refine List.forall_mem_cons.2 ⟨fun hn => ?_, hfound⟩
      cases (htour'.equips.lacked hn).symm.trans hq
    · have hboth := htour.append htour'
      have hsights := hboth.sights.here (n := n) (p := .ask (.proxy y) next) (w := w) (by
        rintro _ _ ⟨⟩
        exact ⟨q, u, hperform, htour'.equips.stays hq⟩)
      have hall : Tour P es _ (made ++ made') w v := { hboth with sights := hsights }
      exact hall.congr fun z => Spot.leads_ask hperform

/-- What is seen where a method returns at once. -/
theorem Sights.of_done (ctor : Address → Option Nat) (n : Nat) (es : List (Enclosing σ))
    (a : Option Address) (w : World σ) (s : State) :
    Sights ctor es (Spot.Leads ⟨n, es, .done a, w⟩) [] s := by
  refine (Sights.unseen.here (n := n) (p := .done a) (w := w) nofun).congr fun y => ?_
  rw [Spot.leads_done, or_false]

/-- What is seen where a proxy is told what it stands for. -/
theorem Sights.of_connect (ctor : Address → Option Nat) (n : Nat) (es : List (Enclosing σ))
    (p place : Address) (w : World σ) (s : State) : Sights ctor es
      (Spot.Leads ⟨n, es, (Library.connect ⟨some p, [place]⟩).toProgram, w⟩) [] s := by
  let u := w.withState (w.state.withHeap (w.state.heap.setNative p (w.state.addressAt place)))
  have hset (call : Invoker σ) :
      (Request.setNative p (w.state.addressAt place)).perform call w = .ok () u := rfl
  let next (s : State) (_ : σ) : Program σ :=
    .ask (.setNative p (s.addressAt place)) fun _ => .done none
  have hprogram : (Library.connect ⟨some p, [place]⟩).toProgram = .observe next := rfl
  have hask : Sights ctor es (Spot.Leads ⟨n, es, next w.state w.memory, w⟩) [] s := by
    refine ((Sights.of_done ctor n es none u s).here (n := n) (w := w)
      (p := next w.state w.memory) (by rintro _ _ ⟨⟩)).congr fun y => ?_
    rw [Spot.leads_ask (hset _), or_iff_right (a := Spot.Within _ _) (Spot.not_within (.of_const hset))]
  rw [hprogram]
  exact (hask.here (n := n) (w := w) (p := .observe next) (by rintro _ _ ⟨⟩)).congr
    fun y => Spot.leads_observe

/-! ## Three calls -/

section Calls

variable {k : Nat} {host p : Address}

/-- The proxy is told what it stands for. -/
theorem World.Prepared.before (hw : w.Prepared P) (hhost : ∃ i, host = .hostObject i)
    (hnull : w.state.heap.nativeOf p = some .null) (k : Nat) : ∃ u : World σ,
    callAt (k + 1) w.state.bridge.helpers.beforeConstruct ⟨some p, [.ofCell w.state.memory.next]⟩
        (w.lend (.plain host.octets)) = .ok (.ok none) u ∧ u.bodies = w.bodies ∧
      w.state.Equips [] [P.helpers.beforeConstruct] 0 (u.state.discard w.state.memory.next) ∧
      u.state.heap.nativeOf p = some host := by
  let x := (w.lend (.plain host.octets)).countCall P.helpers.beforeConstruct
  let u := x.withState (x.state.withHeap (x.state.heap.setNative p host))
  have hplace : x.state.addressAt (.ofCell w.state.memory.next) = host :=
    State.addressAt_ofCell (w.get_lend_self _) (Address.fits_of_hostObject hhost)
  have hrun := run_connect (callAt k) x p (.ofCell w.state.memory.next)
  rw [hplace] at hrun
  have hx : (w.state.allot (.plain host.octets)).2.Equips [] [P.helpers.beforeConstruct] 0 x.state :=
    .countCall (State.Equips.allot hw.sound _).sound _
  have hu : (w.state.allot (.plain host.octets)).2.Equips [] [P.helpers.beforeConstruct] 0 u.state :=
    hx.trans (.setNative hx.sound (.inl hnull))
  refine ⟨u, ?_, rfl, .lent hw.sound hu, ?_⟩
  · rw [hw.helpers, callAt_succ, show (w.lend (.plain host.octets)).bodies[_]? = _ from hw.connects]
    exact hrun
  · refine (Heap.nativeOf_setNative _ p host p).trans ?_
    rw [if_pos rfl, show x.state.heap.nativeOf p = _ from hnull]
    rfl

/-- The constructor runs on the proxy, and objects of the plan are given theirs meanwhile. -/
theorem World.Prepared.during (es : List (Enclosing σ)) (hanswers : P.Answers σ k)
    (hw : w.Prepared P) (hk : w.Affords P k) (hhost : ∃ i, host = .hostObject i)
    (hfind : w.state.findProxy host = some p) (hnative : w.state.heap.nativeOf p = some host)
    {m : Nat} {body : Invocation → Program σ} (hbody : w.bodies[m]? = some body) {args : List Address}
    (hargs : ∀ a ∈ args, a = .ofCell w.state.memory.next) {ys : List Address}
    (hrequests : (body ⟨some p, args⟩).Requests ⟨some p, args⟩ host ys)
    (hys : ∀ y ∈ ys, y ∈ P.hosts ∨ w.state.findProxy y ≠ none) : ∃ a made u,
    callAt (k + 1) m ⟨some p, args⟩ (w.lend (.plain host.octets)) = .ok (.ok a) u ∧
      w.bodies <+: u.bodies ∧ w.state.Equips made (m :: made.flatMap P.calls) made.length
        (u.state.discard w.state.memory.next) ∧ (∀ y ∈ ys, u.state.findProxy y ≠ none) ∧
      Tour P es (Spot.Leads ⟨k, es, body ⟨some p, args⟩,
        (w.lend (.plain host.octets)).countCall m⟩) made
        ((w.lend (.plain host.octets)).countCall m) u := by
  let z := (w.lend (.plain host.octets)).countCall m
  have hallot := State.Equips.allot hw.sound (.plain host.octets)
  have hcount : (w.state.allot (.plain host.octets)).2.Equips [] [m] 0 z.state :=
    .countCall hallot.sound m
  have hz : w.state.Equips [] [m] 0 z.state := hallot.trans hcount
  have hnone : ∀ a ∈ ([] : List Address), a ∈ P.hosts := fun _ ha => (List.not_mem_nil ha).elim
  have hserves : z.Serves P k ⟨some p, args⟩ host ys := {
    prepared := hw.equips (List.prefix_refl _) hz
    affords := hk.equips hz hnone (Nat.le_refl _)
    stands := {
      receiver := ⟨p, rfl, hz.stays hfind, hnative⟩
      args := fun a ha =>
        ⟨w.state.memory.next, Nat.lt_succ_self _, hargs a ha, w.get_lend_self _⟩ }
    proper := by
      obtain ⟨i, rfl⟩ := hhost
      exact nofun
    planned := fun y hy => (hys y hy).imp_right fun hne hn => hne (hz.lacked hn) }
  obtain ⟨a, made, u, hrun, hfound, htour⟩ := hrequests.tour es hanswers hserves
  refine ⟨a, made, u, ?_, htour.bodies, ?_, hfound, htour⟩
  · rw [callAt_succ, show (w.lend (.plain host.octets)).bodies[m]? = _ from hbody]
    exact hrun
  · have hall := hcount.trans htour.equips
    rw [Nat.zero_add] at hall
    exact .lent hw.sound hall

/-- And is done with. -/
theorem World.Prepared.done (hw : w.Prepared P) (k : Nat) (p : Address) :
    callAt (k + 1) w.state.bridge.helpers.afterConstruct ⟨some p, []⟩ w =
      .ok (.ok none) (w.countCall P.helpers.afterConstruct) := by
  rw [hw.helpers, callAt_succ, hw.completes]
  rfl

/-- What is seen while a proxy is constructed, given what is seen in the constructor. -/
theorem Sights.of_constructing (hw : w.Prepared P) (hv : v.Prepared P) (hhost : host ∈ P.hosts)
    {b : ProxyBinding} {body : Invocation → Program σ} (hbody : u.bodies[b.method]? = some body)
    (hctor : P.constructor host = some b.method) {s : State} (hproxy : s.findProxy host = some p)
    {x : World σ} {args : List Address} {e : Enclosing σ}
    (he : e = ⟨.proxy host, x, k + 1, b.method, ⟨some p, args⟩, u.lend (.plain host.octets)⟩)
    (hseen : Sights P.constructor (e :: es) (Spot.Leads ⟨k, e :: es, body ⟨some p, args⟩,
      (u.lend (.plain host.octets)).countCall b.method⟩) made s)
    (hnew : host ∉ made) : Sights P.constructor es
      (Spot.Called (.proxy host) x k es
        [(w.state.bridge.helpers.beforeConstruct, ⟨some p, [.ofCell w.state.memory.next]⟩,
            w.lend (.plain host.octets)),
          (b.method, ⟨some p, args⟩, u.lend (.plain host.octets)),
          (v.state.bridge.helpers.afterConstruct, ⟨some p, []⟩, v)]) (host :: made) s := by
  subst he
  let es' (m : Nat) (args : List Address) (y : World σ) : List (Enclosing σ) :=
    ⟨.proxy host, x, k + 1, m, ⟨some p, args⟩, y⟩ :: es
  have hapart := hw.apart host hhost
  have hfirst : (w.lend (.plain host.octets)).bodies[w.state.bridge.helpers.beforeConstruct]? =
      some fun inv => (Library.connect inv).toProgram := hw.helpers ▸ hw.connects
  have hthird : v.bodies[v.state.bridge.helpers.afterConstruct]? = some fun _ => .done none :=
    hv.helpers ▸ hv.completes
  have hsecond : (u.lend (.plain host.octets)).bodies[b.method]? = some body := hbody
  have hconnect := (Sights.of_connect P.constructor k (es' w.state.bridge.helpers.beforeConstruct
    [.ofCell w.state.memory.next] (w.lend (.plain host.octets))) p
    (.ofCell w.state.memory.next) ((w.lend (.plain host.octets)).countCall
      w.state.bridge.helpers.beforeConstruct) s).enter rfl rfl hproxy (hw.helpers ▸ hapart.1)
  have hdone := (Sights.of_done P.constructor k (es' v.state.bridge.helpers.afterConstruct [] v) none
    (v.countCall v.state.bridge.helpers.afterConstruct) s).enter rfl rfl hproxy (hv.helpers ▸ hapart.2)
  have hmeanwhile := hseen.construct ⟨_, .refl⟩ rfl rfl hproxy hctor hnew
  have hall := hconnect.append (hmeanwhile.append hdone fun _ _ ha => (List.not_mem_nil ha).elim)
    fun _ ha => (List.not_mem_nil ha).elim
  rw [List.append_nil, List.nil_append] at hall
  exact hall.congr fun y => (Spot.called_cons hfirst).trans <| or_congr_right <|
    (Spot.called_cons hsecond).trans <| or_congr_right <|
      (Spot.called_cons hthird).trans (or_iff_left Spot.called_nil)

/-- A new proxy is constructed, and objects of the plan are given theirs meanwhile. -/
theorem World.Prepared.construct (es : List (Enclosing σ)) (hanswers : P.Answers σ k)
    (hw : w.Prepared P) (hk : w.Affords P k) {c : Address} {b : ProxyBinding}
    {body : Invocation → Program σ} (hhost : host ∈ P.hosts)
    (hc : w.state.host.classOf host = .ok c) (hctor : P.constructor host = some b.method)
    (hfind : w.state.findProxy host = some p) (hnull : w.state.heap.nativeOf p = some .null)
    (hbody : w.bodies[b.method]? = some body)
    (hrequests : ∀ args, args.length = (if b.takesNative then 1 else 0) →
      (body ⟨some p, args⟩).Requests ⟨some p, args⟩ host (P.wants host))
    (hwants : ∀ y ∈ P.wants host, y ∈ P.hosts ∨ w.state.findProxy y ≠ none) (x : World σ) :
    ∃ calls made v, (Identity.construct b p host : Act σ Unit).Proceeds (callAt (k + 1)) w calls () v ∧
      w.bodies <+: v.bodies ∧
      w.state.Equips made (P.calls host ++ made.flatMap P.calls) made.length v.state ∧
      (∀ a ∈ made, a ∈ P.hosts) ∧
      (∀ a ∈ host :: made, ∀ y ∈ P.wants a, v.state.findProxy y ≠ none) ∧
      Sights P.constructor es (Spot.Called (.proxy host) x k es calls) (host :: made) v.state := by
  have hobject := Host.isObject_of_classOf hc
  -- The proxy is told what it stands for, its constructor is run, and it is done with.
  obtain ⟨u', hbefore, hbodies, hu, hnative⟩ := hw.before hobject hnull k
  let u := u'.withState (u'.state.discard w.state.memory.next)
  have hub : w.bodies <+: u.bodies := hbodies ▸ List.prefix_refl _
  let args : List Address := if b.takesNative then [.ofCell u.state.memory.next] else []
  have hargs : args.length = (if b.takesNative then 1 else 0) ∧
      ∀ a ∈ args, a = .ofCell u.state.memory.next := by
    unfold args
    split
    · exact ⟨rfl, fun _ => List.mem_singleton.1⟩
    · exact ⟨rfl, fun _ ha => (List.not_mem_nil ha).elim⟩
  obtain ⟨a, made, v', hduring, hvb, hv, hfound, htour⟩ :=
    World.Prepared.during (⟨.proxy host, x, k + 1, b.method, ⟨some p, args⟩,
        u.lend (.plain host.octets)⟩ :: es) hanswers (hw.equips hub hu)
      (hk.equips hu (fun _ ha => (List.not_mem_nil ha).elim) (Nat.le_refl _))
      hobject (hu.stays hfind) hnative (getElem?_of_extends hub hbody) hargs.2
      (hrequests args hargs.1) fun y hy => (hwants y hy).imp_right fun hne hn => hne (hu.lacked hn)
  let v := v'.withState (v'.state.discard u.state.memory.next)
  have hvp : v.Prepared P := (hw.equips hub hu).equips hvb hv
  let z := v.countCall P.helpers.afterConstruct
  have hz : v.state.Equips [] [P.helpers.afterConstruct] 0 z.state := .countCall hv.sound _
  have hall := hu.trans (hv.trans hz)
  have hproxy : z.state.findProxy host = some p := hall.stays hfind
  refine ⟨_, made, z, Identity.construct_proceeds hbefore rfl hduring rfl (hvp.done k p),
    hub.trans hvb, ?_, htour.planned, ?_, ?_⟩
  · rw [List.append_nil, Nat.add_zero, Nat.zero_add] at hall
    refine hall.congr ?_
    unfold Plan.calls
    rw [hctor]
    exact .cons _ (.cons _ List.perm_append_comm)
  · intro a ha y hy hn
    have hn : v'.state.findProxy y = none := hz.lacked hn
    obtain rfl | ha := List.mem_cons.1 ha
    · exact hfound y hy hn
    · exact htour.closed a ha y hy hn
  · have hseen := htour.sights.mono fun _ _ hq => hz.stays hq
    refine .of_constructing hw hvp hhost (getElem?_of_extends hub hbody) hctor hproxy rfl hseen ?_
    intro hmem
    cases (hu.stays hfind).symm.trans (hv.fresh host hmem)

/-- An object without a proxy is given one. -/
theorem World.Prepared.make (hanswers : P.Answers σ k) (hw : w.Prepared P)
    (hk : w.Affords P (k + 1)) (hhost : host ∈ P.hosts) (hn : w.state.findProxy host = none)
    (next : Except BridgeError Address → Program σ) : ∃ made q v,
      (Request.proxy host).perform (callAt (k + 1)) w = .ok (.ok q) v ∧
        v.state.findProxy host = some q ∧
        Tour P es (Spot.Within ⟨k + 1, es, .ask (.proxy host) next, w⟩) made w v := by
  have hlacking : host ∈ P.lacking w.state := Finset.mem_filter.2 ⟨hhost, hn⟩
  obtain ⟨_, hctor, c, b, body, hc, hb, rfl, hbody, hrequests⟩ := hw.constructs host hlacking
  obtain ⟨p, x, hbodies, hx, hfind, hnull, hproceed⟩ :=
    Identity.proxyFor_of_fresh hw.sound hn hc hb (hw.bindings c)
  have hbx : w.bodies <+: x.bodies := hbodies ▸ List.prefix_refl _
  -- While the constructor runs one object fewer lacks its proxy, and calls may nest one fewer deep.
  have hfewer := hx.lacking (P := P) fun a ha => List.mem_singleton.1 ha ▸ hhost
  have hcounter : x.counter Counter.proxiesCreated = w.counter Counter.proxiesCreated + 0 :=
    hx.counter
  have hlength : [host].length = 1 := rfl
  obtain ⟨hdepth, hroom⟩ := hk
  have hkx : x.Affords P k := by constructor <;> omega
  obtain ⟨calls, made, v, hconstruct, hbv, hv, hplanned, hclosed, hsights⟩ :=
    (hw.equips hbx hx).construct es hanswers hkx hhost (hx.classes host c hc) hctor hfind
      hnull (getElem?_of_extends hbx hbody) (hrequests p)
      (fun y hy => (hw.closed host hlacking y hy).imp_right fun hne hn => hne (hx.lacked hn)) w
  have hmade := hv.lacking hplanned
  have hcounted : v.counter Counter.proxiesCreated = x.counter Counter.proxiesCreated + made.length :=
    hv.counter
  obtain ⟨v', hperform, hbodies', hv'⟩ := hproceed _ calls v hconstruct hv.sound (by omega)
  have hall := hv.trans hv'
  have hequips := hx.trans hall
  rw [List.append_nil, List.append_nil, Nat.zero_add] at hequips
  refine ⟨host :: made, p, v', hperform.attempt.answers, hall.stays hfind, {
    bodies := hbx.trans (hbodies' ▸ hbv)
    equips := hequips
    planned := List.forall_mem_cons.2 ⟨hhost, hplanned⟩
    closed := fun a ha y hy hn => hclosed a ha y hy (hv'.lacked hn)
    sights := (hsights.mono fun _ _ hq => hv'.stays hq).congr fun _ =>
      Spot.within_iff hperform.attempt }⟩

end Calls

/-- Every request for the proxy of an object of the plan is answered, if calls may nest so deep. -/
theorem Plan.answers (P : Plan) : ∀ n, P.Answers σ n
  | n, w, y, es, next, hw, hn, hy => by
    -- The recursion is on how deep calls may nest. An object that lacks its proxy leaves room for one
    -- more call, and while its constructor runs it is no longer among those that do.
    cases hfind : w.state.findProxy y with
    | some q =>
      have hperform (call : Invoker σ) : (Request.proxy y).perform call w = .ok (.ok q) w :=
        Act.attempt_of_ok (Identity.proxyFor_of_found hfind call)
      refine ⟨[], q, w, hperform _, hfind, ?_⟩
      exact (Tour.of_equips (List.prefix_refl _) (.refl hw.sound)).congr fun z =>
        iff_false_intro (Spot.not_within (.of_const hperform))
    | none =>
      have hhost := hy.resolve_right (absurd hfind ·)
      have hlacking : y ∈ P.lacking w.state := Finset.mem_filter.2 ⟨hhost, hfind⟩
      have hpos := Finset.card_pos.2 ⟨y, hlacking⟩
      obtain ⟨k, rfl⟩ : ∃ k, n = k + 1 := ⟨n - 1, by have := hn.1; omega⟩
      exact hw.make (P.answers k) hn hhost hfind next

end Runs

end TwinHeap
