import TwinHeap.Proofs.Sights
import TwinHeap.Proofs.Stability

/-!
# Sparing — actions during which an entry is left alone

`Act.Reaches` are the spots that an action comes to in the methods that it calls. Where nothing is
asked for at any of them that removes the entry of a host object or loosens its hold (`Act.Spares`), an
entry that is firm where a method is called is firm when it has answered, whatever else was done in it,
and so are the entries at all the spots in between. `Act.Spares.law` says the same of the operations
of the bridge that are part of the action.
-/

namespace TwinHeap

variable {σ α : Type}

/-- The action comes to the spot in a method that it calls, with calls nested at most `n` deep. What is
performed around the action itself is not counted among what is performed around the spot. -/
def Act.Reaches (act : Act σ α) (n : Nat) (w : World σ) (y : Spot σ) : Prop :=
  ∃ k m inv v body, n = k + 1 ∧ act.Makes (callAt n) w m inv v ∧ v.bodies[m]? = some body ∧
    Spot.Leads ⟨k, [], body inv, v.countCall m⟩ y

namespace Act.Reaches

variable {act : Act σ α} {n : Nat} {w : World σ} {x y : Spot σ}

theorem step (h : act.Reaches n w x) (hs : x.Step y) : act.Reaches n w y := by
  obtain ⟨k, m, inv, v, body, hn, hm, hb, hx⟩ := h
  exact ⟨k, m, inv, v, body, hn, hm, hb, hx.tail hs⟩

/-- What holds where a method that the action calls begins, and is kept by each step from there on,
holds at all such spots. -/
theorem run {P : Spot σ → Prop} (h : act.Reaches n w y)
    (hbegin : ∀ k m inv v body, act.Makes (callAt n) w m inv v → v.bodies[m]? = some body →
      P ⟨k, [], body inv, v.countCall m⟩)
    (hstep : ∀ x z, act.Reaches n w x → x.Step z → P x → P z) : P y := by
  obtain ⟨k, m, inv, v, body, hn, hm, hb, hy⟩ := h
  induction hy with
  | refl => exact hbegin k m inv v body hm hb
  | @tail x z hx hs ih => exact hstep x z ⟨k, m, inv, v, body, hn, hm, hb, hx⟩ hs ih

/-- The requests that are performed around such a spot were made at such spots. -/
theorem asked (h : act.Reaches n w y) : ∀ e ∈ y.around,
    ∃ es next, act.Reaches n w ⟨e.depth, es, .ask e.request next, e.asked⟩ := by
  apply h.run
  · exact fun _ _ _ _ _ _ _ e he => absurd he List.not_mem_nil
  · intro x z hx hs ih
    cases hs with
    | entered =>
      -- The request in which a method is entered is asked for where the step begins.
      intro e he
      cases he with
      | head => exact ⟨_, _, hx⟩
      | tail _ he => exact ih e he
    | _ => exact ih

/-- A method that the action calls ends as its body does. -/
theorem ends_call {m : Nat} {inv : Invocation} {v : World σ} {Q : World σ → Prop}
    (hm : act.Makes (callAt n) w m inv v) (hv : Q v)
    (hbody : ∀ y : Spot σ, act.Reaches n w y → y.world = v.countCall m → y.RunEnds Q) :
    Ends (callAt n m inv v) (fun _ u => Q u) fun f u => f ≠ .exhausted → Q u := by
  refine ends_callAt hv fun k body hk hb => ?_
  subst hk
  exact hbody ⟨k, [], body inv, v.countCall m⟩ ⟨k, m, inv, v, body, rfl, hm, hb, .refl⟩ rfl

/-- An action comes to the same spots as one whose calls it makes. -/
theorem of_makes {β : Type} {act' : Act σ β} {v : World σ}
    (h : ∀ m inv u, act'.Makes (callAt n) v m inv u → act.Makes (callAt n) w m inv u)
    (hy : act'.Reaches n v y) : act.Reaches n w y := by
  obtain ⟨k, m, inv, u, body, hn, hm, hb, hleads⟩ := hy
  exact ⟨k, m, inv, u, body, hn, h m inv u hm, hb, hleads⟩

end Act.Reaches

/-! ## Properties of all spots that are reached -/

/-- It holds at all spots that the action comes to, and where the action ends. -/
def Act.Throughout (act : Act σ α) (n : Nat) (w : World σ) (P : World σ → Prop) : Prop :=
  (∀ y, act.Reaches n w y → P y.world) ∧
    Ends (act (callAt n) w) (fun _ v => P v) fun f v => f ≠ .exhausted → P v

namespace Act.Throughout

variable {act : Act σ α} {n : Nat} {w : World σ} {P Q : World σ → Prop}

theorem and (h : act.Throughout n w P) (h' : act.Throughout n w Q) :
    act.Throughout n w fun v => P v ∧ Q v := by
  constructor
  · exact fun y hy => ⟨h.1 y hy, h'.1 y hy⟩
  · exact (h.2.and h'.2).mono (fun _ _ hv => hv) fun _ _ hv hf => ⟨hv.1 hf, hv.2 hf⟩

theorem mono (h : act.Throughout n w P) (hPQ : ∀ v, P v → Q v) : act.Throughout n w Q := by
  constructor
  · exact fun y hy => hPQ _ (h.1 y hy)
  · exact h.2.mono (fun _ v hv => hPQ v hv) fun _ v hv hf => hPQ v (hv hf)

end Act.Throughout

namespace Spot.Upholds

variable {act : Act σ α} {n : Nat} {w : World σ} {holds : List Owed → World σ → Prop} {o : List Owed}

/-- What the bridge and foreign code keep at the spots that an action comes to, its calls keep. -/
theorem ends_call (S : Spot.Upholds (act.Reaches n w) holds) {m : Nat} {inv : Invocation}
    {v : World σ} (hm : act.Makes (callAt n) w m inv v) (hv : holds o v) :
    Ends (callAt n m inv v) (fun _ u => holds o u) fun f u => f ≠ .exhausted → holds o u := by
  apply Act.Reaches.ends_call hm hv
  intro y hy hworld
  apply S.run hy
  rw [hworld]
  exact S.counted m hv

/-- And so does the bridge as part of the action. -/
def law (S : Spot.Upholds (act.Reaches n w) holds) : Law σ :=
  upheldLaw S (.of (callAt n) act w) fun hv hcomes => S.ends_call hcomes.makes hv

/-- At a spot that the action comes to it holds, if it does where methods are called. -/
theorem reached (S : Spot.Upholds (act.Reaches n w) holds)
    (hcalls : ∀ m inv v, act.Makes (callAt n) w m inv v → ∃ o, holds o v) {y : Spot σ}
    (hy : act.Reaches n w y) : ∃ o, holds o y.world := by
  apply hy.run
  · intro k m inv v body hm _
    obtain ⟨o, hv⟩ := hcalls m inv v hm
    exact ⟨o, S.counted m hv⟩
  · exact fun _ _ hx hs ih => S.stepped hs hx ih

/-- It holds throughout an action that obeys it. -/
theorem throughout {sit : Situation} (S : Spot.Upholds (act.Reaches n w) holds)
    (hobeys : act.Obeys S.law sit o w) (hw : holds o w) :
    act.Throughout n w fun v => ∃ o, holds o v := by
  have hmeets := hobeys List.nil_suffix trivial .here hw
  constructor
  · intro y hy
    apply S.reached _ hy
    intro m inv v hm
    obtain ⟨t, _, _, -, -, hv, -⟩ := hmeets.only.of_makes hm
    exact ⟨_, hv⟩
  · exact hmeets.ends.mono (fun _ _ h => ⟨o, h.1⟩) fun _ _ h hf => ⟨o, (h hf).1⟩

end Spot.Upholds

/-! ## Entries that are left alone -/

/-- Nothing is asked for in the methods that the action calls that removes the entry of `host`, or that
loosens its hold. -/
structure Act.Spares (act : Act σ α) (n : Nat) (w : World σ) (host : Address) : Prop where
  asks : ∀ {d es r next v}, act.Reaches n w ⟨d, es, .ask r next, v⟩ →
    host ∉ r.severed v.state ∧ r ≠ .setRooted host false

/-- The handles are accounted for, and the entry of `host` is firm. -/
abbrev World.Kept (host proxy : Address) (o : List Owed) (w : World σ) : Prop :=
  w.Heeded (fun _ => True) host proxy o

theorem World.Kept.findProxy {host proxy : Address} {o : List Owed} {w : World σ}
    (h : w.Kept host proxy o) : w.state.findProxy host = some proxy :=
  (h.firm trivial).findProxy h.tallied.balanced

namespace Act.Spares

variable {act : Act σ α} {n : Nat} {w v : World σ} {host proxy : Address} {o : List Owed}

/-- The entry is heeded at all times. -/
theorem heeds (S : act.Spares n w host) (proxy : Address) :
    Heeds (act.Reaches n w) (fun _ => True) host proxy where
  step := Reaches.step
  begins _ hbefore _ := absurd trivial hbefore
  asks hx _ := S.asks hx
  returns := by
    intro x e es hx haround hmem
    obtain ⟨es', next, hasked⟩ := hx.asked e (haround ▸ List.mem_cons_self)
    exact absurd hmem (S.asks hasked).1

/-- A method that the action calls keeps a firm entry. -/
theorem ends_call (S : act.Spares n w host) {m : Nat} {inv : Invocation}
    (hm : act.Makes (callAt n) w m inv v) (hv : v.Kept host proxy o) :
    Ends (callAt n m inv v) (fun _ u => u.Kept host proxy o)
      fun f u => f ≠ .exhausted → u.Kept host proxy o := by
  apply Reaches.ends_call hm hv
  intro y hy hworld
  apply (S.heeds proxy).run hy
  rw [hworld]
  exact hv.countCall m

/-- At a spot that the action comes to the entry is firm, if it is where methods are called. -/
theorem kept (S : act.Spares n w host)
    (hcalls : ∀ m inv v, act.Makes (callAt n) w m inv v → ∃ o, v.Kept host proxy o) {y : Spot σ}
    (hy : act.Reaches n w y) : ∃ o, y.world.Kept host proxy o := by
  apply hy.run
  · intro k m inv v body hm _
    obtain ⟨o, hv⟩ := hcalls m inv v hm
    exact ⟨o, hv.countCall m⟩
  · exact fun _ _ hx hs ih => (S.heeds proxy).stepped hs hx ih

/-- What the bridge does as part of the action leaves the entry alone, too, if it makes no proxy for
`host` on top of what was owed before. -/
def law (S : act.Spares n w host) (proxy : Address) (base : List Owed) : Law σ :=
  heedLaw (fun _ => True) host proxy base (.of (callAt n) act w)
    fun hv hcomes => S.ends_call hcomes.makes hv

/-- The proxy of `host` is found; those of other objects may be made. -/
theorem makesProxies (S : act.Spares n w host) (proxy : Address) (base : List Owed) :
    (S.law proxy base).MakesProxies := by
  intro other r v
  by_cases hne : other = host
  · subst hne
    intro hb hready hrun ho
    exact Identity.proxyFor_obeys_of_found (World.Kept.findProxy ho.1) hb hready hrun ho
  · exact Identity.proxyFor_obeys hne

/-- The entry is firm throughout an action that obeys this. -/
theorem throughout {sit : Situation} (S : act.Spares n w host)
    (hobeys : act.Obeys (S.law proxy o) sit o w) (hw : w.Kept host proxy o) :
    act.Throughout n w fun v => ∃ o, v.Kept host proxy o := by
  have hmeets := hobeys List.suffix_rfl trivial .here ⟨hw, Nat.le_refl _⟩
  constructor
  · intro y hy
    apply S.kept _ hy
    intro m inv v hm
    obtain ⟨t, _, _, -, -, hv, -⟩ := hmeets.only.of_makes hm
    exact ⟨_, hv⟩
  · exact hmeets.ends.mono (fun _ _ h => ⟨o, h.1.1⟩) fun _ _ h hf => ⟨o, (h hf).1.1⟩

end Act.Spares

/-! ## Methods that are known -/

/-- The program defines no methods, and in each state asks only for what may be asked for there. -/
def Program.Asks (may : State → Request → Prop) : Program σ → State → Prop
  | .done _, _ => True
  | .throw _, _ => True
  | .panic _, _ => True
  | .observe next, _ => ∀ s memory, (next s memory).Asks may s
  | .remember _ next, s => next.Asks may s
  | .define _ _ _, _ => False
  | .ask r next, s => may s r ∧ ∀ reply s', (next reply).Asks may s'

section Known

variable {may : State → Request → Prop} {bodies : List (Invocation → Program σ)}

/-- Where all methods are such programs, no other methods come to be. -/
def knownRealm (h : ∀ body ∈ bodies, ∀ inv s, (body inv).Asks may s) : Realm σ where
  mayAsk _ := True
  tame p := ∃ s, p.Asks may s
  enters _ _ := True
  ready _ := True
  holds _ w := w.bodies = bodies
  ready_nil := trivial
  ready_cons _ _ := trivial
  hold _ := trivial
  observe h s memory := ⟨s, h.choose_spec s memory⟩
  remember h := h
  define h := h.choose_spec.elim
  ask h := ⟨trivial, fun reply => ⟨h.choose, h.choose_spec.2 reply _⟩⟩
  change h _ := h
  remembered _ h := h
  defined h := h.choose_spec.elim
  unknown h _ _ := h
  entered {_ _ _ w _ inv body} hw _ hb _ :=
    ⟨⟨w.state, h body (hw ▸ List.mem_of_getElem? hb) inv w.state⟩, trivial, hw, fun _ h => h⟩
  stock _ _ _ he := absurd trivial he

/-- The spots that an action comes to then are at such programs. -/
theorem Act.Reaches.asks (h : ∀ body ∈ bodies, ∀ inv s, (body inv).Asks may s) {act : Act σ α}
    {n : Nat} {w : World σ} (hcalls : ∀ m inv v, act.Makes (callAt n) w m inv v → v.bodies = bodies)
    {y : Spot σ} (hy : act.Reaches n w y) :
    y.program.Asks may y.world.state ∧ y.world.bodies = bodies := by
  have hrespected (n : Nat) : (knownRealm h).Respected n := (knownRealm h).respected n
  apply hy.run (P := fun y => y.program.Asks may y.world.state ∧ y.world.bodies = bodies)
  · intro k m inv v body hm hb
    have hv := hcalls m inv v hm
    exact ⟨h body (hv ▸ List.mem_of_getElem? hb) inv _, hv⟩
  · rintro x z - hs ⟨hasks, hbodies⟩
    cases hs with
    | observe => exact ⟨hasks _ _, hbodies⟩
    | remember => exact ⟨hasks, hbodies⟩
    | define => exact hasks.elim
    | @answered n _ r _ _ _ _ hr =>
      have hends := Realm.performed (hrespected n) (r := r) (o := []) trivial trivial hbodies
      exact ⟨hasks.2 _ _, (ends_iff.1 hends).1 _ _ hr⟩
    | entered hm hb =>
      -- Bodies that are there when a method is called are those that were there at the start.
      obtain ⟨_, _, _, -, -, hu, -⟩ := Realm.made (hrespected _) (o := []) trivial trivial hbodies hm
      exact ⟨h _ (hu ▸ List.mem_of_getElem? hb) _ _, hu⟩

theorem Request.reaches_asks (h : ∀ body ∈ bodies, ∀ inv s, (body inv).Asks may s) {r : Request}
    {n : Nat} {w : World σ} (hw : w.bodies = bodies) {y : Spot σ} (hy : r.perform.Reaches n w y) :
    y.program.Asks may y.world.state := by
  refine (hy.asks h fun m inv v hm => ?_).1
  obtain ⟨_, _, _, -, -, hv, -⟩ :=
    Realm.made ((knownRealm h).respected n) (o := []) trivial trivial hw hm
  exact hv

end Known

end TwinHeap
