import TwinHeap.Bridge.Library
import TwinHeap.Proofs.Passage

/-!
# Runs — programs, sessions and the states that foreign code sees

`Program.Visits` says in which worlds the code of a run is in control, and which requests are still
being performed around it. A `Realm` is a property of these worlds: it names the programs it is about
and what keeps the property, and it then holds at every point of every run of every session.
-/

namespace TwinHeap

variable {σ : Type}

namespace World

/-- The world with one more method. -/
def define (w : World σ) (info : MethodInfo) (body : Invocation → Program σ) : World σ :=
  { w with
    state := { w.state with
      foreign := { w.state.foreign with methods := w.state.foreign.methods ++ [info] } }
    bodies := w.bodies ++ [body] }

/-- The world with one more call of a method counted. -/
def countCall (w : World σ) (m : Nat) : World σ := { w with state := w.state.countCall m }

end World

/-! ## How programs run -/

section Equations

variable {call : Invoker σ} {w : World σ}

theorem run_done (a : Option Address) : (Program.done a).run call w = .ok (.ok a) w := rfl

theorem run_throw (x : ForeignException) : (Program.throw x).run call w = .ok (.error x) w := rfl

theorem run_panic (c : Panic) : (Program.panic c).run call w = .error (.panic c) w := rfl

theorem run_observe (next : State → σ → Program σ) :
    (Program.observe next).run call w = (next w.state w.memory).run call w := rfl

theorem run_remember (memory : σ) (next : Program σ) :
    (Program.remember memory next).run call w = next.run call { w with memory := memory } := rfl

theorem run_define (info : MethodInfo) (body : Invocation → Program σ) (next : Nat → Program σ) :
    (Program.define info body next).run call w =
      (next w.bodies.length).run call (w.define info body) := rfl

theorem run_ask (r : Request) (next : r.Reply → Program σ) :
    (Program.ask r next).run call w =
      match r.perform call w with
      | .ok reply v => (next reply).run call v
      | .error f v => .error f v := by
  show EStateM.bind (r.perform call) (fun reply => (next reply).run call) w = _
  unfold EStateM.bind
  cases r.perform call w <;> rfl

theorem callAt_zero (m : Nat) (inv : Invocation) : callAt 0 m inv w = .error .exhausted w := rfl

theorem callAt_succ (n m : Nat) (inv : Invocation) :
    callAt (n + 1) m inv w =
      match w.bodies[m]? with
      | none => .error (.panic (.unknownMethod m)) w
      | some body => (body inv).run (callAt n) (w.countCall m) := by
  show (match w.bodies[m]? with | none => _ | some body => _ :
    EStateM Failure (World σ) (Except ForeignException (Option Address))) w = _
  cases w.bodies[m]? <;> rfl

end Equations

/-- A call ends as its body does, which calls of one level less answer. -/
theorem ends_callAt {n m : Nat} {inv : Invocation} {w : World σ}
    {Q : Except ForeignException (Option Address) → World σ → Prop} {P : World σ → Prop} (hw : P w)
    (hbody : ∀ k body, n = k + 1 → w.bodies[m]? = some body →
      Ends ((body inv).run (callAt k) (w.countCall m)) Q fun f v => f ≠ .exhausted → P v) :
    Ends (callAt n m inv w) Q fun f v => f ≠ .exhausted → P v := by
  cases n with
  | zero =>
    rw [callAt_zero]
    exact fun hne => absurd rfl hne
  | succ k =>
    rw [callAt_succ]
    cases hb : w.bodies[m]? with
    | none => exact fun _ => hw
    | some body => exact hbody k body rfl hb

/-- A run of requests ends as each of them and what follows it end. -/
theorem ends_ask {call : Invoker σ} {w : World σ} {r : Request} {next : r.Reply → Program σ}
    {Q : Except ForeignException (Option Address) → World σ → Prop}
    {E : Failure → World σ → Prop}
    (h : Ends (r.perform call w) (fun reply v => Ends ((next reply).run call v) Q E) E) :
    Ends ((Program.ask r next).run call w) Q E := by
  rw [run_ask]
  cases hr : r.perform call w with
  | ok reply v => rw [hr] at h; exact h
  | error f v => rw [hr] at h; exact h

/-- The law that says nothing. -/
def Law.free (call : Invoker σ) (h : call.Grows) : Law σ where
  toTerms := .asking (fun _ => True) fun _ => True
  call := call
  course := .any call
  holds _ _ := True
  grows := h
  ready_cons _ _ := trivial
  fresh _ _ := trivial
  change _ _ := trivial
  called _ _ _ := ends_iff.2 ⟨fun _ _ _ => trivial, fun _ _ _ _ => trivial⟩

/-- A law that puts no terms on whom to make proxies of and whom to sever. -/
theorem Request.perform_obeys_of_asking {L : Law σ} {mayAsk : Request → Prop}
    {ready : List Owed → Prop} (hL : L.toTerms = .asking mayAsk ready)
    (hhold : ∀ a, mayAsk (.hold a .strong)) {r : Request} (hr : mayAsk r) (o : List Owed)
    (w : World σ) : (r.perform : Act σ _).Obeys L r.situation o w := by
  have hmake : L.mayMake = fun _ => True := congrArg Terms.mayMake hL
  have hsever : L.maySever = fun _ => True := congrArg Terms.maySever hL
  have hwrite : L.mayWrite = fun _ => True := congrArg Terms.mayWrite hL
  have hask : L.mayAsk = mayAsk := congrArg Terms.mayAsk hL
  exact Request.perform_obeys (Identity.makesProxies fun _ => hmake ▸ trivial)
    (fun _ _ => hwrite ▸ trivial) (fun a => hask ▸ hhold a) (hask ▸ hr)
    fun reason => Identity.sever_obeys reason fun _ _ => hsever ▸ trivial

/-- However often foreign code is entered, what the bridge has settled stays so. -/
theorem callAt_grows (n : Nat) : (callAt n : Invoker σ).Grows := by
  induction n with
  | zero =>
    intro m inv w
    rw [callAt_zero]
    exact fun h => absurd rfl h
  | succ n ih =>
    -- What a program has settled before it asks stays so in what follows.
    have hrun (p : Program σ) : ∀ w₀ w : World σ, w₀.state.Grows w.state →
        Ends (p.run (callAt n) w) (fun _ v => w₀.state.Grows v.state)
          fun f v => f ≠ .exhausted → w₀.state.Grows v.state := by
      induction p with
      | done a => exact fun w₀ w hg => hg
      | throw x => exact fun w₀ w hg => hg
      | panic c => exact fun w₀ w hg _ => hg
      | observe next ih => exact fun w₀ w hg => ih w.state w.memory w₀ w hg
      | remember memory next ih => exact fun w₀ w hg => ih w₀ { w with memory := memory } hg
      | define info body next _ ih =>
        intro w₀ w hg
        rw [run_define]
        exact ih _ w₀ _ (hg.trans (.of_bridge ⟨rfl, rfl, rfl, rfl, rfl, rfl⟩ (Nat.le_refl _)))
      | ask r next ih =>
        intro w₀ w hg
        have hr := Request.perform_obeys_of_asking (L := .free _ ‹_›) rfl (fun _ => trivial)
          (r := r) trivial [] w List.nil_suffix trivial trivial trivial
        refine ends_ask (ends_iff.2 ⟨?_, ?_⟩)
        · exact fun reply v hv => ih reply w₀ v (hg.trans (hr.ok reply v hv).2.1)
        · exact fun f v hv hf => hg.trans (hr.err f v hv hf).2
    intro m inv w
    rw [callAt_succ]
    cases hb : w.bodies[m]? with
    | none => exact fun _ => .refl _
    | some body =>
      exact hrun _ w _ (.of_bridge ⟨rfl, rfl, rfl, rfl, rfl, rfl⟩ (Nat.le_refl _))

/-! ## How deep calls may nest -/

theorem Request.perform_strict (r : Request) (n : Nat) (w : World σ) :
    r.perform.Strict (callAt n) w :=
  (Request.perform_obeys_of_asking (L := .free _ (callAt_grows n)) rfl (fun _ => trivial) (r := r)
    trivial [] w List.nil_suffix trivial trivial trivial).strict

/-- The law that says nothing of what an action runs. -/
def Law.along {α : Type} (act : Act σ α) (n : Nat) (w : World σ) : Law σ :=
  { Law.free (callAt n) (callAt_grows n) with
    course := .of (callAt n) act w
    called := fun _ _ _ => ends_iff.2 ⟨fun _ _ _ => trivial, fun _ _ _ _ => trivial⟩ }

/-- What becomes of a request depends on the calls only that it comes to. -/
theorem Request.only_comes (r : Request) (n : Nat) (w : World σ) :
    r.perform.OnlyCalls (callAt n) w fun m inv v =>
      Act.Comes (callAt n) r.perform w (Act.callMethod m inv.receiver inv.args) v := by
  have hobeys : (r.perform : Act σ _).Obeys (.along r.perform n w) r.situation [] w :=
    Request.perform_obeys_of_asking rfl (fun _ => trivial) trivial [] w
  refine (hobeys List.nil_suffix trivial .here trivial).only.mono ?_
  rintro m inv v ⟨-, -, -, -, -, -, -, hcomes, -⟩
  exact hcomes

theorem Program.run_strict (p : Program σ) (n : Nat) (w : World σ) : p.run.Strict (callAt n) w := by
  induction p generalizing w with
  | observe next ih => exact fun f call' hf hc => ih _ _ w f call' hf hc
  | remember memory next ih => exact fun f call' hf hc => ih { w with memory := memory } f call' hf hc
  | define info body next _ ih => exact fun f call' hf hc => ih _ (w.define info body) f call' hf hc
  | ask r next ih => exact .bind (r.perform_strict n w) fun reply v _ => ih reply v
  | _ => exact .of_const fun _ => rfl

/-- Calls that may nest deeper answer alike, except where they nested too deep. -/
theorem callAt_until {n n' : Nat} (h : n ≤ n') :
    (callAt n : Invoker σ).Until .exhausted (callAt n') := by
  induction n generalizing n' with
  | zero => exact fun m inv v => .inr ⟨v, rfl⟩
  | succ n ih =>
    obtain ⟨k, rfl⟩ : ∃ k, n' = k + 1 := ⟨n' - 1, by omega⟩
    intro m inv v
    rw [callAt_succ, callAt_succ]
    cases hb : v.bodies[m]? with
    | none => exact .inl rfl
    | some body =>
      exact (body inv).run_strict k (v.countCall m) _ _ Failure.isFatal_exhausted (ih (by omega))

/-- Apart from giving up, the depth of a run cannot be observed. -/
theorem Program.run_of_le {p : Program σ} {n n' : Nat} (h : n ≤ n') {w v : World σ}
    {a : Except ForeignException (Option Address)} (hr : p.run (callAt n) w = .ok a v) :
    p.run (callAt n') w = .ok a v :=
  (p.run_strict n' w).ok Failure.isFatal_exhausted (callAt_until h) hr

/-! ## Where foreign code is in control -/

/-- A run of `p` from `w` comes to a point where foreign code is in control of the world `v`, or the
host is; `rs` are the requests that are being performed there, the innermost first. Of the methods
that are called on the way only those in `enters` are looked into. -/
inductive Program.Visits (enters : World σ → Nat → Prop) :
    Nat → Program σ → World σ → List Request → World σ → Prop
  | here {n : Nat} {p : Program σ} {w : World σ} : Visits enters n p w [] w
  | observe {n : Nat} {next : State → σ → Program σ} {w v : World σ} {rs : List Request}
      (h : Visits enters n (next w.state w.memory) w rs v) : Visits enters n (.observe next) w rs v
  | remember {n : Nat} {memory : σ} {next : Program σ} {w v : World σ} {rs : List Request}
      (h : Visits enters n next { w with memory := memory } rs v) :
      Visits enters n (.remember memory next) w rs v
  | define {n : Nat} {info : MethodInfo} {body : Invocation → Program σ}
      {next : Nat → Program σ} {w v : World σ} {rs : List Request}
      (h : Visits enters n (next w.bodies.length) (w.define info body) rs v) :
      Visits enters n (.define info body next) w rs v
  | after {n : Nat} {r : Request} {next : r.Reply → Program σ} {reply : r.Reply}
      {w u v : World σ} {rs : List Request} (hr : r.perform (callAt n) w = .ok reply u)
      (h : Visits enters n (next reply) u rs v) : Visits enters n (.ask r next) w rs v
  | within {n : Nat} {r : Request} {next : r.Reply → Program σ} {w u v : World σ} {m : Nat}
      {inv : Invocation} {body : Invocation → Program σ} {rs : List Request}
      (hm : r.perform.Makes (callAt (n + 1)) w m inv u) (hb : u.bodies[m]? = some body)
      (he : enters u m) (h : Visits enters n (body inv) (u.countCall m) rs v) :
      Visits enters (n + 1) (.ask r next) w (rs ++ [r]) v

/-- The worlds that a session comes to: the host runs one program after the other, and goes on also
after one that was abandoned. -/
inductive Session (tame : Program σ → Prop) (start : World σ) : World σ → Prop
  | start : Session tame start start
  | ended {w v : World σ} {p : Program σ} {n : Nat} {a : Except ForeignException (Option Address)}
      (h : Session tame start w) (hp : tame p) (hr : p.run (callAt n) w = .ok a v) :
      Session tame start v
  | abandoned {w v : World σ} {p : Program σ} {n : Nat} {f : Failure}
      (h : Session tame start w) (hp : tame p) (hr : p.run (callAt n) w = .error f v)
      (hf : f ≠ .exhausted) : Session tame start v

/-- A session comes to a point where the host or foreign code is in control of the world, while the
requests `rs` are being performed. -/
def Session.Sees (enters : World σ → Nat → Prop) (tame : Program σ → Prop) (start : World σ)
    (rs : List Request) (v : World σ) : Prop :=
  ∃ w p n, Session tame start w ∧ tame p ∧ Program.Visits enters n p w rs v

/-! ## Realms -/

/-- A property of what is owed and of the world, the programs that it is about, and all that keeps
it: the changes of the bridge, the steps of programs, and the methods that are called. Methods in
`enters` have bodies of these programs; of the others only the outcome is known. -/
structure Realm (σ : Type) where
  mayAsk : Request → Prop
  tame : Program σ → Prop
  enters : World σ → Nat → Prop
  /-- Where these programs run. -/
  ready : List Owed → Prop
  holds : List Owed → World σ → Prop
  ready_nil : ready []
  ready_cons : ∀ {d : Owed} {o : List Owed}, d.isMaking = false → ready o → ready (d :: o)
  hold : ∀ a, mayAsk (.hold a .strong)
  observe : ∀ {next}, tame (.observe next) → ∀ s memory, tame (next s memory)
  remember : ∀ {memory next}, tame (.remember memory next) → tame next
  define : ∀ {info body next}, tame (.define info body next) → ∀ i, tame (next i)
  ask : ∀ {r next}, tame (.ask r next) → mayAsk r ∧ ∀ reply, tame (next reply)
  change : ∀ {o o' : List Owed} {w : World σ} {s' : State}, holds o w →
    Change (.asking mayAsk ready) o w.state o' s' → holds o' { w with state := s' }
  remembered : ∀ {o w} memory, holds o w → holds o { w with memory := memory }
  defined : ∀ {o w info body next}, tame (.define info body next) → holds o w →
    holds o (w.define info body)
  unknown : ∀ {o o' b : List Owed} {w : World σ} {m : Nat} {inv : Invocation}, holds o w →
    Reason (.asking mayAsk ready) o w.state m inv o' b → w.bodies[m]? = none → holds b w
  entered : ∀ {o o' b : List Owed} {w : World σ} {m : Nat} {inv : Invocation}
    {body : Invocation → Program σ}, holds o w → Reason (.asking mayAsk ready) o w.state m inv o' b →
    w.bodies[m]? = some body → enters w m →
    tame (body inv) ∧ ready o' ∧ holds o' (w.countCall m) ∧ ∀ v, holds o' v → holds b v
  stock : ∀ {o o' b : List Owed} {w : World σ} {m : Nat} {inv : Invocation}
    {body : Invocation → Program σ}, holds o w → Reason (.asking mayAsk ready) o w.state m inv o' b →
    w.bodies[m]? = some body → ¬ enters w m → ∀ n,
    Ends ((body inv).run (callAt n) (w.countCall m)) (fun a v => holds (Owed.after a o' b) v)
      fun f v => f ≠ .exhausted → holds b v

namespace Realm

/-- A property that every program keeps, whatever phase the operations around it are in. -/
def everywhere (holds : List Owed → World σ → Prop)
    (congr : ∀ {o o' : List Owed} {w : World σ}, o'.map Owed.core = o.map Owed.core →
      holds o w → holds o' w)
    (remembered : ∀ {o w} memory, holds o w → holds o { w with memory := memory })
    (defined : ∀ {o w} info body, holds o w → holds o (w.define info body))
    (counted : ∀ {o w} m, holds o w → holds o (w.countCall m))
    (change : ∀ {o o' : List Owed} {w : World σ} {s' : State}, holds o w →
      Change (.asking (fun _ => True) fun _ => True) o w.state o' s' →
      holds o' { w with state := s' }) : Realm σ where
  mayAsk _ := True
  tame _ := True
  enters _ _ := True
  ready _ := True
  holds := holds
  ready_nil := trivial
  ready_cons _ _ := trivial
  hold _ := trivial
  observe _ _ _ := trivial
  remember _ := trivial
  define _ _ := trivial
  ask _ := ⟨trivial, fun _ => trivial⟩
  change := change
  remembered := remembered
  defined _ ho := defined _ _ ho
  unknown ho hr _ := congr hr.core.2 ho
  entered ho hr _ _ := ⟨trivial, trivial, counted _ (congr hr.core.1 ho),
    fun _ hv => congr (hr.core.2.trans hr.core.1.symm) hv⟩
  stock _ _ _ he := absurd trivial he

/-- What the bridge is free to do in the realm. -/
abbrev terms (R : Realm σ) : Terms := .asking R.mayAsk R.ready

/-- Calls that nest at most so deep keep the property. -/
def Respected (R : Realm σ) (n : Nat) : Prop :=
  ∀ {o o' b : List Owed} {w : World σ} {m : Nat} {inv : Invocation}, R.holds o w →
    Reason R.terms o w.state m inv o' b →
    Ends (callAt n m inv w) (fun a v => R.holds (Owed.after a o' b) v)
      fun f v => f ≠ .exhausted → R.holds b v

/-- The law of a realm for calls that nest at most so deep. -/
def law (R : Realm σ) {n : Nat} (h : R.Respected n) : Law σ where
  toTerms := R.terms
  call := callAt n
  course := .any _
  holds := R.holds
  grows := callAt_grows n
  ready_cons := R.ready_cons
  fresh _ _ := trivial
  change := R.change
  called ho hr _ := h ho hr

variable {R : Realm σ}

/-- A request keeps the property, however it ends. -/
theorem performed {n : Nat} (h : R.Respected n) {r : Request} (hr : R.mayAsk r) {o : List Owed}
    {w : World σ} (hready : R.ready o) (ho : R.holds o w) :
    Ends (r.perform (callAt n) w) (fun _ v => R.holds o v)
      fun f v => f ≠ .exhausted → R.holds o v := by
  have hobeys := Request.perform_obeys_of_asking (L := R.law h) rfl R.hold hr o w List.nil_suffix
    hready trivial ho
  rw [ends_iff]
  exact ⟨fun a v hv => (hobeys.ok a v hv).1, fun f v hv hf => (hobeys.err f v hv hf).1⟩

/-- Where a request calls foreign code the property holds. -/
theorem made {n : Nat} (h : R.Respected n) {r : Request} (hr : R.mayAsk r) {o : List Owed}
    {w v : World σ} {m : Nat} {inv : Invocation} (hready : R.ready o) (ho : R.holds o w)
    (hm : r.perform.Makes (callAt n) w m inv v) :
    ∃ t o' b, r.situation.Fits t ∧ Owed.Settled t v.state m ∧ R.holds (t ++ o) v ∧
      Reason R.terms (t ++ o) v.state m inv o' b := by
  have hobeys := Request.perform_obeys_of_asking (L := R.law h) rfl R.hold hr o w List.nil_suffix
    hready trivial ho
  obtain ⟨t, o', b, hfit, hs, hv, -, -, hreason⟩ := hobeys.only.of_makes hm
  exact ⟨t, o', b, hfit, hs, hv, hreason⟩

theorem run_of_respected {n : Nat} (h : R.Respected n) {p : Program σ} (hp : R.tame p)
    {o : List Owed} {w : World σ} (hready : R.ready o) (ho : R.holds o w) :
    Ends (p.run (callAt n) w) (fun _ v => R.holds o v)
      fun f v => f ≠ .exhausted → R.holds o v := by
  induction p generalizing w with
  | done a => exact ho
  | throw x => exact ho
  | panic c => exact fun _ => ho
  | observe next ih => exact ih _ _ (R.observe hp _ _) ho
  | remember memory next ih => exact ih (R.remember hp) (R.remembered memory ho)
  | define info body next _ ih =>
    rw [run_define]
    exact ih _ (R.define hp _) (R.defined hp ho)
  | ask r next ih =>
    obtain ⟨hr, hnext⟩ := R.ask hp
    obtain ⟨hok, herr⟩ := ends_iff.1 (performed h hr hready ho)
    exact ends_ask (ends_iff.2 ⟨fun reply v hv => ih reply (hnext reply) (hok reply v hv), herr⟩)

theorem respected (R : Realm σ) (n : Nat) : R.Respected n := by
  induction n with
  | zero =>
    intro o o' b w m inv _ _
    rw [callAt_zero]
    exact fun h => absurd rfl h
  | succ n ih =>
    intro o o' b w m inv ho hr
    rw [callAt_succ]
    cases hb : w.bodies[m]? with
    | none => exact fun _ => R.unknown ho hr hb
    | some body =>
      by_cases he : R.enters w m
      · obtain ⟨htame, hready, ho', hbroken⟩ := R.entered ho hr hb he
        have hrun := run_of_respected ih htame hready ho'
        rw [ends_iff] at hrun ⊢
        refine ⟨?_, fun f v hf hne => hbroken v (hrun.2 f v hf hne)⟩
        rintro (x | a) v hv
        · exact hbroken v (hrun.1 _ v hv)
        · exact hrun.1 _ v hv
      · exact R.stock ho hr hb he n

/-- A call that may be asked for keeps the property, too. -/
theorem called (R : Realm σ) {n m : Nat} {inv : Invocation} {o : List Owed} {w : World σ}
    (hm : R.mayAsk (.call m inv.receiver inv.args)) (hready : R.ready o) (ho : R.holds o w) :
    Ends (callAt n m inv w) (fun _ v => R.holds o v) fun f v => f ≠ .exhausted → R.holds o v := by
  apply (R.respected n ho (.direct hready hm)).mono
  · intro a v hv
    rwa [Owed.after_self] at hv
  · exact fun _ _ hv => hv

/-- A tame program keeps the property, however deep its calls nest and however it ends. -/
theorem run {n : Nat} {p : Program σ} (hp : R.tame p) {o : List Owed} {w : World σ}
    (hready : R.ready o) (ho : R.holds o w) :
    Ends (p.run (callAt n) w) (fun _ v => R.holds o v) fun f v => f ≠ .exhausted → R.holds o v :=
  run_of_respected (R.respected n) hp hready ho

theorem session {start w : World σ} (hs : R.holds [] start) (h : Session R.tame start w) :
    R.holds [] w := by
  induction h with
  | start => exact hs
  | ended _ hp hr ih => exact (ends_iff.1 (run hp R.ready_nil ih)).1 _ _ hr
  | abandoned _ hp hr hf ih => exact (ends_iff.1 (run hp R.ready_nil ih)).2 _ _ hr hf

/-- Wherever foreign code is in control the property holds, and for each removal and each redirected
call that is being performed around it one more is owed than before. -/
theorem visits {n : Nat} {p : Program σ} {w v : World σ} {rs : List Request}
    (h : p.Visits R.enters n w rs v) (hp : R.tame p) {o : List Owed} (hready : R.ready o)
    (ho : R.holds o w) :
    ∃ o', R.holds o' v ∧
      o'.countP Owed.isSevering =
        (rs.countP fun r => r.situation.isSevering) + o.countP Owed.isSevering ∧
      o'.countP Owed.isIdle = o.countP Owed.isIdle ∧
      o'.countP Owed.isFrame =
        (rs.countP fun r => r.situation.isRedirected) + o.countP Owed.isFrame := by
  induction h generalizing o with
  | here => exact ⟨o, ho, by simp, rfl, by simp⟩
  | observe _ ih => exact ih (R.observe hp _ _) hready ho
  | remember _ ih => exact ih (R.remember hp) hready (R.remembered _ ho)
  | define _ ih => exact ih (R.define hp _) hready (R.defined hp ho)
  | after hr _ ih =>
    obtain ⟨hask, hnext⟩ := R.ask hp
    exact ih (hnext _) hready ((ends_iff.1 (performed (R.respected _) hask hready ho)).1 _ _ hr)
  | @within n r next w u v m inv body rs hm hb he _ ih =>
    obtain ⟨hask, -⟩ := R.ask hp
    obtain ⟨t, o₁, b, hfit, -, hu, hreason⟩ := made (R.respected (n + 1)) hask hready ho hm
    obtain ⟨htame, hready₁, ho₁, -⟩ := R.entered hu hreason hb he
    obtain ⟨o', ho', hsev, hidle, hframe⟩ := ih htame hready₁ ho₁
    obtain ⟨hs, hi, hf⟩ := hreason.counts
    rw [List.countP_append] at hs hi hf
    have hone (b : Bool) : b.toNat = if b = true then 1 else 0 := by cases b <;> rfl
    refine ⟨o', ho', ?_, ?_, ?_⟩
    · rw [hsev, hs, hfit.1, List.countP_append, List.countP_singleton, hone, Nat.add_assoc]
    · rw [hidle, hi, hfit.2.1, Nat.zero_add]
    · rw [hframe, hf, hfit.2.2, List.countP_append, List.countP_singleton, hone, Nat.add_assoc]

/-- Where the code of connecting and disconnecting is not looked into, every proxy that has been made
and its host object know each other. -/
theorem visits_closed {n : Nat} {p : Program σ} {w v : World σ} {rs : List Request}
    (h : p.Visits R.enters n w rs v)
    (hstock : ∀ o u m, R.holds o u → R.enters u m →
      m ≠ u.state.bridge.helpers.disconnect ∧ m ≠ u.state.bridge.helpers.beforeConstruct)
    (hp : R.tame p) {o : List Owed} (hready : R.ready o) (ho : R.holds o w)
    (hopen : o.countP Owed.isOpen = 0) :
    ∃ o', R.holds o' v ∧ o'.countP Owed.isOpen = 0 := by
  induction h generalizing o with
  | here => exact ⟨o, ho, hopen⟩
  | observe _ ih => exact ih (R.observe hp _ _) hready ho hopen
  | remember _ ih => exact ih (R.remember hp) hready (R.remembered _ ho) hopen
  | define _ ih => exact ih (R.define hp _) hready (R.defined hp ho) hopen
  | after hr _ ih =>
    obtain ⟨hask, hnext⟩ := R.ask hp
    exact ih (hnext _) hready
      ((ends_iff.1 (performed (R.respected _) hask hready ho)).1 _ _ hr) hopen
  | @within n r next w u v m inv body rs hm hb he _ ih =>
    obtain ⟨hask, -⟩ := R.ask hp
    obtain ⟨t, o₁, b, -, hsettled, hu, hreason⟩ := made (R.respected (n + 1)) hask hready ho hm
    obtain ⟨htame, hready₁, ho₁, -⟩ := R.entered hu hreason hb he
    obtain ⟨hdisconnect, hconnect⟩ := hstock _ u m hu he
    refine ih htame hready₁ ho₁ ?_
    rw [hreason.countP_isOpen hdisconnect hconnect, List.countP_append, hopen]
    rcases hsettled with ht | ht | ht
    · exact ht
    · exact absurd ht hdisconnect
    · exact absurd ht hconnect

/-- `visits` for a session. -/
theorem sees {start v : World σ} {rs : List Request} (hs : R.holds [] start)
    (h : Session.Sees R.enters R.tame start rs v) :
    ∃ o, R.holds o v ∧
      o.countP Owed.isSevering = (rs.countP fun r => r.situation.isSevering) ∧
      o.countP Owed.isIdle = 0 ∧
      o.countP Owed.isFrame = rs.countP fun r => r.situation.isRedirected := by
  obtain ⟨w, p, n, hw, hp, hv⟩ := h
  exact visits hv hp R.ready_nil (session hs hw)

end Realm

/-! ## What stays -/

/-- Bodies that were there stay where they are, and what the bridge has settled stays so. -/
def lastingRealm (start : World σ) : Realm σ :=
  .everywhere (fun _ w => start.bodies <+: w.bodies ∧ start.state.Grows w.state) (fun _ h => h)
    (fun _ h => h)
    (fun _ _ h => ⟨h.1.trans (List.prefix_append _ _),
      h.2.trans (.of_bridge ⟨rfl, rfl, rfl, rfl, rfl, rfl⟩ (Nat.le_refl _))⟩)
    (fun _ h => ⟨h.1, h.2.trans (.of_bridge ⟨rfl, rfl, rfl, rfl, rfl, rfl⟩ (Nat.le_refl _))⟩)
    fun h hc => ⟨h.1, h.2.trans hc.grows⟩

/-- What is found in a list is found in those that extend it. -/
theorem getElem?_of_extends {α : Type} {l l' : List α} (h : l <+: l') {i : Nat} {a : α}
    (ha : l[i]? = some a) : l'[i]? = some a := by
  obtain ⟨more, rfl⟩ := h
  rw [List.getElem?_append_left (List.getElem?_eq_some_iff.1 ha).1, ha]

/-- The methods that had a body before a run keep it. -/
theorem bodies_of_run {p : Program σ} {n : Nat} {w v : World σ}
    {a : Except ForeignException (Option Address)} (h : p.run (callAt n) w = .ok a v) :
    w.bodies <+: v.bodies := by
  have hrun := Realm.run (R := lastingRealm w) (n := n) (p := p) (o := []) trivial
    trivial ⟨List.prefix_refl w.bodies, .refl _⟩
  exact ((ends_iff.1 hrun).1 a v h).1

/-- What a session has settled stays so, and the methods with it. -/
theorem Session.Sees.lasting {start w : World σ} {rs : List Request}
    (h : Session.Sees (fun _ _ => True) (fun _ => True) start rs w) :
    start.bodies <+: w.bodies ∧ start.state.Grows w.state := by
  obtain ⟨_, hw, -⟩ := Realm.sees (R := lastingRealm start) ⟨List.prefix_refl _, .refl _⟩ h
  exact hw

theorem Session.Sees.grows {start w : World σ} {rs : List Request}
    (h : Session.Sees (fun _ _ => True) (fun _ => True) start rs w) : start.state.Grows w.state :=
  h.lasting.2

/-- What a bridge starts with: the foreign side as it is, the helpers that were found there, and
nothing of its own. -/
def World.started (config : Config) (registry : Registry) (side : ForeignSide σ) (memory : σ)
    (helpers : Helpers) : World σ where
  state := {
    host := .empty, foreign := side.foreign, memory := .empty
    bridge := {
      config, registry, helpers, factories := .empty, entries := .empty, bindings := .empty
      redirectors := .empty, frames := [], metrics := .empty }
    grips := .empty, nextGrip := 0, journal := [.bridgeInit config.engine.assembly] }
  bodies := side.bodies
  memory := memory

theorem World.started_of_connect {config : Config} {registry : Registry} {side : ForeignSide σ}
    {memory : σ} {w : World σ} (h : World.connect config registry side memory = .ok w) :
    ∃ helpers, w = .started config registry side memory helpers := by
  unfold World.connect at h
  cases hh : Helpers.find side.foreign config.engine with
  | error e =>
    rw [hh] at h
    cases h
  | ok helpers =>
    rw [hh] at h
    cases h
    exact ⟨helpers, rfl⟩

theorem World.of_connect {config : Config} {registry : Registry} {side : ForeignSide σ} {memory : σ}
    {w : World σ} (h : World.connect config registry side memory = .ok w) :
    w.bodies = side.bodies ∧ w.memory = memory ∧ w.state.bridge.registry = registry ∧
      w.state.bridge.redirectors = .empty := by
  obtain ⟨helpers, rfl⟩ := World.started_of_connect h
  exact ⟨rfl, rfl, rfl, rfl⟩

/-- The kinds of data cross by what the bridge was started with. -/
theorem Session.Sees.registry {config : Config} {registry : Registry} {side : ForeignSide σ}
    {memory : σ} {start w : World σ} {rs : List Request}
    (h : Session.Sees (fun _ _ => True) (fun _ => True) start rs w)
    (hstart : World.connect config registry side memory = .ok start) :
    w.state.bridge.registry = registry :=
  h.grows.registry.trans (World.of_connect hstart).2.2.1

/-! ## A small engine library -/

namespace Sample

/-- The methods of a small engine library. -/
def library : List MethodInfo :=
  [object "DisconnectFromNative" [], object "GetNativePtr" [], object "BeforeConstruct" ["intptr"],
    object "AfterConstruct" [], factory "CreateArray" making, factory "WriteArray" writing,
    factory "CreateSet" making, factory "WriteSet" writing, factory "CreateMap" making,
    factory "WriteMap" writing, factory "CreateSoftObjectPtr" making,
    factory "WriteSoftObjectPtr" ["intptr", "N.ISoftObjectPtr"],
    factory "CreateSoftClassPtr" making, factory "WriteSoftClassPtr" ["intptr", "N.ISoftClassPtr"]]
where
  object (name : String) (params : List String) : MethodInfo :=
    ⟨"E", ⟨"N", "O", name, some params⟩, params.length, 0⟩
  factory (name : String) (params : List String) : MethodInfo :=
    ⟨"E", ⟨"N", "F", name, some params⟩, params.length, 0⟩
  making : List String := ["intptr", "intptr"]
  writing : List String := ["intptr", "intptr", "System.Collections.IEnumerable"]

def config : Config := ⟨true, true, ⟨"E", "N", "O", "F"⟩, .default⟩

def side (more : List MethodInfo) (bodies : List (Invocation → Program Unit)) : ForeignSide Unit :=
  ⟨⟨.empty, .empty, library ++ more⟩, bodies⟩

/-- A bridge to the library and some more methods. -/
def world (more : List MethodInfo) (bodies : List (Invocation → Program Unit)) : World Unit where
  state := {
    host := .empty, foreign := ⟨.empty, .empty, library ++ more⟩, memory := .empty
    bridge := {
      config, registry := .default, helpers := ⟨0, 1, 2, 3, 4, 5, 6, 7, 8, 9, 10, 11, 12, 13⟩
      factories := .empty, entries := .empty, bindings := .empty, redirectors := .empty
      frames := [], metrics := .empty }
    grips := .empty, nextGrip := 0, journal := [.bridgeInit "E"] }
  bodies := bodies
  memory := ()

theorem connect_world (more : List MethodInfo) (bodies : List (Invocation → Program Unit)) :
    World.connect config .default (side more bodies) () = .ok (world more bodies) := by
  rfl

/-- Whether a program of the host ends, in a world of which `check` holds. -/
def endsIn (n : Nat) (p : Program σ) (start : World σ) (check : World σ → Bool) : Bool :=
  match p.run (callAt n) start with
  | .ok _ w => check w
  | .error _ _ => false

/-- That world is one that a session sees. -/
theorem sees_of_endsIn {n : Nat} {p : Program σ} {start : World σ} {check : World σ → Bool}
    (h : endsIn n p start check = true) :
    ∃ w a, p.run (callAt n) start = .ok a w ∧
      Session.Sees (fun _ _ => True) (fun _ => True) start [] w ∧ check w = true := by
  unfold endsIn at h
  split at h
  · rename_i a w hr
    exact ⟨w, a, hr, ⟨w, .done none, 0, .ended .start trivial hr, trivial, .here⟩, h⟩
  · cases h

/-- Whether it ends so once the bridge was started. -/
def endsFrom (side : ForeignSide σ) (memory : σ) (n : Nat) (p : Program σ)
    (check : World σ → Bool) : Bool :=
  match World.connect config .default side memory with
  | .error _ => false
  | .ok start => endsIn n p start check

theorem sees_of_endsFrom {side : ForeignSide σ} {memory : σ} {n : Nat} {p : Program σ}
    {check : World σ → Bool} (h : endsFrom side memory n p check = true) :
    ∃ start w a, World.connect config .default side memory = .ok start ∧
      p.run (callAt n) start = .ok a w ∧
      Session.Sees (fun _ _ => True) (fun _ => True) start [] w ∧ check w = true := by
  unfold endsFrom at h
  split at h
  · cases h
  · rename_i start hstart
    obtain ⟨w, a, hw⟩ := sees_of_endsIn h
    exact ⟨start, w, a, hstart, hw⟩

end Sample

end TwinHeap
