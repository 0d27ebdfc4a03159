import TwinHeap.Proofs.Firm

/-!
# Spots — points of a run, and what is going on around them

A spot is a point of a run where foreign code or the host is in control: what it will do next, in
which world, and the operations of the bridge that are being performed around it, each at the call of
foreign code that it has come to. `Spot.Step` leads from one spot to those that come next, into the
bodies of methods as well as past the requests that call them; `Along` are the spots of a session.
-/

namespace TwinHeap

variable {σ α : Type}

/-- An operation of the bridge that is being performed: what was asked for, where and how deep calls
may nest in it, and the call of foreign code that it has come to. -/
structure Enclosing (σ : Type) where
  request : Request
  asked : World σ
  depth : Nat
  method : Nat
  inv : Invocation
  called : World σ

/-- The call belongs to the making of a proxy for the host object. -/
def Enclosing.Constructs (e : Enclosing σ) (host : Address) : Prop :=
  ∃ w, Act.Comes (callAt e.depth) e.request.perform e.asked (Identity.proxyFor host : Act σ Address) w ∧
    Act.Comes (callAt e.depth) (Identity.proxyFor host : Act σ Address) w
      (Act.callMethod e.method e.inv.receiver e.inv.args) e.called

/-- A point of a run where foreign code or the host is in control. -/
structure Spot (σ : Type) where
  /-- How deep calls may nest from here. -/
  depth : Nat
  /-- The operations that are being performed, the innermost first. -/
  around : List (Enclosing σ)
  /-- What is still to be done here. -/
  program : Program σ
  world : World σ

namespace Spot

/-- One spot comes after another in a run. -/
inductive Step : Spot σ → Spot σ → Prop
  | observe {n : Nat} {es : List (Enclosing σ)} {next : State → σ → Program σ} {w : World σ} :
      Step ⟨n, es, .observe next, w⟩ ⟨n, es, next w.state w.memory, w⟩
  | remember {n : Nat} {es : List (Enclosing σ)} {memory : σ} {next : Program σ} {w : World σ} :
      Step ⟨n, es, .remember memory next, w⟩ ⟨n, es, next, { w with memory := memory }⟩
  | define {n : Nat} {es : List (Enclosing σ)} {info : MethodInfo}
      {body : Invocation → Program σ} {next : Nat → Program σ} {w : World σ} :
      Step ⟨n, es, .define info body next, w⟩ ⟨n, es, next w.bodies.length, w.define info body⟩
  | answered {n : Nat} {es : List (Enclosing σ)} {r : Request} {next : r.Reply → Program σ}
      {reply : r.Reply} {w u : World σ} (hr : r.perform (callAt n) w = .ok reply u) :
      Step ⟨n, es, .ask r next, w⟩ ⟨n, es, next reply, u⟩
  | entered {n : Nat} {es : List (Enclosing σ)} {r : Request} {next : r.Reply → Program σ}
      {w u : World σ} {m : Nat} {inv : Invocation} {body : Invocation → Program σ}
      (hm : r.perform.Makes (callAt (n + 1)) w m inv u) (hb : u.bodies[m]? = some body) :
      Step ⟨n + 1, es, .ask r next, w⟩ ⟨n, ⟨r, w, n + 1, m, inv, u⟩ :: es, body inv, u.countCall m⟩

/-- The rest of the run from a spot ends so. -/
def RunEnds (x : Spot σ) (Q : World σ → Prop) : Prop :=
  Ends (x.program.run (callAt x.depth) x.world) (fun _ v => Q v) fun f v => f ≠ .exhausted → Q v

/-- What every step past a spot keeps holds in the end. -/
theorem runEnds {I : Spot σ → Prop} {n : Nat} {es : List (Enclosing σ)} {Q : World σ → Prop}
    (hobserve : ∀ {next w}, I ⟨n, es, .observe next, w⟩ → I ⟨n, es, next w.state w.memory, w⟩)
    (hremember : ∀ {memory next w}, I ⟨n, es, .remember memory next, w⟩ →
      I ⟨n, es, next, { w with memory := memory }⟩)
    (hdefine : ∀ {info body next w}, I ⟨n, es, .define info body next, w⟩ →
      I ⟨n, es, next w.bodies.length, w.define info body⟩)
    (hask : ∀ {r next w}, I ⟨n, es, .ask r next, w⟩ → Ends (r.perform (callAt n) w)
      (fun reply u => I ⟨n, es, next reply, u⟩) fun f u => f ≠ .exhausted → Q u)
    (hend : ∀ {p w}, I ⟨n, es, p, w⟩ → Q w) {p : Program σ} {w : World σ}
    (h : I ⟨n, es, p, w⟩) : RunEnds ⟨n, es, p, w⟩ Q := by
  show Ends (p.run (callAt n) w) _ _
  induction p generalizing w with
  | done a => exact hend h
  | throw x => exact hend h
  | panic c => exact fun _ => hend h
  | observe next ih => exact ih _ _ (hobserve h)
  | remember memory next ih => exact ih (hremember h)
  | define info body next _ ih =>
    rw [run_define]
    exact ih _ (hdefine h)
  | ask r next ih => exact ends_ask ((hask h).mono (fun reply u hu => ih reply hu) fun _ _ hE => hE)

/-- A call that a request comes to ends as the body does that it leads into. -/
theorem ends_call {n : Nat} (es : List (Enclosing σ)) {r : Request} (next : r.Reply → Program σ)
    {w v : World σ} {m : Nat} {inv : Invocation} {Q : World σ → Prop}
    (hcomes : Act.Comes (callAt n) r.perform w (Act.callMethod m inv.receiver inv.args) v)
    (hv : Q v) (hbody : ∀ y : Spot σ, Step ⟨n, es, .ask r next, w⟩ y → y.depth < n →
      y.around = ⟨r, w, n, m, inv, v⟩ :: es → y.world = v.countCall m → y.RunEnds Q) :
    Ends (callAt n m inv v) (fun _ u => Q u) fun f u => f ≠ .exhausted → Q u := by
  refine ends_callAt hv fun k body hk hb => ?_
  subst hk
  exact hbody ⟨k, _, body inv, v.countCall m⟩ (.entered hcomes.makes hb) (Nat.lt_succ_self k) rfl rfl

end Spot

/-- The host has run some programs, one after the other; it goes on also after one that was
abandoned. -/
inductive After (start : World σ) : List (Nat × Program σ) → World σ → Prop
  | start : After start [] start
  | ended {ps : List (Nat × Program σ)} {n : Nat} {p : Program σ} {w v : World σ}
      {a : Except ForeignException (Option Address)} (h : After start ps w)
      (hr : p.run (callAt n) w = .ok a v) : After start (ps ++ [(n, p)]) v
  | abandoned {ps : List (Nat × Program σ)} {n : Nat} {p : Program σ} {w v : World σ} {f : Failure}
      (h : After start ps w) (hr : p.run (callAt n) w = .error f v) (hf : f ≠ .exhausted) :
      After start (ps ++ [(n, p)]) v

/-- The spots that a session comes to in which the host runs these programs, each with calls nested
at most so deep. -/
inductive Along (start : World σ) (ps : List (Nat × Program σ)) : Spot σ → Prop
  | begins {done : List (Nat × Program σ)} {n : Nat} {p : Program σ} {w : World σ}
      (h : After start done w) (hps : done ++ [(n, p)] <+: ps) : Along start ps ⟨n, [], p, w⟩
  | step {x y : Spot σ} (h : Along start ps x) (hs : x.Step y) : Along start ps y

/-- What runs from the spots of a session keep holds between its programs. -/
theorem After.ends {start w : World σ} {done ps : List (Nat × Program σ)} {Q : World σ → Prop}
    (h : After start done w) (hps : done <+: ps) (hstart : Q start)
    (hrun : ∀ x : Spot σ, Along start ps x → x.around = [] → Q x.world → x.RunEnds Q) : Q w := by
  induction h with
  | start => exact hstart
  | ended h hr ih =>
    have hends := hrun _ (.begins h hps) rfl (ih ((List.prefix_append _ _).trans hps))
    exact (ends_iff.1 hends).1 _ _ hr
  | abandoned h hr hf ih =>
    have hends := hrun _ (.begins h hps) rfl (ih ((List.prefix_append _ _).trans hps))
    exact (ends_iff.1 hends).2 _ _ hr hf

/-- Which program was run last. -/
theorem After.concat {start v : World σ} {ps : List (Nat × Program σ)} {n : Nat} {p : Program σ}
    (h : After start (ps ++ [(n, p)]) v) : ∃ w, After start ps w ∧
      ((∃ a, p.run (callAt n) w = .ok a v) ∨
        ∃ f, f ≠ .exhausted ∧ p.run (callAt n) w = .error f v) := by
  generalize hq : ps ++ [(n, p)] = qs at h
  cases h with
  | start => simp at hq
  | ended h hr =>
    obtain ⟨rfl, heq⟩ := List.append_inj' hq rfl
    cases heq
    exact ⟨_, h, .inl ⟨_, hr⟩⟩
  | abandoned h hr hf =>
    obtain ⟨rfl, heq⟩ := List.append_inj' hq rfl
    cases heq
    exact ⟨_, h, .inr ⟨_, hf, hr⟩⟩

theorem After.eq_start {start v : World σ} (h : After start [] v) : v = start := by
  generalize hq : ([] : List (Nat × Program σ)) = qs at h
  cases h with
  | start => rfl
  | ended => simp at hq
  | abandoned => simp at hq

/-- In a session of two programs the first begins where the session does, and the second where the
first was left. -/
theorem After.of_pair {start w : World σ} {done : List (Nat × Program σ)} {n : Nat} {p : Program σ}
    {a b : Nat × Program σ} (h : After start done w) (hps : done ++ [(n, p)] <+: [a, b]) :
    ((n, p) = a ∧ w = start) ∨ ((n, p) = b ∧
      ((∃ r, a.2.run (callAt a.1) start = .ok r w) ∨
        ∃ f, f ≠ .exhausted ∧ a.2.run (callAt a.1) start = .error f w)) := by
  rcases done with _ | ⟨first, _ | ⟨second, rest⟩⟩
  · exact .inl ⟨(List.cons_prefix_cons.1 hps).1, h.eq_start⟩
  · obtain ⟨rfl, hrest⟩ := List.cons_prefix_cons.1 hps
    obtain ⟨u, hu, hr⟩ := (show After start ([] ++ [first]) w from h).concat
    rw [hu.eq_start] at hr
    exact .inr ⟨(List.cons_prefix_cons.1 hrest).1, hr⟩
  · have hlength := hps.length_le
    simp only [List.length_append, List.length_cons, List.length_nil] at hlength
    omega

/-! ## Properties of all spots -/

/-- What the bridge asks for itself: no change that foreign code and the host ask for, apart from the
holds on what it has made for them. -/
def Request.OfBridge (r : Request) : Prop := r.alone? = none ∨ ∃ a, r = .hold a .strong

/-- A change that is foreign code's and the host's to ask for is just that. -/
theorem Request.perform_alone {r : Request} {f : State → State} (hf : r.alone? = some f)
    (w : World σ) : ∃ reply, ∀ call, r.perform call w = .ok reply { w with state := f w.state } := by
  cases r <;> simp only [alone?, Option.some.injEq, reduceCtorEq] at hf <;> subst hf <;>
    exact ⟨_, fun _ => rfl⟩

/-- A property of what is owed and of worlds that the bridge keeps, and foreign code and the host at
the spots in question, which are closed under steps. -/
structure Spot.Upholds (good : Spot σ → Prop) (holds : List Owed → World σ → Prop) : Prop where
  step : ∀ {x y : Spot σ}, good x → x.Step y → good y
  /-- The phases of what is owed do not matter. -/
  congr : ∀ {o o' : List Owed} {w : World σ}, o'.map Owed.core = o.map Owed.core → holds o w → holds o' w
  change : ∀ {o o' : List Owed} {w : World σ} {s' : State}, holds o w →
    Change (.asking Request.OfBridge fun _ => True) o w.state o' s' → holds o' { w with state := s' }
  alone : ∀ {n es r next f o} {w : World σ}, good ⟨n, es, .ask r next, w⟩ → r.alone? = some f →
    holds o w → holds o { w with state := f w.state }
  counted : ∀ {o} {w : World σ} (m : Nat), holds o w → holds o (w.countCall m)
  defined : ∀ {o} {w : World σ} info body, holds o w → holds o (w.define info body)
  remembered : ∀ {n es memory next o} {w : World σ}, good ⟨n, es, .remember memory next, w⟩ →
    holds o w → holds o { w with memory := memory }

/-- The bridge keeps a property of worlds, where the calls of the course do. -/
def upheldLaw {n : Nat} {good : Spot σ → Prop} {holds : List Owed → World σ → Prop}
    (S : Spot.Upholds good holds) (course : Act.Course (callAt n : Invoker σ))
    (hcalls : ∀ {o m inv v}, holds o v → course.Runs (Act.callMethod m inv.receiver inv.args) v →
      Ends (callAt n m inv v) (fun _ u => holds o u) fun f u => f ≠ .exhausted → holds o u) :
    Law σ where
  toTerms := .asking Request.OfBridge fun _ => True
  call := callAt n
  course := course
  holds := holds
  seen h := h
  grows := callAt_grows n
  ready_cons _ _ := trivial
  fresh _ _ := trivial
  change h hc := S.change h hc
  called h hr hrun := (hcalls h hrun).mono
    (fun _ _ hv => S.congr (Owed.core_after hr.core.1 hr.core.2) hv)
    fun _ _ hv hf => S.congr hr.core.2 (hv hf)

namespace Spot.Upholds

variable {good : Spot σ → Prop} {holds : List Owed → World σ → Prop} {o : List Owed}

/-- What a request keeps, at every call of foreign code and in the end. -/
theorem meets (S : Upholds good holds) {n : Nat} {es : List (Enclosing σ)} {r : Request}
    {next : r.Reply → Program σ} {w : World σ} (hg : good ⟨n, es, .ask r next, w⟩) (hw : holds o w)
    (hrun : ∀ y : Spot σ, good y → y.depth < n → ∀ o, holds o y.world → y.RunEnds (holds o)) :
    r.perform.Meets (callAt n) w (fun _ _ v => ∃ o, holds o v) (fun _ v => holds o v)
      fun f v => f ≠ .exhausted → holds o v := by
  -- What is carried out at once calls nothing, and that its change upholds the property is part of `S`.
  cases hf : r.alone? with
  | some f =>
    obtain ⟨reply, hreply⟩ := Request.perform_alone hf w
    refine ⟨.of_const fun _ => by rw [hreply, hreply], .of_const fun _ => by rw [hreply, hreply],
      fun _ v hv => ?_, fun f v hv => ?_⟩
    · rw [hreply] at hv
      cases hv
      exact S.alone hg hf hw
    · rw [hreply] at hv
      cases hv
  | none =>
    have hcalls {o : List Owed} {m : Nat} {inv : Invocation} {v : World σ} (hv : holds o v)
        (hcomes : (Act.Course.of (callAt n) r.perform w).Runs
          (Act.callMethod m inv.receiver inv.args) v) :
        Ends (callAt n m inv v) (fun _ u => holds o u) fun f u => f ≠ .exhausted → holds o u := by
      refine Spot.ends_call es next hcomes hv ?_
      rintro y hstep hlt - hworld
      exact hrun y (S.step hg hstep) hlt o (hworld ▸ S.counted m hv)
    -- The law says of each call where it comes from, so that the spot inside of it is reached by a
    -- step.
    have hobeys := Request.perform_obeys_of_asking
      (L := upheldLaw S (.of (callAt n) r.perform w) hcalls) rfl (fun a => .inr ⟨a, rfl⟩)
      (.inl hf) o w List.nil_suffix trivial .here hw
    refine hobeys.mono ?_ (fun _ v h => h.1) fun _ v h hf => (h hf).1
    rintro m inv v ⟨t, _, _, -, -, hv, -⟩
    exact ⟨t ++ o, hv⟩

/-- The rest of the run from a spot keeps it. -/
theorem run (S : Upholds good holds) {x : Spot σ} (hx : good x) (hw : holds o x.world) :
    x.RunEnds (holds o) := by
  obtain ⟨n, es, p, w⟩ := x
  induction n using Nat.strongRecOn generalizing es p w o with
  | _ n ih =>
  refine Spot.runEnds (I := fun y => good y ∧ holds o y.world) ?_ ?_ ?_ ?_ (fun h => h.2) ⟨hx, hw⟩
  · rintro next w ⟨hg, hw⟩
    exact ⟨S.step hg .observe, hw⟩
  · rintro memory next w ⟨hg, hw⟩
    exact ⟨S.step hg .remember, S.remembered hg hw⟩
  · rintro info body next w ⟨hg, hw⟩
    exact ⟨S.step hg .define, S.defined info body hw⟩
  · rintro r next w ⟨hg, hw⟩
    have hmeets := S.meets hg hw fun y hy hlt o hw => ih y.depth hlt y.around y.program y.world hy hw
    refine ends_iff.2 ⟨fun reply u hu => ?_, fun f u hu hf => hmeets.err f u hu hf⟩
    exact ⟨S.step hg (.answered hu), hmeets.ok reply u hu⟩

/-- What holds at a spot holds at those that come next. -/
theorem stepped (S : Upholds good holds) {x y : Spot σ} (hs : x.Step y) (hx : good x)
    (hw : ∃ o, holds o x.world) : ∃ o, holds o y.world := by
  obtain ⟨o, hw⟩ := hw
  cases hs with
  | observe => exact ⟨o, hw⟩
  | remember => exact ⟨o, S.remembered hx hw⟩
  | define => exact ⟨o, S.defined _ _ hw⟩
  | answered hr => exact ⟨o, (S.meets hx hw fun y hy _ o hw => S.run hy hw).ok _ _ hr⟩
  | entered hm hb =>
    obtain ⟨o, hu⟩ := (S.meets hx hw fun y hy _ o hw => S.run hy hw).only.of_makes hm
    exact ⟨o, S.counted _ hu⟩

end Spot.Upholds

/-- What holds where a session begins, with nothing owed, holds wherever it comes to. -/
theorem Along.upholds {start : World σ} {ps : List (Nat × Program σ)}
    {holds : List Owed → World σ → Prop} (S : Spot.Upholds (Along start ps) holds)
    (hstart : holds [] start) {x : Spot σ} (hx : Along start ps x) : ∃ o, holds o x.world := by
  induction hx with
  | begins h hps =>
    exact ⟨[], h.ends ((List.prefix_append _ _).trans hps) hstart fun y hy _ hw => S.run hy hw⟩
  | step hx hs ih => exact S.stepped hs hx ih

end TwinHeap
