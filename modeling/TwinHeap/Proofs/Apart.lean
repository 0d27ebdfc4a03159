import TwinHeap.Proofs.Nesting

/-!
# Apart — calls within calls

While a redirected call is being made, foreign code may make others, at any depth, also of the same
function. Where each is given storage of its own, none of them touches the argument slots of the calls
around it, nor the storage of their callers: what the bridge writes on its own account goes to cells of
the innermost call, and what it is told to write goes where it is told. As long as the method of a call
has not returned, the storage of its caller is as it was (`nested_calls_apart`).
-/

namespace TwinHeap

variable {σ α : Type}

/-! ## Requests that leave cells alone -/

/-- None of the places that the request names to be written to lies in the cells. -/
def Request.Avoids (r : Request) (K : Nat → Prop) : Prop := ∀ a, r.Writes a → a.Outside K

theorem Request.Avoids.mono {r : Request} {K K' : Nat → Prop} (h : r.Avoids K)
    (hK : ∀ c, K' c → K c) : r.Avoids K' :=
  fun a ha => (h a ha).mono hK

theorem Request.Outcome.keeps {r : Request} {s s' : State} (h : r.Outcome s s') {K : Nat → Prop}
    (hr : r.Avoids K) (hK : ∀ c, K c → c < s.memory.next) : s.Keeps K s' := by
  cases h with
  | allot => exact State.keeps_allot hK rfl
  | discard cell => exact State.keeps_discard (hr _ rfl cell 0 rfl)
  | store cell offset v => exact State.keeps_storeAt (hr _ rfl) v
  | write cell offset octets => exact State.keeps_writeAt (hr _ rfl) octets
  | _ => exact State.keeps_of_memory rfl

/-- The bridge leaves the cells in `K` alone, where it does so with what it is asked and the calls do
that it comes to. -/
def spareLaw {n : Nat} (K : Nat → Prop) (old : State) (course : Act.Course (callAt n : Invoker σ))
    (hcalls : ∀ {m : Nat} {inv : Invocation} {v : World σ},
      course.Runs (Act.callMethod m inv.receiver inv.args) v → (∀ c, K c → c < v.state.memory.next) →
      (callAt n).Spares K m inv v) : Law σ where
  toTerms := { Terms.guarding K with mayAsk := fun r => r.Avoids K }
  call := callAt n
  course := course
  holds := World.Guards K old
  seen h := h
  grows := callAt_grows n
  ready_cons _ _ := trivial
  fresh h := h.fresh
  change h hc := h.change hc id fun hr hf => (Request.outcome hf _).keeps hr h.below
  called h hr hrun := h.ends_called hr (hcalls hrun h.below)

/-- What is owed does not matter for the cells. -/
theorem World.Guards.closed {K : Nat → Prop} {old : State} {o : List Owed} {w : World σ}
    (h : w.Guards K old o) : w.Guards K old [] :=
  ⟨h.below, h.keeps, nofun, nofun⟩

theorem World.Guards.trans {K : Nat → Prop} {old : State} {w v : World σ} (h : w.Guards K old [])
    (h' : v.Guards K w.state []) : v.Guards K old [] :=
  ⟨h'.below, h.keeps.trans h'.keeps, nofun, nofun⟩

theorem World.Guards.of_memory {K : Nat → Prop} {old : State} {w v : World σ}
    (h : w.Guards K old []) (hm : v.state.memory = w.state.memory) : v.Guards K old [] :=
  h.trans ⟨fun c hc => hm ▸ h.below c hc, State.keeps_of_memory hm, nofun, nofun⟩

namespace Spot

/-- A request that avoids the cells leaves them alone, and has done so where it calls foreign code, if
all do that it leads into. -/
theorem ends_avoiding {n : Nat} (es : List (Enclosing σ)) {r : Request}
    (next : r.Reply → Program σ) {w : World σ} {K : Nat → Prop} (hr : r.Avoids K)
    (hK : ∀ c, K c → c < w.state.memory.next)
    (hrun : ∀ y : Spot σ, Step ⟨n, es, .ask r next, w⟩ y → y.depth < n →
      (∀ c, K c → c < y.world.state.memory.next) →
      y.RunEnds fun v => v.Guards K y.world.state []) :
    Ends (r.perform (callAt n) w) (fun _ v => v.Guards K w.state [])
        (fun f v => f ≠ .exhausted → v.Guards K w.state []) ∧
      ∀ m inv v, r.perform.Makes (callAt n) w m inv v → v.Guards K w.state [] := by
  let L : Law σ := spareLaw K w.state (.of (callAt n) r.perform w) fun {m inv v} hcomes hv => by
    refine ends_call es next hcomes (State.Keeps.refl _) fun y hstep hlt _ hworld => ?_
    have hends := hrun y hstep hlt (hworld ▸ hv)
    rw [hworld] at hends
    exact hends.mono (fun _ u hu => hu.keeps) fun _ u hu hne => (hu hne).keeps
  have hproxies : L.MakesProxies := Identity.makesProxies fun _ => trivial
  have hobeys : (r.perform : Act σ _).Obeys L r.situation [] w :=
    Request.perform_obeys hproxies hr (fun _ _ h => h.elim) hr
      fun reason => Identity.sever_obeys reason fun _ _ => trivial
  have hmeets := hobeys List.nil_suffix trivial .here (World.Guards.start hK)
  refine ⟨hmeets.ends.mono (fun _ v hv => hv.1) fun f v hv hne => (hv hne).1, ?_⟩
  intro m inv v hm
  obtain ⟨t, -, -, -, -, hv, -⟩ := hmeets.only.of_makes hm
  exact World.Guards.closed hv

/-- Spots whose requests avoid the cells, and so do those that come after. -/
structure Avoid (good : Spot σ → Prop) (K : Nat → Prop) : Prop where
  step : ∀ {x y}, good x → x.Step y → good y
  avoids : ∀ {n es r next w}, good ⟨n, es, .ask r next, w⟩ → r.Avoids K

/-- The rest of the run from such a spot leaves the cells alone. -/
theorem Avoid.run {good : Spot σ → Prop} {K : Nat → Prop} (S : Avoid good K) {x : Spot σ}
    (hx : good x) (hK : ∀ c, K c → c < x.world.state.memory.next) :
    x.RunEnds fun v => v.Guards K x.world.state [] := by
  obtain ⟨n, es, p, w⟩ := x
  induction n using Nat.strongRecOn generalizing es p w with
  | _ n ih =>
  refine runEnds (I := fun y => good y ∧ y.world.Guards K w.state []) ?_ ?_ ?_ ?_
    (fun h => h.2) ⟨hx, .start hK⟩
  · exact fun ⟨hy, hv⟩ => ⟨S.step hy .observe, hv⟩
  · exact fun ⟨hy, hv⟩ => ⟨S.step hy .remember, hv.of_memory rfl⟩
  · exact fun ⟨hy, hv⟩ => ⟨S.step hy .define, hv.of_memory rfl⟩
  · rintro r next v ⟨hy, hv⟩
    obtain ⟨hends, -⟩ := ends_avoiding es next (S.avoids hy) hv.below fun z hs hlt hz =>
      ih z.depth hlt z.around z.program z.world (S.step hy hs) hz
    obtain ⟨hok, herr⟩ := ends_iff.1 hends
    exact ends_iff.2 ⟨fun reply u hu => ⟨S.step hy (.answered hu), hv.trans (hok reply u hu)⟩,
      fun f u hu hne => hv.trans (herr f u hu hne)⟩

end Spot

/-! ## Frames -/

/-- A request leaves the cells of the running calls with them, and has put a frame above them where it
calls foreign code in a redirected call. -/
theorem Request.frameCells (r : Request) (n : Nat) (w : World σ) :
    (∀ reply v, r.perform (callAt n) w = .ok reply v → v.state.frameCells = w.state.frameCells) ∧
      ∀ m inv v, r.perform.Makes (callAt n) w m inv v →
        ∃ above, v.state.frameCells = above ++ w.state.frameCells ∧
          above.length = r.situation.isRedirected.toNat := by
  have hstart : w.Above 0 w.state.frameCells [] := ⟨Nat.zero_le _, [], rfl, rfl, nofun⟩
  have hrespected : (framesRealm 0 w.state.frameCells : Realm σ).Respected n := Realm.respected _ n
  refine ⟨fun reply v hv => ?_, fun m inv v hm => ?_⟩
  · have hperformed := Realm.performed hrespected (r := r) trivial trivial hstart
    obtain ⟨above, hcells, hlength, -⟩ := ((ends_iff.1 hperformed).1 _ _ hv).frames
    rw [hcells, List.eq_nil_of_length_eq_zero hlength]
    rfl
  · obtain ⟨t, -, -, ht, -, hv, -⟩ := Realm.made hrespected (r := r) trivial trivial hstart hm
    obtain ⟨above, hcells, hlength, -⟩ := hv.frames
    rw [List.append_nil] at hlength
    exact ⟨above, hcells, hlength.trans ht.2.2⟩

/-- The cells of the caller's storage: those of the arguments, and that of the result. -/
def RedirectedCall.Storage (c : RedirectedCall σ) (cell : Nat) : Prop :=
  (∃ a ∈ c.stack.args, a.cell = cell) ∨ ∃ i, c.result = some (.cell cell i)

namespace Spot

/-- The cell is storage of the caller of a redirected call around. -/
def Lent (x : Spot σ) (cell : Nat) : Prop := ∃ e ∈ x.around, ∃ c, e.Performs c ∧ c.Storage cell

/-- The cell belongs to a redirected call around: arguments lie in it, or it is the caller's. -/
def Held (x : Spot σ) (cell : Nat) : Prop :=
  (∃ cells ∈ x.world.state.frameCells, cell ∈ cells) ∨ x.Lent cell

/-- The cell belongs to a call around, and it does not hold arguments of the innermost one. -/
def Outer (x : Spot σ) (cell : Nat) : Prop :=
  (∃ cells ∈ x.world.state.frameCells.tail, cell ∈ cells) ∨ x.Lent cell

variable {x y : Spot σ} {cell : Nat}

theorem Step.lent (h : x.Step y) (hx : x.Lent cell) : y.Lent cell := by
  obtain ⟨e, he, hc⟩ := hx
  cases h with
  | entered => exact ⟨e, List.mem_cons_of_mem _ he, hc⟩
  | _ => exact ⟨e, he, hc⟩

theorem Step.outer (h : x.Step y) (hx : x.Outer cell) : y.Outer cell := by
  obtain ⟨cells, hcells, hcell⟩ | hlent := hx
  · refine .inl ⟨cells, ?_, hcell⟩
    cases h with
    | observe | remember | define => exact hcells
    | @answered n _ r _ _ w u hr =>
      rw [(r.frameCells n w).1 _ _ hr]
      exact hcells
    | @entered n _ r _ w u m inv _ hm _ =>
      obtain ⟨above, habove, -⟩ := (r.frameCells (n + 1) w).2 _ _ _ hm
      show cells ∈ u.state.frameCells.tail
      rw [habove]
      cases above with
      | nil => exact hcells
      | cons first above => exact List.mem_append_right _ (List.mem_of_mem_tail hcells)
  · exact .inr (h.lent hlent)

/-- What belongs to the calls around a nested call belongs to outer ones within it. -/
theorem Step.outer_of_held {n : Nat} {es : List (Enclosing σ)} {r : Request}
    {next : r.Reply → Program σ} {w : World σ} (h : Step ⟨n, es, .ask r next, w⟩ y)
    (hdepth : y.depth < n) (hr : r.situation = .redirected)
    (hx : Held ⟨n, es, .ask r next, w⟩ cell) : y.Outer cell := by
  obtain ⟨cells, hcells, hcell⟩ | hlent := hx
  · refine .inl ⟨cells, ?_, hcell⟩
    cases h with
    | answered => exact absurd hdepth (Nat.lt_irrefl n)
    | @entered n _ _ _ _ u m inv _ hm _ =>
      obtain ⟨above, habove, hlength⟩ := (r.frameCells (n + 1) w).2 _ _ _ hm
      rw [hr] at hlength
      obtain ⟨own, rfl⟩ := List.length_eq_one_iff.1 hlength
      show cells ∈ u.state.frameCells.tail
      rw [habove]
      exact hcells
  · exact .inr (h.lent hlent)

end Spot

/-- Redirected calls are given storage of their own, apart from all that the calls around them have.
Else what is written to belongs to none of the calls around, unless it holds arguments of the innermost
one. -/
def Confined (start : World σ) (ps : List (Nat × Program σ)) : Prop :=
  ∀ {n : Nat} {es : List (Enclosing σ)} {r : Request} {next : r.Reply → Program σ} {w : World σ},
    Along start ps ⟨n, es, .ask r next, w⟩ → r.Avoids (Spot.Outer ⟨n, es, .ask r next, w⟩) ∧
      (r.situation = .redirected → r.Avoids (Spot.Held ⟨n, es, .ask r next, w⟩))

namespace Confined

variable {start : World σ} {ps : List (Nat × Program σ)}

/-- A nested call leaves alone what belongs to the calls around it. -/
theorem ends_nested (h : Confined start ps) {n : Nat} {es : List (Enclosing σ)} {r : Request}
    {next : r.Reply → Program σ} {w : World σ} (hx : Along start ps ⟨n, es, .ask r next, w⟩)
    (hr : r.situation = .redirected) {K : Nat → Prop} (hK : ∀ c, K c → c < w.state.memory.next)
    (hheld : ∀ c, K c → Spot.Held ⟨n, es, .ask r next, w⟩ c) :
    Ends (r.perform (callAt n) w) (fun _ v => v.Guards K w.state [])
      fun f v => f ≠ .exhausted → v.Guards K w.state [] := by
  have S : Spot.Avoid (fun y => Along start ps y ∧ ∀ c, K c → y.Outer c) K :=
    ⟨fun hy hs => ⟨hy.1.step hs, fun c hc => hs.outer (hy.2 c hc)⟩,
      fun hy => (h hy.1).1.mono hy.2⟩
  refine (Spot.ends_avoiding es next (((h hx).2 hr).mono hheld) hK fun y hs hlt hb => ?_).1
  exact S.run ⟨hx.step hs, fun c hc => hs.outer_of_held hlt hr (hheld c hc)⟩ hb

end Confined

/-! ## Calls whose method has not returned -/

namespace Redirection

variable {call : Invoker σ} {w u : World σ} {key : Redirector.Key} {r : Redirector}
  {stack rest : ArgStack} {l : Linkage} {m : Nat} {params : List Parameter}

/-- What a call does with what its redirector is linked to. -/
def onceLinked (key : Redirector.Key) (r : Redirector) (target : Option Address) (stack : ArgStack)
    (result : Option Address) :
    Except LinkError (Linkage × Nat) → Act σ (Except BridgeError Unit × ArgStack)
  | .error e => pure (.error (.link e), stack)
  | .ok (l, m) => Act.edit (·.enter key) >>= fun _ =>
    Act.ensuring (·.leave key) (inFrame key r l m target stack result)

/-- When a call has loaded its parameters it prepares. -/
theorem Loads.comes {n : Nat} (h : Loads (callAt n) key r stack w l m params rest u)
    (hr : w.state.redirector? key = some r) (target result : Option Address) :
    Act.Comes (callAt n) (invoke key r target stack result) w
      (prepare r.function l target params) u := by
  obtain ⟨v, hlinked, hload⟩ := h
  let L : Law σ := .free (callAt n) (callAt_grows n)
  have hlinks : (linked key r : Act σ _).Moves L .plain [] [] [] [] w _ := linked_moves hr
  have hloads : (load key r l stack : Act σ _).Moves L .plain [.frame key] [] [] []
      { v with state := v.state.enter key } _ := load_moves r l stack
  have hstrict := (hlinks List.nil_suffix trivial trivial trivial).strict
  have hstrict' := (hloads List.nil_suffix trivial trivial trivial).strict
  have hinvoke : Act.Comes (callAt n) (invoke key r target stack result : Act σ _) w
      (linked key r >>= onceLinked key r target stack result) w :=
    .congr .here fun _ => by rw [Redirection.invoke_eq]; rfl
  have hframe : Act.Comes (callAt n) (invoke key r target stack result) w
      (Act.ensuring (·.leave key) (inFrame key r l m target stack result))
      { v with state := v.state.enter key } :=
    (hinvoke.next hstrict hlinked).next (a := ()) (.of_const fun _ => rfl) rfl
  have hattempt := (hframe.ensuring.next hstrict' hload).first.attempt
  exact (hattempt.congr fun _ => by rw [run_eq]).first

end Redirection

/-- How a delegate is performed, by how its call ends. -/
def Delegate.settle : Except BridgeError Unit × ArgStack → Act σ Bool
  | (.ok _, _) => pure true
  | (.error e, _) => .fail e

/-- Performing a delegate comes to the redirected call that it resolves to. -/
theorem Delegate.comes {call : Invoker σ} {w : World σ} {d : Delegate} {key : Redirector.Key}
    {r : Redirector} (hb : d.isBound = true) (hd : w.state.resolveDelegate d = .ok (some (key, r)))
    (stack : ArgStack) (result : Option Address) :
    Act.Comes call (d.execute stack result : Act σ Bool) w
      (Redirection.invoke key r d.object stack result) w := by
  have hinvoke : Act.Comes call (d.execute stack result : Act σ Bool) w
      (Redirection.invoke key r d.object stack result >>= settle) w := by
    refine .congr .here fun _ => Eq.symm ?_
    unfold execute
    rw [hb]
    show (Act.state >>= _ : Act σ Bool) _ w = _
    rw [Act.state_bind, hd]
    rfl
  exact hinvoke.first

/-- A broadcast comes to each of its bindings, when those before it have been called. -/
theorem Multicast.comes {n : Nat} {x w : World σ} {before after : Multicast} {d : Delegate}
    {supplied : List ArgStack} {called : Nat}
    (h : Multicast.broadcast before supplied (callAt n) x = .ok called w) :
    Act.Comes (callAt n) (Multicast.broadcast (before ++ d :: after) supplied : Act σ Nat) x
      (d.execute ((supplied.drop before.length).headD (.ofArgs [])) none) w := by
  induction before generalizing x supplied called with
  | nil =>
    cases h
    exact .first .here
  | cons d' before ih =>
    unfold broadcast at h
    obtain ⟨c, u, hfirst, h⟩ := Act.ok_of_bind h
    obtain ⟨c', u', hrest, h⟩ := Act.ok_of_bind h
    cases h
    let L : Law σ := .free (callAt n) (callAt_grows n)
    have hobeys : (d'.execute (supplied.headD (.ofArgs [])) none : Act σ Bool).Obeys L .redirected [] x :=
      d'.execute_obeys (Identity.makesProxies fun _ => trivial) (fun _ _ _ => trivial) (by rintro _ ⟨⟩)
    have hstrict := (hobeys List.nil_suffix trivial trivial trivial).strict
    have hhere : Act.Comes (callAt n)
        (Multicast.broadcast (d' :: (before ++ d :: after)) supplied : Act σ Nat) x
        (d'.execute (supplied.headD (.ofArgs [])) none >>= fun called =>
          Multicast.broadcast (before ++ d :: after) supplied.tail >>= fun rest =>
            pure (called.toNat + rest)) x := .here
    -- Once the first binding was called, what is left is a shorter broadcast.
    have hnext := ih hrest
    rw [List.drop_tail] at hnext
    exact (hhere.next hstrict hfirst).first.trans hnext

/-- Performing a request comes to the redirected calls that it makes. -/
theorem Request.Issues.comes {n : Nat} {x : World σ} {q : Request} {c : RedirectedCall σ}
    (h : q.Issues (callAt n) x c) : Act.Comes (callAt n) q.perform x c.action c.world := by
  obtain ⟨key, r, target, stack, result, w⟩ := c
  change q.Redirects (callAt n) x key r target stack result w at h
  cases h with
  | invoke hr =>
    have hinvoke : Act.Comes (callAt n) (Request.invoke key target stack result).perform x
        (Redirection.invoke key r target stack result >>= fun reply => pure (some reply)) x := by
      refine .congr .here fun _ => Eq.symm ?_
      unfold Request.perform
      dsimp only
      rw [Act.state_bind, hr]
    exact hinvoke.first
  | execute hb hd => exact (Act.Comes.here.attempt).trans (Delegate.comes hb hd _ _)
  | broadcast hbefore hb hd =>
    exact (Act.Comes.here.attempt.trans (Multicast.comes hbefore)).trans (Delegate.comes hb hd _ _)

namespace RedirectedCall

/-- The method of the call has not returned when it calls foreign code so: this is to stage the
arguments or to find the receiver, or it is the call of the method. -/
def Pending (c : RedirectedCall σ) (call : Invoker σ) (m : Nat) (inv : Invocation) (v : World σ) :
    Prop :=
  ∃ l m' params rest u,
    Redirection.Loads call c.key c.redirector c.stack c.world l m' params rest u ∧
      ((Redirection.prepare c.redirector.function l c.target params).Makes call u m inv v ∨
        m = m' ∧ ∃ staged, Redirection.prepare c.redirector.function l c.target params call u =
          .ok (inv.args, staged, inv.receiver) v)

end RedirectedCall

namespace Confined

variable {start : World σ} {ps : List (Nat × Program σ)}

/-- What is lent is left alone wherever it is. -/
theorem avoid_lent (h : Confined start ps) (K : Nat → Prop) :
    Spot.Avoid (fun y => Along start ps y ∧ ∀ c, K c → y.Lent c) K :=
  ⟨fun hy hs => ⟨hy.1.step hs, fun c hc => hs.lent (hy.2 c hc)⟩,
    fun hy => (h hy.1).1.mono fun c hc => .inr (hy.2 c hc)⟩

/-- Until its method has returned, a call has not touched the storage of its caller. -/
theorem guards_pending (h : Confined start ps) {n : Nat} {es : List (Enclosing σ)} {q : Request}
    {next : q.Reply → Program σ} {w : World σ} (hx : Along start ps ⟨n, es, .ask q next, w⟩)
    {c : RedirectedCall σ} (hc : q.Issues (callAt n) w c) {m : Nat} {inv : Invocation}
    {v : World σ} (hp : c.Pending (callAt n) m inv v) {K : Nat → Prop}
    (hK : ∀ cell, K cell → c.Storage cell ∧ cell < c.world.state.memory.next) :
    v.Guards K c.world.state [] := by
  have hr := hc.registered
  -- Foreign code that is called meanwhile finds the storage lent.
  let L : Law σ := spareLaw K c.world.state (.of (callAt n) c.action c.world)
    fun {m inv v} hcomes hv => by
      refine Spot.ends_call es next (hc.comes.trans hcomes) (State.Keeps.refl _)
        fun y hstep _ haround hworld => ?_
      have hlent (cell : Nat) (hcell : K cell) : y.Lent cell :=
        ⟨_, haround ▸ List.mem_cons_self, c, ⟨hc, hcomes.makes⟩, (hK cell hcell).1⟩
      have hends := (h.avoid_lent K).run ⟨hx.step hstep, hlent⟩ (hworld ▸ hv)
      rw [hworld] at hends
      exact hends.mono (fun _ u hu => hu.keeps) fun _ u hu hne => (hu hne).keeps
  have hproxies : L.MakesProxies := Identity.makesProxies fun _ => trivial
  obtain ⟨l, m', params, rest, u, hloads, hcall⟩ := hp
  obtain ⟨hu, hplaces, -⟩ := hloads.holds (L := L) (o := []) hr c.target c.result .here
    List.nil_suffix trivial (World.Guards.start fun cell hcell => (hK cell hcell).2)
  have hprepare : (Redirection.prepare c.redirector.function l c.target params : Act σ _).Obeys L
      .plain [.frame c.key] u :=
    Redirection.prepare_obeys hproxies c.redirector.function l c.target hplaces
  have hmeets := hprepare List.nil_suffix trivial (hloads.comes hr c.target c.result) hu
  obtain hmakes | ⟨-, staged, hok⟩ := hcall
  · obtain ⟨t, -, -, -, -, hv, -⟩ := hmeets.only.of_makes hmakes
    exact World.Guards.closed hv
  · exact World.Guards.closed (hmeets.ok _ _ hok).1

/-- At every spot of a session. -/
theorem guards_along (h : Confined start ps) {x : Spot σ} (hx : Along start ps x)
    {e : Enclosing σ} (he : e ∈ x.around) {c : RedirectedCall σ} (hc : e.Performs c)
    (hp : c.Pending (callAt e.depth) e.method e.inv e.called) {K : Nat → Prop}
    (hK : ∀ cell, K cell → c.Storage cell ∧ cell < c.world.state.memory.next) :
    x.world.Guards K c.world.state [] := by
  induction hx with
  | begins => cases he
  | @step x y hx hs ih =>
    -- What the calls around lend stays so where control passes on within them.
    have hpasses {n : Nat} {es : List (Enclosing σ)} {r : Request} {next : r.Reply → Program σ}
        {w : World σ} (hx : Along start ps ⟨n, es, .ask r next, w⟩) (he : e ∈ es)
        (hw : w.Guards K c.world.state []) :
        Ends (r.perform (callAt n) w) (fun _ v => v.Guards K c.world.state [])
            (fun f v => f ≠ .exhausted → v.Guards K c.world.state []) ∧
          ∀ m inv v, r.perform.Makes (callAt n) w m inv v → v.Guards K c.world.state [] := by
      have hlent (cell : Nat) (hcell : K cell) : Spot.Lent ⟨n, es, .ask r next, w⟩ cell :=
        ⟨e, he, c, hc, (hK cell hcell).1⟩
      have S := h.avoid_lent K
      obtain ⟨hends, hmakes⟩ := Spot.ends_avoiding es next (S.avoids ⟨hx, hlent⟩) hw.below
        fun y hs _ hb => S.run (S.step ⟨hx, hlent⟩ hs) hb
      exact ⟨hends.mono (fun _ v hv => hw.trans hv) fun _ v hv hne => hw.trans (hv hne),
        fun m inv v hm => hw.trans (hmakes m inv v hm)⟩
    cases hs with
    | observe => exact ih he
    | remember => exact (ih he).of_memory rfl
    | define => exact (ih he).of_memory rfl
    | answered hr => exact (ends_iff.1 (hpasses hx he (ih he)).1).1 _ _ hr
    | @entered _ _ _ _ _ u m _ _ hm _ =>
      obtain rfl | he := List.mem_cons.1 he
      · exact (h.guards_pending hx hc.1 hp hK).of_memory rfl
      · exact ((hpasses hx he (ih he)).2 _ _ _ hm).of_memory rfl

end Confined

/-! ## Every tree of calls -/

/-- Storage that was there when its call began is as it was then, for the callers of those calls around
whose method has not returned. -/
def Spot.Untouched (x : Spot σ) (s : State) : Prop :=
  ∀ e ∈ x.around, ∀ c, e.Performs c → c.Pending (callAt e.depth) e.method e.inv e.called →
    c.world.state.Keeps (fun cell => c.Storage cell ∧ cell < c.world.state.memory.next) s

/-- Nothing is running when a bridge starts. -/
theorem World.runs_connect {config : Config} {registry : Registry} {side : ForeignSide σ} {memory : σ}
    {w : World σ} (h : World.connect config registry side memory = .ok w) : w.state.Runs [] := by
  obtain ⟨helpers, rfl⟩ := World.started_of_connect h
  exact ⟨rfl, fun _ => rfl, nofun⟩

open Classical in
/-- Calls within calls, at every spot of a session. The depth of each function is the number of its own
calls around the spot, and it is active if and only if there is one; whatever is asked for at the spot,
and however that ends, afterwards the depths are what they were. Where each nested call is given storage
of its own, no storage has been touched of those callers whose call has a method that has not returned;
and a nested call, however it ends, leaves alone the arguments and the storage of all calls around. -/
theorem nested_calls_apart {config : Config} {registry : Registry} {side : ForeignSide σ}
    {memory : σ} {start : World σ} {ps : List (Nat × Program σ)}
    (hstart : World.connect config registry side memory = .ok start) {x : Spot σ}
    (hx : Along start ps x) :
    (∀ key, x.world.state.depthOf key = x.around.countP fun e => e.Calls key) ∧
    (∀ key r, x.world.state.redirector? key = some r →
      (r.phase = .active ↔ 0 < x.around.countP fun e => e.Calls key)) ∧
    (∀ q next, x.program = .ask q next →
      Ends (q.perform (callAt x.depth) x.world)
        (fun _ v => ∀ key, v.state.depthOf key = x.world.state.depthOf key)
        fun f v => f ≠ .exhausted → ∀ key, v.state.depthOf key = x.world.state.depthOf key) ∧
    (Confined start ps → x.Untouched x.world.state ∧
      ∀ q next, x.program = .ask q next → q.situation = .redirected →
        Ends (q.perform (callAt x.depth) x.world)
          (fun _ v => x.Untouched v.state ∧ x.world.state.Keeps
            (fun cell => x.Held cell ∧ cell < x.world.state.memory.next) v.state)
          fun f v => f ≠ .exhausted → x.Untouched v.state ∧ x.world.state.Keeps
            (fun cell => x.Held cell ∧ cell < x.world.state.memory.next) v.state) := by
  obtain ⟨o, ho, hstacked⟩ := runs_along (World.runs_connect hstart) hx
  refine ⟨fun key => ?_, fun key r hr => ?_, fun q next _ => ?_, fun hown => ?_⟩
  · rw [hstacked.countP_eq key]
    exact ho.depth key
  · rw [hstacked.countP_eq key]
    exact ho.phase_eq_active hr
  · have hends := Realm.performed (R := runsRealm) (Realm.respected _ x.depth) (r := q) trivial
      (o := o) trivial ho
    have hsame {v : World σ} (hv : v.state.Runs (Owed.functions o)) (key : Redirector.Key) :
        v.state.depthOf key = x.world.state.depthOf key := (hv.depth key).trans (ho.depth key).symm
    exact hends.mono (fun _ v hv => hsame hv) fun _ v hv hne => hsame (hv hne)
  -- Storage of a caller that is there when the call begins.
  have huntouched {e : Enclosing σ} (he : e ∈ x.around) {c : RedirectedCall σ} (hc : e.Performs c)
      (hp : c.Pending (callAt e.depth) e.method e.inv e.called) :
      x.world.Guards (fun cell => c.Storage cell ∧ cell < c.world.state.memory.next) c.world.state [] :=
    hown.guards_along hx he hc hp fun cell hcell => hcell
  refine ⟨fun e he c hc hp => (huntouched he hc hp).keeps, fun q next hprogram hq => ?_⟩
  obtain ⟨n, es, p, w⟩ := x
  obtain rfl : p = .ask q next := hprogram
  have hends := hown.ends_nested hx hq
    (K := fun cell => Spot.Held ⟨n, es, .ask q next, w⟩ cell ∧ cell < w.state.memory.next)
    (fun cell hcell => hcell.2) fun cell hcell => hcell.1
  have hdone {v : World σ} (hv : v.Guards (fun cell => Spot.Held ⟨n, es, .ask q next, w⟩ cell ∧
      cell < w.state.memory.next) w.state []) : Spot.Untouched ⟨n, es, .ask q next, w⟩ v.state := by
    intro e he c hc hp
    have hw := huntouched he hc hp
    refine hw.keeps.trans (hv.keeps.mono fun cell hcell => ⟨.inr ⟨e, he, c, hc, hcell.1⟩, ?_⟩)
    exact hw.below cell hcell
  exact hends.mono (fun _ v hv => ⟨hdone hv, hv.keeps⟩) fun _ v hv hne =>
    ⟨hdone (hv hne), (hv hne).keeps⟩

/-! ## Calls within a call and within what comes after it -/

namespace Sample

/-- Names no place to write to, and nor do the bodies that are defined. -/
def Unwriting : Program σ → Prop
  | .done _ => True
  | .throw _ => True
  | .panic _ => True
  | .observe next => ∀ s memory, Unwriting (next s memory)
  | .remember _ next => Unwriting next
  | .define _ body next => (∀ inv, Unwriting (body inv)) ∧ ∀ m, Unwriting (next m)
  | .ask r next => (∀ a, ¬r.Writes a) ∧ ∀ reply, Unwriting (next reply)

/-- Where no body names a place to write to, none ever does. -/
def unwritingRealm : Realm σ where
  mayAsk _ := True
  tame := Unwriting
  enters _ _ := True
  ready _ := True
  holds _ w := ∀ body ∈ w.bodies, ∀ inv, Unwriting (body inv)
  ready_nil := trivial
  ready_cons _ _ := trivial
  hold _ := trivial
  observe h := h
  remember h := h
  define h := h.2
  ask h := ⟨trivial, h.2⟩
  change h _ := h
  remembered _ h := h
  defined h hw := List.forall_mem_append.2 ⟨hw, List.forall_mem_singleton.2 h.1⟩
  unknown h _ _ := h
  entered h _ hb _ := ⟨h _ (List.mem_of_getElem? hb) _, trivial, h, fun _ hv => hv⟩
  stock _ _ _ he := absurd trivial he

/-- Where only the host names places, and nothing else is running then, calls are given storage of
their own. -/
theorem confined_of_unwriting {start : World σ} {n : Nat} {p : Program σ} {r : Request}
    (hstart : start.state.Runs []) (hbodies : ∀ body ∈ start.bodies, ∀ inv, Unwriting (body inv))
    (hp : Unwriting p) : Confined start [(n, p), (n, .ask r fun _ => .done none)] := by
  have hspots (x : Spot σ) (hx : Along start [(n, p), (n, .ask r fun _ => .done none)] x) :
      (unwritingRealm.holds [] x.world : Prop) ∧
        (Unwriting x.program ∨ x.around = [] ∧ x.program = .ask r fun _ => .done none) := by
    induction hx with
    | begins h hps =>
      obtain ⟨hok, herr⟩ := ends_iff.1 (unwritingRealm.run (n := n) hp (o := []) trivial hbodies)
      obtain ⟨heq, rfl⟩ | ⟨heq, ⟨a, hr⟩ | ⟨f, hf, hr⟩⟩ := h.of_pair hps <;> cases heq
      · exact ⟨hbodies, .inl hp⟩
      · exact ⟨hok _ _ hr, .inr ⟨rfl, rfl⟩⟩
      · exact ⟨herr _ _ hr hf, .inr ⟨rfl, rfl⟩⟩
    | @step y z _ hs ih =>
      obtain ⟨hw, hprogram⟩ := ih
      cases hs with
      | observe => exact ⟨hw, hprogram.imp (fun h => h _ _) fun h => nomatch h.2⟩
      | remember => exact ⟨hw, hprogram.imp id fun h => nomatch h.2⟩
      | define =>
        obtain h | h := hprogram
        · exact ⟨List.forall_mem_append.2 ⟨hw, List.forall_mem_singleton.2 h.1⟩, .inl (h.2 _)⟩
        · cases h.2
      | @answered n _ q _ _ _ _ hr =>
        have hends := unwritingRealm.performed (unwritingRealm.respected n) (r := q) (o := [])
          trivial trivial hw
        refine ⟨(ends_iff.1 hends).1 _ _ hr, .inl ?_⟩
        obtain h | ⟨-, h⟩ := hprogram
        · exact h.2 _
        · cases h
          trivial
      | @entered n _ q _ _ _ _ _ _ hm hb =>
        obtain ⟨_, _, _, -, -, hu, -⟩ := unwritingRealm.made (unwritingRealm.respected (n + 1))
          (r := q) (o := []) trivial trivial hw hm
        exact ⟨hu, .inl (hu _ (List.mem_of_getElem? hb) _)⟩
  intro n' es q next w hx
  obtain ⟨-, h | ⟨haround, -⟩⟩ := hspots _ hx
  · exact ⟨fun a ha => absurd ha (h.1 a), fun _ a ha => absurd ha (h.1 a)⟩
  -- The host asks for it: no call is around, so there are no frames.
  obtain rfl : es = [] := haround
  obtain ⟨o, ho, hstacked⟩ := runs_along hstart hx
  have hframes : w.state.frameCells = [] := by
    have hnone : w.state.bridge.frames.map CallFrame.function = [] := by
      rw [show w.state.bridge.frames.map CallFrame.function = _ from ho.frames]
      generalize Owed.functions o = keys at hstacked
      cases hstacked
      rfl
    unfold State.frameCells
    rw [List.map_eq_nil_iff.1 hnone]
    rfl
  have hheld (cell : Nat) : ¬Spot.Held ⟨n', [], .ask q next, w⟩ cell := by
    rintro (⟨cells, hcells, -⟩ | ⟨e, he, -⟩)
    · have hcells : cells ∈ w.state.frameCells := hcells
      rw [hframes] at hcells
      cases hcells
    · cases he
  refine ⟨fun a _ c _ _ hc => hheld c (hc.imp ?_ id), fun _ a _ c _ _ hc => hheld c hc⟩
  exact fun ⟨cells, hcells, hcell⟩ => ⟨cells, List.mem_of_mem_tail hcells, hcell⟩

end Sample

/-! ## A call within two others -/

namespace Sample

def pair : StructInfo := ⟨"Pair", "G", ⟨4, 4⟩⟩

/-- A function that gives back a number and a pair. -/
def split : Redirector where
  function := ⟨"T", "Split", ⟨true, true, true, false⟩,
    [⟨"Count", .scalar .int32, 4, 4, 0, ⟨true, true, false, true, false⟩⟩,
      ⟨"Rest", .struct pair, 4, 4, 4, ⟨true, true, false, true, false⟩⟩], ⟨8, 4⟩⟩
  method := ⟨"G", ⟨"", "T", "Split", some ["int&", "Pair&"]⟩,
    [⟨"Count", true, false⟩, ⟨"Rest", true, false⟩]⟩
  binding := .unbound
  depth := 0

def nested : Redirector where
  function := ⟨"T", "Nested", ⟨true, true, false, false⟩, [], ⟨0, 1⟩⟩
  method := ⟨"G", ⟨"", "T", "Nested", some []⟩, []⟩
  binding := .unbound
  depth := 0

def nestedMethods : List MethodInfo :=
  [⟨"G", ⟨"", "Pair", "FromNative", some ["intptr", "int"]⟩, 2, 0⟩,
    ⟨"G", ⟨"", "Pair", "ToNative", some ["intptr", "int", "Pair&"]⟩, 3, 0⟩,
    ⟨"G", ⟨"", "T", "Nested", some []⟩, 0, 0⟩,
    ⟨"G", ⟨"", "T", "Split", some ["int&", "Pair&"]⟩, 2, 0⟩]

def nests : Request := .invoke ("T", "Nested") none (.ofArgs []) none

/-- Makes the nested call. -/
def nesting : Program Unit := .ask nests fun _ => .done none

/-- The nested call is made where a pair is written back, and in the method that gives it back. -/
def nestedBodies : List (Invocation → Program Unit) :=
  List.replicate 14 (fun _ => .done none) ++
    [fun _ => .ask (.allocate (.boxed (List.replicate 8 (.value 0)) 4)) fun box => .done (some box),
      fun _ => nesting, fun _ => .done none, fun _ => nesting]

def nestedStart : World Unit := world nestedMethods nestedBodies

/-- Registers both functions, with storage for the outputs. -/
def setting : Program Unit :=
  .ask (.redirect split.function split.method) fun _ =>
  .ask (.redirect nested.function nested.method) fun _ =>
  .ask (.allot (.plain [.value 5, .value 0, .value 0, .value 0])) fun _ =>
  .ask (.allot (.plain (List.replicate 4 (.value 5)))) fun _ => .done none

def splits : Request := .invoke ("T", "Split") none (.ofArgs [⟨0, true⟩, ⟨1, true⟩]) none

def splitting : List (Nat × Program Unit) := [(2, setting), (2, .ask splits fun _ => .done none)]

/-- The caller's storage for the number. -/
def count (w : World Unit) : Option Value := w.state.memory.cells.get? 0

/-- Calls of the method `m` are given up where the caller's number is so. -/
def without (m : Nat) (number : Option Value) : Invoker Unit := fun m' inv v =>
  if m' = m ∧ count v = number then .error .exhausted v else callAt 2 m' inv v

/-- Whether the outer call ends, not abandoned. -/
def ends (call : Invoker Unit) (w : World Unit) : Bool :=
  match splits.perform call w with
  | .ok _ _ => true
  | .error _ _ => false

def numberBefore : Option Value := some (.plain [.value 5, .value 0, .value 0, .value 0])

def numberGiven : Option Value := some (.plain [.value 0, .value 0, .value 0, .value 0])

/-- There is storage for the outputs, and the call needs both of the calls in which the nested ones
are made: that of its method, with the number as it was, and that of the pair's, with the number
given back. -/
def isSet (w : World Unit) : Bool :=
  w.state.memory.next == 2 && count w == numberBefore && ends (callAt 2) w &&
    !ends (without 17 numberBefore) w && !ends (without 15 numberGiven) w

theorem run_setting : endsIn 2 setting nestedStart isSet = true := by
  decide +kernel

theorem exists_setting : ∃ a w, setting.run (callAt 2) nestedStart = .ok a w ∧
    w.state.memory.next = 2 ∧ count w = numberBefore ∧ ends (callAt 2) w ∧
      ends (without 17 numberBefore) w = false ∧ ends (without 15 numberGiven) w = false := by
  obtain ⟨w, a, hr, -, hrun⟩ := sees_of_endsIn run_setting
  simp only [isSet, Bool.and_eq_true, Bool.not_eq_true', beq_iff_eq] at hrun
  obtain ⟨⟨⟨⟨hnext, hcount⟩, hends⟩, hmethod⟩, hpair⟩ := hrun
  exact ⟨a, w, hr, hnext, hcount, hends, hmethod, hpair⟩

/-- What the call cannot do without it comes to. -/
theorem comes_of_without {w : World Unit} {m : Nat} {number : Option Value}
    (hends : ends (callAt 2) w) (hwithout : ends (without m number) w = false) :
    ∃ (inv : Invocation) (v : World Unit), count v = number ∧
      Act.Comes (callAt 2) splits.perform w (Act.callMethod m inv.receiver inv.args) v := by
  apply Classical.byContradiction
  intro hnone
  have hsame : splits.perform (without m number) w = splits.perform (callAt 2) w := by
    refine splits.only_comes 2 w _ fun m' inv v hcomes => if_neg ?_
    rintro ⟨rfl, hcount⟩
    exact hnone ⟨inv, v, hcount, hcomes⟩
  unfold ends at hends hwithout
  rw [hsame] at hwithout
  rw [hwithout] at hends
  cases hends

theorem unwriting_nesting : Unwriting nesting := by
  refine ⟨fun a ha => ?_, fun _ => trivial⟩
  obtain ⟨arg, harg, -⟩ | hresult := ha
  · cases harg
  · cases hresult

theorem confined_splitting : Confined nestedStart splitting := by
  refine confined_of_unwriting (World.runs_connect (connect_world _ _)) ?_ ?_
  · intro body hbody inv
    have hbody : body ∈ nestedBodies := hbody
    unfold nestedBodies at hbody
    simp only [List.mem_append, List.mem_replicate, List.mem_cons, List.not_mem_nil, or_false] at hbody
    obtain ⟨-, rfl⟩ | rfl | rfl | rfl | rfl := hbody
    · trivial
    · exact ⟨fun _ h => h.elim, fun _ => trivial⟩
    · exact unwriting_nesting
    · trivial
    · exact unwriting_nesting
  · exact ⟨fun _ h => h.elim, fun _ => ⟨fun _ h => h.elim, fun _ => ⟨fun _ h => h.elim, fun _ =>
      ⟨fun _ h => h.elim, fun _ => trivial⟩⟩⟩⟩

theorem issues_splits {w : World Unit} {c : RedirectedCall Unit}
    (h : splits.Issues (callAt 2) w c) :
    c.key = ("T", "Split") ∧ (∃ arg ∈ c.stack.args, arg.cell = 0) ∧ c.world = w := by
  obtain ⟨key, r, target, stack, result, u⟩ := c
  unfold splits at h
  change Request.Redirects _ w _ key r target stack result u at h
  cases h with
  | invoke hr => exact ⟨rfl, ⟨⟨0, true⟩, List.mem_cons_self, rfl⟩, rfl⟩

/-- The spot where a nested call is made, in the body of the method `m`. -/
theorem along_nesting {w : World Unit} {a : Except ForeignException (Option Address)}
    (hrun : setting.run (callAt 2) nestedStart = .ok a w) {m : Nat} {inv : Invocation}
    {v : World Unit} (hbody : nestedBodies[m]? = some fun _ => nesting)
    (hcomes : Act.Comes (callAt 2) splits.perform w (Act.callMethod m inv.receiver inv.args) v) :
    Along nestedStart splitting ⟨1, [⟨splits, w, 2, m, inv, v⟩], nesting, v.countCall m⟩ ∧
      v.bodies[m]? = some (fun _ => nesting) ∧ w.state.Grows v.state := by
  obtain ⟨_, _, _, -, -, ⟨hbodies, hgrows⟩, -⟩ := Realm.made (R := lastingRealm w)
    (Realm.respected _ 2) trivial (o := []) trivial ⟨List.prefix_refl _, .refl _⟩ hcomes.makes
  have hv : v.bodies[m]? = some fun _ => nesting := by
    obtain ⟨more, hmore⟩ := (bodies_of_run hrun).trans hbodies
    rw [← hmore, ← hbody]
    exact List.getElem?_append_left (List.getElem?_eq_some_iff.1 hbody).1
  have hbegins : Along nestedStart splitting ⟨2, [], .ask splits fun _ => .done none, w⟩ :=
    .begins (.ended .start hrun) (List.prefix_refl _)
  exact ⟨hbegins.step (.entered hcomes.makes hv), hv, hgrows⟩

end Sample

/-- `nested_calls_apart` for a call whose method makes another: that leaves the storage of the caller
as it was, and the arguments of the outer call. -/
theorem nested_calls_apart_of_split : ∃ x : Spot Unit,
    Along Sample.nestedStart Sample.splitting x ∧ Confined Sample.nestedStart Sample.splitting ∧
      x.program = Sample.nesting ∧ x.world.state.depthOf ("T", "Split") = 1 ∧
      x.Lent 0 ∧ Sample.count x.world = Sample.numberBefore ∧ x.Untouched x.world.state ∧
      Ends (Sample.nests.perform (callAt x.depth) x.world)
        (fun _ v => x.Untouched v.state ∧ x.world.state.Keeps
          (fun cell => x.Held cell ∧ cell < x.world.state.memory.next) v.state)
        fun f v => f ≠ .exhausted → x.Untouched v.state ∧ x.world.state.Keeps
          (fun cell => x.Held cell ∧ cell < x.world.state.memory.next) v.state := by
  obtain ⟨a, w, hrun, -, -, hends, hmethod, -⟩ := Sample.exists_setting
  obtain ⟨inv, v, hv, hcomes⟩ := Sample.comes_of_without hends hmethod
  obtain ⟨hx, -, -⟩ := Sample.along_nesting hrun rfl hcomes
  obtain ⟨hdepth, -, -, hown⟩ := nested_calls_apart (Sample.connect_world _ _) hx
  obtain ⟨huntouched, hkeeps⟩ := hown Sample.confined_splitting
  obtain ⟨c, hissues, hmakes⟩ := Request.issues_of_makes rfl hcomes.makes
  obtain ⟨hkey, hstorage, -⟩ := Sample.issues_splits hissues
  refine ⟨_, hx, Sample.confined_splitting, rfl, ?_, ?_, hv, huntouched, hkeeps _ _ rfl rfl⟩
  · rw [hdepth]
    refine List.countP_eq_length.2 (List.forall_mem_singleton.2 ?_)
    exact @decide_eq_true _ (Classical.propDecidable _) ⟨c, ⟨hissues, hmakes⟩, hkey⟩
  · exact ⟨_, List.mem_singleton_self _, c, ⟨hissues, hmakes⟩, .inl hstorage⟩

/-- A nested call may find storage of a caller around it written to: a pair is written back by a
method, and when that makes the call the outputs before it have been written already. -/
theorem not_unwritten_nested : ¬∀ (config : Config) (registry : Registry) (side : ForeignSide Unit)
    (start : World Unit) (ps : List (Nat × Program Unit)),
    World.connect config registry side () = .ok start → Confined start ps → ∀ x : Spot Unit,
      Along start ps x → ∀ q next, x.program = .ask q next → q.situation = .redirected →
        ∀ e ∈ x.around, ∀ c, e.Performs c →
          Ends (q.perform (callAt x.depth) x.world)
            (fun _ v => c.world.state.Keeps
              (fun cell => c.Storage cell ∧ cell < c.world.state.memory.next) v.state)
            fun f v => f ≠ .exhausted → c.world.state.Keeps
              (fun cell => c.Storage cell ∧ cell < c.world.state.memory.next) v.state := by
  intro hall
  obtain ⟨a, w, hrun, hnext, hcount, hends, -, hpair⟩ := Sample.exists_setting
  obtain ⟨inv, v, hv, hcomes⟩ := Sample.comes_of_without hends hpair
  obtain ⟨hx, hbody, hgrows⟩ := Sample.along_nesting hrun rfl hcomes
  obtain ⟨c, hissues, hmakes⟩ := Request.issues_of_makes rfl hcomes.makes
  obtain ⟨-, hstorage, hworld⟩ := Sample.issues_splits hissues
  have hbelow : 0 < w.state.memory.next := by omega
  -- The nested call leaves the number as it finds it, which is not as the caller had left it.
  have hkeeps := Sample.confined_splitting.ends_nested hx rfl (K := (· = 0))
    (fun cell hcell => by rw [hcell]; exact Nat.lt_of_lt_of_le hbelow hgrows.next)
    fun cell hcell => by
      rw [hcell]
      exact .inr ⟨_, List.mem_singleton_self _, c, ⟨hissues, hmakes⟩, .inl hstorage⟩
  have hkept := hall _ _ _ _ _ (Sample.connect_world _ _) Sample.confined_splitting _ hx _ _ rfl rfl
    _ (List.mem_singleton_self _) c ⟨hissues, hmakes⟩
  rw [hworld] at hkept
  have habsurd {u : World Unit} (hu : u.Guards (· = 0) (v.countCall 15).state [])
      (hu' : w.state.Keeps (fun cell => c.Storage cell ∧ cell < w.state.memory.next) u.state) :
      False := by
    have hbefore : Sample.count u = Sample.numberBefore :=
      (hu' 0 ⟨.inl hstorage, hbelow⟩).trans hcount
    cases hbefore.symm.trans ((hu.keeps 0 rfl).trans hv)
  dsimp only [Spot.depth, Spot.world] at hkept hkeeps
  -- Else the outer call were given up as well.
  have hcalled {u : World Unit} :
      Sample.nests.perform (callAt 1) (v.countCall 15) ≠ .error .exhausted u := by
    intro hnested
    have hpairs : callAt 2 15 inv v = .error .exhausted u := by
      rw [callAt_succ, hbody]
      show Sample.nesting.run (callAt 1) (v.countCall 15) = _
      rw [Sample.nesting, run_ask, hnested]
    have hsame : (callAt 2 : Invoker Unit).Until .exhausted (callAt 2) := fun _ _ _ => .inl rfl
    obtain ⟨u', hu'⟩ := hcomes.failedWith Failure.isFatal_exhausted hsame ⟨u, hpairs⟩
    rw [Sample.ends, hu'] at hends
    cases hends
  cases hnested : Sample.nests.perform (callAt 1) (v.countCall 15) with
  | ok reply u =>
    rw [hnested] at hkeeps hkept
    exact habsurd hkeeps hkept
  | error f u =>
    rw [hnested] at hkeeps hkept
    have hf : f ≠ .exhausted := by
      rintro rfl
      exact hcalled hnested
    exact habsurd (hkeeps hf) (hkept hf)

end TwinHeap
