import TwinHeap.Proofs.Bookkeeping

/-!
# Decided — linking is decided once and for ever

A redirector is bound when it is first linked or called, and what it is then bound to never changes.
`linking_decided` says so of every point of a session, and says what a link and a call do by what the
redirector is bound to: the books balance at every point, so no more is on record than these.
-/

namespace TwinHeap

variable {σ α β : Type}

/-! ## What lasts for a session -/

namespace Act

theorem map_of_ok {act : Act σ α} {call : Invoker σ} {w v : World σ} {a : α} (f : α → β)
    (h : act call w = .ok a v) : (f <$> act) call w = .ok (f a) v := by
  show EStateM.map f (act call) w = _
  unfold EStateM.map
  rw [h]

theorem map_of_error {act : Act σ α} {call : Invoker σ} {w v : World σ} {e : Failure} (f : α → β)
    (h : act call w = .error e v) : (f <$> act) call w = .error e v := by
  show EStateM.map f (act call) w = _
  unfold EStateM.map
  rw [h]

open Classical in
/-- An action that would keep a property if every call did keeps it if the calls do that the action
comes to; and it has the property where it comes to a call. -/
theorem ends_of_comes {act : Act σ α} {call : Invoker σ} {w : World σ} {P : World σ → Prop}
    (honly : act.OnlyCalls call w fun m (inv : Invocation) v =>
      Comes call act w (Act.callMethod m inv.receiver inv.args) v)
    (hact : ∀ call' : Invoker σ, (∀ m inv v, P v → Ends (call' m inv v) (fun _ u => P u)
      fun f u => f ≠ .exhausted → P u) →
      act.Meets call' w (fun _ _ v => P v) (fun _ v => P v) fun f v => f ≠ .exhausted → P v)
    (hcalls : ∀ m (inv : Invocation) v,
      Comes call act w (Act.callMethod m inv.receiver inv.args) v → P v →
      Ends (call m inv v) (fun _ u => P u) fun f u => f ≠ .exhausted → P u) :
    Ends (act call w) (fun _ v => P v) (fun f v => f ≠ .exhausted → P v) ∧
      ∀ m (inv : Invocation) v,
        Comes call act w (Act.callMethod m inv.receiver inv.args) v → P v := by
  -- All other calls fail.
  let limited (f : Failure) : Invoker σ := fun m inv v =>
    if Comes call act w (Act.callMethod m inv.receiver inv.args) v then call m inv v else .error f v
  have hsame (f : Failure) : act (limited f) w = act call w :=
    honly _ fun m inv v hcomes => if_pos hcomes
  have hkeeps (f : Failure) : act.Meets (limited f) w (fun _ _ v => P v) (fun _ v => P v)
      fun f v => f ≠ .exhausted → P v := by
    refine hact _ fun m inv v hv => ?_
    by_cases hcomes : Comes call act w (Act.callMethod m inv.receiver inv.args) v
    · rw [show limited f m inv v = call m inv v from if_pos hcomes]
      exact hcalls m inv v hcomes hv
    · rw [show limited f m inv v = .error f v from if_neg hcomes]
      exact fun _ => hv
  refine ⟨hsame .exhausted ▸ (hkeeps .exhausted).ends, fun m inv v hcomes => ?_⟩
  apply Classical.byContradiction
  intro hv
  -- Where the property does not hold a call does not matter, so the action would fail in any way.
  have hfails (f : Failure) (hf : f.IsFatal) : FailedWith f (act call w) := by
    have huntil : ((limited f).failing f m inv v).Until f call := by
      intro m' inv' v'
      by_cases heq : (m', inv', v') = (m, inv, v)
      · exact .inr ⟨v', if_pos heq⟩
      · rw [Invoker.failing_of_ne heq]
        by_cases hcomes' : Comes call act w (Act.callMethod m' inv'.receiver inv'.args) v'
        · exact .inl (if_pos hcomes')
        · exact .inr ⟨v', if_neg hcomes'⟩
    have hfail := hcomes.failedWith hf huntil ⟨v, Invoker.failing_self⟩
    rw [(hkeeps f).only _ fun m' inv' v' hv' => ?_, hsame] at hfail
    · exact hfail
    · refine Invoker.failing_of_ne ?_
      rintro ⟨⟩
      exact hv hv'
  obtain ⟨u, hu⟩ := hfails .exhausted Failure.isFatal_exhausted
  obtain ⟨u', hu'⟩ := hfails (.panic .frameAlignment) (Failure.isFatal_panic _)
  cases hu.symm.trans hu'

end Act

/-- A property of the books that every entry keeps, and that is not given up where something is
remembered in the session. -/
structure Lasting (start : World σ) (ps : List (Nat × Program σ)) (P : Books → σ → Prop) : Prop where
  lasts : Books.Lasts P
  noted : ∀ {n : Nat} {es : List (Enclosing σ)} {memory : σ} {next : Program σ} {w : World σ},
    Along start ps ⟨n, es, .remember memory next, w⟩ → w.Records P →
      World.Records { w with memory := memory } P

namespace Lasting

variable {start : World σ} {ps : List (Nat × Program σ)} {P : Books → σ → Prop}

/-- A request keeps the property, and has it where it comes to a call. -/
theorem performed (S : Lasting start ps P) {n : Nat} {es : List (Enclosing σ)} {r : Request}
    {next : r.Reply → Program σ} {w : World σ} (hx : Along start ps ⟨n, es, .ask r next, w⟩)
    (hw : w.Records P) (hrun : ∀ y : Spot σ, Along start ps y → y.depth < n → y.world.Records P →
      y.RunEnds fun v => v.Records P) :
    Ends (r.perform (callAt n) w) (fun _ v => v.Records P) (fun f v => f ≠ .exhausted → v.Records P) ∧
      ∀ m inv v, r.perform.Makes (callAt n) w m inv v → v.Records P := by
  have honly := r.only_comes n w
  obtain ⟨hends, hcomes⟩ := Act.ends_of_comes (P := fun v => v.Records P) honly
    (fun call' hc => r.perform_keeps S.lasts hc w hw) fun m inv v hcomes hv => by
      refine Spot.ends_call es next hcomes hv ?_
      rintro y hstep hlt - hworld
      exact hrun y (.step hx hstep) hlt (hworld ▸ hv)
  exact ⟨hends, fun m inv v hm => hcomes m inv v (honly.of_makes hm)⟩

/-- The rest of the run from a spot keeps the property. -/
theorem run (S : Lasting start ps P) {x : Spot σ} (hx : Along start ps x) (hw : x.world.Records P) :
    x.RunEnds fun v => v.Records P := by
  obtain ⟨n, es, p, w⟩ := x
  induction n using Nat.strongRecOn generalizing es p w with
  | _ n ih =>
  refine Spot.runEnds (I := fun y => Along start ps y ∧ y.world.Records P) ?_ ?_ ?_ ?_
    (fun h => h.2) ⟨hx, hw⟩
  · exact fun ⟨hy, hv⟩ => ⟨.step hy .observe, hv⟩
  · exact fun ⟨hy, hv⟩ => ⟨.step hy .remember, S.noted hy hv⟩
  · exact fun ⟨hy, hv⟩ => ⟨.step hy .define, hv⟩
  · rintro r next v ⟨hy, hv⟩
    obtain ⟨hends, -⟩ := S.performed hy hv fun z hz hlt => ih z.depth hlt z.around z.program z.world hz
    obtain ⟨hok, herr⟩ := ends_iff.1 hends
    exact ends_iff.2 ⟨fun reply u hu => ⟨.step hy (.answered hu), hok reply u hu⟩, herr⟩

/-- At every spot of the session the property holds. -/
theorem along (S : Lasting start ps P) (hstart : start.Records P) {x : Spot σ}
    (hx : Along start ps x) : x.world.Records P := by
  induction hx with
  | begins h hps =>
    exact h.ends ((List.prefix_append _ _).trans hps) hstart fun y hy _ hv => S.run hy hv
  | step hy hs ih =>
    cases hs with
    | observe => exact ih
    | remember => exact S.noted hy ih
    | define => exact ih
    | answered hr => exact (ends_iff.1 (S.performed hy ih fun z hz _ hv => S.run hz hv).1).1 _ _ hr
    | @entered _ _ _ _ w u _ _ _ hm _ =>
      have hu : u.Records P := (S.performed hy ih fun z hz _ hv => S.run hz hv).2 _ _ _ hm
      exact hu

end Lasting

/-! ## The balance of the books -/

/-- Linking was tried. -/
def Binding.isSettled : Binding → Bool
  | unbound => false
  | _ => true

namespace Books

/-- How many functions have been linked, or could not be. -/
def settled (b : Books) : Nat := b.bindings.values.countP Binding.isSettled

/-- Whatever is counted is in the journal as often, as far as a 64-bit count goes; and there is one
timing for each function that is settled, as far as the window goes, unless a failure to link could
not be counted. -/
structure Balanced (b : Books) : Prop where
  nodup : b.bindings.keys.Nodup
  calls : b.calls = min b.entered (wordModulus - 1)
  failures : b.failures = min b.refused (wordModulus - 1)
  timings : b.refused < wordModulus → b.timings = min b.settled windowSize

theorem bump_min (n : Nat) : bump (min n (wordModulus - 1)) = min (n + 1) (wordModulus - 1) := by
  unfold bump wordModulus
  split <;> omega

/-- One more function is settled, for good. -/
theorem settled_settle {b : Books} (hnodup : b.bindings.keys.Nodup) {key : Redirector.Key}
    (h : b.bindings.get? key = some .unbound) {c : Binding} (hc : c.isSettled = true) :
    (b.settle key c).settled = b.settled + 1 := by
  unfold settled settle
  rw [(Table.values_modify_perm hnodup h _).countP_eq, (Table.values_perm_erase hnodup h).countP_eq,
    List.countP_cons_of_pos hc, List.countP_cons_of_neg (by simp [Binding.isSettled])]

/-- A function that is registered is not settled yet. -/
theorem settled_insert {b : Books} (hnodup : b.bindings.keys.Nodup) {key : Redirector.Key}
    (h : b.bindings.get? key = none) :
    { b with bindings := b.bindings.insert key .unbound }.settled = b.settled := by
  unfold settled
  dsimp only
  rw [(Table.values_insert_perm hnodup key _).countP_eq,
    List.countP_cons_of_neg (by simp [Binding.isSettled]),
    Table.erase_of_get?_none h]

theorem min_time {timings n : Nat} (h : timings = min n windowSize) :
    (if timings = windowSize then windowSize else timings + 1) = min (n + 1) windowSize := by
  subst h
  split <;> omega

theorem Balanced.step {b b' : Books} (h : b.Balanced) (hs : b.Step b') : b'.Balanced := by
  have hrefused : bump b.failures = min (b.refused + 1) (wordModulus - 1) := by
    rw [h.failures]
    exact bump_min _
  have hkeys (key : Redirector.Key) (c : Binding) :
      (b.bindings.modify key fun _ => c).keys.Nodup := by
    rw [Table.keys_modify]
    exact h.nodup
  cases hs with
  | refuse => exact ⟨h.nodup, h.calls, hrefused, fun hr => h.timings (Nat.lt_of_succ_lt hr)⟩
  | register hnone =>
    refine ⟨Table.nodup_keys_insert h.nodup _ _, h.calls, h.failures, fun hr => ?_⟩
    rw [settled_insert h.nodup hnone]
    exact h.timings hr
  | link hget l m =>
    refine ⟨hkeys _ _, h.calls, h.failures, fun hr => ?_⟩
    rw [settled_settle (b := b.time) h.nodup hget rfl]
    exact min_time (h.timings hr)
  | fail hget e =>
    refine ⟨hkeys _ _, h.calls, hrefused, fun hr => ?_⟩
    rw [settled_settle (b := b.time.refuse) h.nodup hget rfl]
    exact min_time (h.timings (Nat.lt_of_succ_lt hr))
  | overflow hget hfull =>
    refine ⟨h.nodup, h.calls, hrefused, fun hr => ?_⟩
    have hcount := h.failures
    have hr : b.refused + 1 < wordModulus := hr
    omega
  | enter =>
    refine ⟨h.nodup, ?_, h.failures, h.timings⟩
    show bump b.calls = min (b.entered + 1) (wordModulus - 1)
    rw [h.calls]
    exact bump_min _

/-- What a function is bound to stays so. -/
theorem Step.get? {b b' : Books} (hs : b.Step b') {key : Redirector.Key} {c : Binding}
    (hc : c.isSettled = true) (h : b.bindings.get? key = some c) : b'.bindings.get? key = some c := by
  have hother {key' : Redirector.Key} (hget : b.bindings.get? key' = some .unbound) (d : Binding) :
      (b.bindings.modify key' fun _ => d).get? key = some c := by
    rw [Table.get?_modify, if_neg ?_, h]
    rintro rfl
    cases h.symm.trans hget
    cases hc
  cases hs with
  | refuse | overflow | enter => exact h
  | @register key' hnone =>
    show (b.bindings.insert key' .unbound).get? key = _
    rw [Table.get?_insert, if_neg ?_, h]
    rintro rfl
    cases h.symm.trans hnone
  | link hget l m => exact hother hget _
  | fail hget e => exact hother hget _

end Books

/-! ## What is asked of a function -/

/-- What a function is bound to. -/
def State.IsBound (s : State) (key : Redirector.Key) (c : Binding) : Prop :=
  ∃ r, s.redirector? key = some r ∧ r.binding = c

theorem State.isBound_iff {s : State} {key : Redirector.Key} {c : Binding} :
    s.IsBound key c ↔ s.books.bindings.get? key = some c := by
  unfold books IsBound
  rw [Table.get?_mapValues, Option.map_eq_some_iff]
  rfl

namespace Redirection

variable {key : Redirector.Key} {r : Redirector} {call : Invoker σ} {w v : World σ}

/-- Who asks for the function is told that it could not be linked, and nothing happens: no argument is
taken, no foreign code runs, nothing is counted. -/
def Refuses (key : Redirector.Key) (e : LinkError) (w : World σ) : Prop :=
  ∀ call : Invoker σ, (Request.link key).perform call w = .ok (some (.error e)) w ∧
    ∀ target stack result, (Request.invoke key target stack result).perform call w =
      .ok (some (.error (.link e), stack)) w

/-- Who calls the function gets a call of this method, with this linkage, from `v` on; and as far as
foreign code does not count calls itself, one more call is counted, however the call ends. -/
def Calls (key : Redirector.Key) (r : Redirector) (l : Linkage) (m : Nat) (w v : World σ) : Prop :=
  ∀ (call : Invoker σ) target stack result,
    (Request.invoke key target stack result).perform call w =
      (some <$> serve key r l m target stack result) call v ∧
    (call.Keeps (fun b _ => b.calls = bump w.state.books.calls) →
      Ends ((Request.invoke key target stack result).perform call w)
        (fun _ u => u.state.books.calls = bump w.state.books.calls)
        fun f u => f ≠ .exhausted → u.state.books.calls = bump w.state.books.calls)

def Serves (key : Redirector.Key) (r : Redirector) (l : Linkage) (m : Nat) (w : World σ) : Prop :=
  (∀ call : Invoker σ, (Request.link key).perform call w = .ok (some (.ok ())) w) ∧
    Calls key r l m w w

/-- Who asks for the function has it linked. The attempt is timed; it binds the function, or is
reported and counted and then remembered. It calls no foreign code and changes no storage. Only a
failure that a 64-bit count cannot count any more is not remembered. -/
def Decides (key : Redirector.Key) (r : Redirector) (w : World σ) : Prop :=
  ∃ v : World σ, v.state.memory = w.state.memory ∧ v.state.foreign = w.state.foreign ∧
    ((∃ l m, v.state.books = w.state.books.time.settle key (.linked l m) ∧
        (∀ call : Invoker σ, (Request.link key).perform call w = .ok (some (.ok ())) v) ∧
        Calls key r l m w v) ∨
      (∃ e, w.state.books.failures + 1 < wordModulus ∧
        v.state.books = w.state.books.time.refuse.settle key (.failed e) ∧
        ∀ call : Invoker σ, (Request.link key).perform call w = .ok (some (.error e)) v ∧
          ∀ target stack result, (Request.invoke key target stack result).perform call w =
            .ok (some (.error (.link e), stack)) v) ∨
      ∃ o, wordModulus ≤ w.state.books.failures + 1 ∧ v.state.books = w.state.books.time.refuse ∧
        ∀ call : Invoker σ, (Request.link key).perform call w = .error (.panic (.overflow o)) v ∧
          ∀ target stack result, (Request.invoke key target stack result).perform call w =
            .error (.panic (.overflow o)) v)

/-- A request that asks for a function begins with linking it. -/
theorem perform_link (hr : w.state.redirector? key = some r) :
    (Request.link key).perform call w = (some <$> link key r) call w := by
  unfold Request.perform
  dsimp only
  rw [Act.state_bind, hr]
  rfl

theorem perform_invoke (hr : w.state.redirector? key = some r) (target : Option Address)
    (stack : ArgStack) (result : Option Address) :
    (Request.invoke key target stack result).perform call w =
      (some <$> invoke key r target stack result) call w := by
  unfold Request.perform
  dsimp only
  rw [Act.state_bind, hr]
  rfl

/-- What follows linking, where linking fails. -/
theorem perform_of_refused (hr : w.state.redirector? key = some r) {e : LinkError}
    (h : (linked key r : Act σ _) call w = .ok (.error e) v) :
    (Request.link key).perform call w = .ok (some (.error e)) v ∧
      ∀ target stack result, (Request.invoke key target stack result).perform call w =
        .ok (some (.error (.link e), stack)) v := by
  refine ⟨?_, fun target stack result => ?_⟩
  · rw [perform_link hr]
    have hlink : (link key r : Act σ _) call w = .ok (.error e) v := Act.bind_of_ok h
    exact Act.map_of_ok some hlink
  · rw [perform_invoke hr]
    have hinvoke : (invoke key r target stack result : Act σ _) call w =
        .ok (.error (.link e), stack) v := by
      rw [invoke_eq, Act.bind_of_ok h]
      rfl
    exact Act.map_of_ok some hinvoke

theorem perform_of_abandoned (hr : w.state.redirector? key = some r) {f : Failure}
    (h : (linked key r : Act σ _) call w = .error f v) :
    (Request.link key).perform call w = .error f v ∧
      ∀ target stack result, (Request.invoke key target stack result).perform call w =
        .error f v := by
  refine ⟨?_, fun target stack result => ?_⟩
  · rw [perform_link hr]
    have hlink : (link key r : Act σ _) call w = .error f v := Act.bind_of_error h
    exact Act.map_of_error some hlink
  · rw [perform_invoke hr]
    have hinvoke : (invoke key r target stack result : Act σ _) call w = .error f v := by
      rw [invoke_eq, Act.bind_of_error h]
    exact Act.map_of_error some hinvoke

/-- What follows linking, where the function is linked in the end. -/
theorem calls_of_linked (hr : w.state.redirector? key = some r) {l : Linkage} {m : Nat}
    (h : ∀ call : Invoker σ, (linked key r : Act σ _) call w = .ok (.ok (l, m)) v)
    (hcalls : v.state.books.calls = w.state.books.calls) :
    (∀ call : Invoker σ, (Request.link key).perform call w = .ok (some (.ok ())) v) ∧
      Calls key r l m w v := by
  refine ⟨fun call => ?_, fun call target stack result => ?_⟩
  · rw [perform_link hr]
    have hlink : (link key r : Act σ _) call w = .ok (.ok ()) v := Act.bind_of_ok (h call)
    exact Act.map_of_ok some hlink
  have heq : (Request.invoke key target stack result).perform call w =
      (some <$> serve key r l m target stack result) call v := by
    have hinvoke : (invoke key r target stack result : Act σ _) call w =
        serve key r l m target stack result call v := by
      rw [invoke_eq, Act.bind_of_ok (h call)]
      rfl
    rw [perform_invoke hr]
    show EStateM.map some (invoke key r target stack result call) w =
      EStateM.map some (serve key r l m target stack result call) v
    unfold EStateM.map
    rw [hinvoke]
  refine ⟨heq, fun hc => ?_⟩
  -- The call is served as one that is linked already.
  have hserve := serve_yields hc (fun _ _ hb => hb) key r l m target stack result (w := v)
    (show bump v.state.books.calls = _ by rw [hcalls])
  rw [heq]
  cases hr' : serve key r l m target stack result call v with
  | ok a u =>
    rw [Act.map_of_ok some hr']
    exact hserve.ok a u hr'
  | error f u =>
    rw [Act.map_of_error some hr']
    exact hserve.err f u hr'

/-- What a function is bound to decides what is done for who asks for it. -/
theorem refuses_of_failed (hr : w.state.redirector? key = some r) {e : LinkError}
    (h : r.binding = .failed e) : Refuses key e w :=
  fun _ => perform_of_refused hr (linked_of_failed h)

theorem serves_of_linked (hr : w.state.redirector? key = some r) {l : Linkage} {m : Nat}
    (h : r.binding = .linked l m) : Serves key r l m w :=
  calls_of_linked hr (fun _ => linked_of_linked h) rfl

theorem decides_of_unbound (hr : w.state.redirector? key = some r) (h : r.binding = .unbound) :
    Decides key r w := by
  cases hres : r.resolve w.state.bridge.registry w.state.foreign with
  | ok resolved =>
    obtain ⟨l, m⟩ := resolved
    refine ⟨_, ?_, ?_, .inl ⟨l, m, ?_,
      calls_of_linked hr (fun call => linked_of_resolved h hres) ?_⟩⟩
    · rfl
    · rfl
    · show (State.settle _ key _).books = _
      rw [State.books_settle, State.books_report _ rfl rfl, State.books_timed]
    · rfl
  | error e =>
    -- Linking has failed: it is settled only if it can be counted.
    cases hadd : w.state.timed.bridge.metrics.add Counter.linkFailures 1 with
    | ok metrics =>
      have hfits : w.state.timed.books.failures + 1 < wordModulus := Metrics.fits_of_add hadd
      rw [State.books_timed] at hfits
      refine ⟨_, ?_, ?_, .inr (.inl ⟨e, hfits, ?_, fun call =>
        perform_of_refused hr (linked_of_unresolved h hres hadd)⟩)⟩
      · rfl
      · rfl
      · show (State.settle _ key _).books = _
        rw [State.books_settle, State.books_refuse_of_ok hadd, State.books_timed]
    | error o =>
      have hfull : wordModulus ≤ w.state.timed.books.failures + 1 := Metrics.full_of_add hadd
      rw [State.books_timed] at hfull
      refine ⟨_, ?_, ?_, .inr (.inr ⟨o, hfull, ?_, fun call =>
        perform_of_abandoned hr (linked_of_uncounted h hres hadd)⟩)⟩
      · rfl
      · rfl
      · show (State.report _ _).books = _
        rw [State.books_refuse_of_error hadd, State.books_timed]

end Redirection

/-! ## Linking -/

/-- A bridge starts with nothing on record. -/
theorem World.balanced_connect {config : Config} {registry : Registry} {side : ForeignSide σ}
    {memory : σ} {w : World σ} (h : World.connect config registry side memory = .ok w) :
    w.state.books.Balanced := by
  obtain ⟨helpers, rfl⟩ := World.started_of_connect h
  exact ⟨.nil, rfl, rfl, fun _ => rfl⟩

/-- Linking is decided once and for ever. At every point of a session the books balance, and what a
function is bound to by then decides what is done for who asks for it: a function that is not bound
is linked now, and for one that is bound nothing is decided again. Once foreign code, or the host, has
noted what a function is bound to, it is bound to that wherever the note is found. -/
theorem linking_decided {config : Config} {registry : Registry} {side : ForeignSide σ} {memory : σ}
    {start : World σ} {ps : List (Nat × Program σ)} {noted : σ → Prop} {key : Redirector.Key}
    {c : Binding} (hstart : World.connect config registry side memory = .ok start)
    (hfresh : ¬noted memory) (hc : c.isSettled = true)
    (hnoted : ∀ {n es memory next} {w : World σ}, Along start ps ⟨n, es, .remember memory next, w⟩ →
      noted memory → noted w.memory ∨ w.state.IsBound key c)
    {x : Spot σ} (hx : Along start ps x) :
    x.world.state.books.Balanced ∧ (noted x.world.memory → x.world.state.IsBound key c) ∧
      ∀ key r, x.world.state.redirector? key = some r → match r.binding with
        | .unbound => Redirection.Decides key r x.world
        | .linked l m => Redirection.Serves key r l m x.world
        | .failed e => Redirection.Refuses key e x.world := by
  have hbalance : Lasting start ps fun b _ => b.Balanced :=
    ⟨fun _ _ _ hb hs => hb.step hs, fun _ hw => hw⟩
  have hbound : Lasting start ps fun b memory => noted memory → b.bindings.get? key = some c := by
    refine ⟨fun b b' memory hb hs hn => hs.get? hc (hb hn), fun {n es memory next w} hy hw hn => ?_⟩
    obtain hbefore | hbound := hnoted hy hn
    · exact hw hbefore
    · exact State.isBound_iff.1 hbound
  refine ⟨hbalance.along (World.balanced_connect hstart) hx, fun hn => ?_, fun key r hr => ?_⟩
  · refine State.isBound_iff.2 (hbound.along (fun hn => absurd ?_ hfresh) hx hn)
    rwa [(World.of_connect hstart).2.1] at hn
  · cases hb : r.binding with
    | unbound => exact Redirection.decides_of_unbound hr hb
    | linked l m => exact Redirection.serves_of_linked hr hb
    | failed e => exact Redirection.refuses_of_failed hr hb

/-! ## A method that comes too late -/

namespace Sample

def late : Redirector where
  function := ⟨"T", "Late", ⟨true, true, false, false⟩, [], ⟨0, 1⟩⟩
  method := ⟨"G", ⟨"", "T", "Late", some []⟩, []⟩
  binding := .unbound
  depth := 0

def lateSide : ForeignSide Bool := ⟨⟨.empty, .empty, library⟩, []⟩

/-- The method that the function needs. -/
def lateMethod : MethodInfo := ⟨"G", ⟨"", "T", "Late", some []⟩, 0, 0⟩

/-- Links the function before the method is defined. -/
def trying : Program Bool :=
  .ask (.redirect late.function late.method) fun _ =>
  .ask (.link ("T", "Late")) fun _ => .done none

/-- Notes that this has been tried, and defines the method. -/
def defining : Program Bool :=
  .remember true (.define lateMethod (fun _ => .done none) fun _ => .done none)

/-- The world once both are done. -/
def defined (w : World Bool) : World Bool :=
  { w with memory := true }.define lateMethod fun _ => .done none

/-- The function could not be linked, but it could be now. -/
def isLate (w : World Bool) : Bool :=
  w.state.redirector? ("T", "Late") ==
      some { late with binding := .failed (.missingMethod "G" "T:Late ()") } &&
    (late.resolve (defined w).state.bridge.registry (defined w).state.foreign).isOk

theorem run_trying : endsFrom lateSide false 0 trying isLate = true := by
  decide +kernel

/-- Remembers nothing itself. -/
def Forgets : Program σ → Prop
  | .done _ => True
  | .throw _ => True
  | .panic _ => True
  | .observe next => ∀ s memory, Forgets (next s memory)
  | .remember _ _ => False
  | .define _ _ next => ∀ m, Forgets (next m)
  | .ask _ next => ∀ reply, Forgets (next reply)

/-- Where no call gets through, all that is remembered is that linking has been tried. -/
theorem remembers_of_trying {start w v : World Bool} {a : Except ForeignException (Option Address)}
    (hr : trying.run (callAt 0) start = .ok a w) {n : Nat} {es : List (Enclosing Bool)}
    {memory : Bool} {next : Program Bool}
    (hx : Along start [(0, trying), (0, defining)] ⟨n, es, .remember memory next, v⟩) : v = w := by
  -- At depth 0 no method is entered, so the only program that remembers is the second one, where it
  -- begins.
  have hspots (x : Spot Bool) (hx : Along start [(0, trying), (0, defining)] x) :
      x.depth = 0 ∧ (Forgets x.program ∨ x.program = defining ∧ x.world = w) := by
    induction hx with
    | begins h hps =>
      obtain ⟨heq, -⟩ | ⟨heq, ⟨a', hr'⟩ | ⟨f, -, hr'⟩⟩ := h.of_pair hps
      · cases heq
        exact ⟨rfl, .inl fun _ _ => trivial⟩
      · cases heq
        rw [hr] at hr'
        cases hr'
        exact ⟨rfl, .inr ⟨rfl, rfl⟩⟩
      · rw [hr] at hr'
        cases hr'
    | step _ hs ih =>
      obtain ⟨hdepth, hforgets | ⟨heq, -⟩⟩ := ih
      · cases hs with
        | observe => exact ⟨hdepth, .inl (hforgets _ _)⟩
        | remember => exact hforgets.elim
        | define => exact ⟨hdepth, .inl (hforgets _)⟩
        | answered => exact ⟨hdepth, .inl (hforgets _)⟩
        | entered => cases hdepth
      · cases hs <;> cases heq
        exact ⟨hdepth, .inl fun _ => trivial⟩
  obtain ⟨-, hforgets | ⟨-, hw⟩⟩ := hspots _ hx
  · exact hforgets.elim
  · exact hw

end Sample

/-- `linking_decided` for a function whose method is defined after linking was tried: whoever asks
for it is still told that the method is missing. -/
theorem linking_decided_of_late : ∃ start w : World Bool,
    World.connect Sample.config .default Sample.lateSide false = .ok start ∧
      (∃ a, Sample.trying.run (callAt 0) start = .ok a w) ∧
      (Sample.late.resolve (Sample.defined w).state.bridge.registry
        (Sample.defined w).state.foreign).isOk ∧
      (Sample.defined w).state.IsBound ("T", "Late") (.failed (.missingMethod "G" "T:Late ()")) ∧
      Redirection.Refuses ("T", "Late") (.missingMethod "G" "T:Late ()") (Sample.defined w) := by
  obtain ⟨start, w, a, hstart, hr, -, hrun⟩ := Sample.sees_of_endsFrom Sample.run_trying
  obtain ⟨hlate, hlinkable⟩ := Bool.and_eq_true_iff.1 hrun
  have hbound := beq_iff_eq.1 hlate
  have hbegins : Along start [(0, Sample.trying), (0, Sample.defining)]
      ⟨0, [], Sample.defining, w⟩ := .begins (.ended .start hr) (List.prefix_refl _)
  have hdefined := (hbegins.step .remember).step .define
  obtain ⟨-, hkept, hdone⟩ := @linking_decided Bool _ _ _ _ _ _ (· = true) ("T", "Late")
    (.failed (.missingMethod "G" "T:Late ()")) hstart (by decide) rfl
    (fun hy _ => .inr ⟨_, Sample.remembers_of_trying hr hy ▸ hbound, rfl⟩) _ hdefined
  exact ⟨start, w, hstart, ⟨a, hr⟩, hlinkable, hkept rfl, hdone _ _ hbound⟩

end TwinHeap
