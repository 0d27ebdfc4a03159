import TwinHeap.Proofs.Lifetime
import TwinHeap.Proofs.Spots

/-!
# Nesting — how deep the calls of each function nest

Each redirected call that has got past linking has a frame until it is left, and counts in the depth
of its redirector as long. So at any point of a session the frames are those of the redirected calls
that are being made around it, in their order, and the depth of a redirector is the number of its own
(`runs_along`).
-/

namespace TwinHeap

variable {σ α β : Type}

/-! ## Frames and depths -/

namespace Owed

/-- The function of a redirected call. -/
def function? : Owed → Option Redirector.Key
  | frame key => some key
  | _ => none

/-- The functions of the redirected calls that are owed an end, the innermost first. -/
def functions (o : List Owed) : List Redirector.Key := o.filterMap function?

theorem functions_append (o o' : List Owed) : functions (o ++ o') = functions o ++ functions o' :=
  List.filterMap_append

theorem functions_of_core {o o' : List Owed} (h : o'.map core = o.map core) :
    functions o' = functions o := by
  have hcore : function? ∘ core = function? := funext fun d => by cases d <;> rfl
  unfold functions
  rw [← hcore, ← List.filterMap_map, h, List.filterMap_map]

theorem length_functions (o : List Owed) : (functions o).length = o.countP isFrame := by
  unfold functions
  rw [List.length_filterMap_eq_countP]
  exact List.countP_congr fun d _ => by cases d <;> simp [function?, isFrame]

end Owed

namespace State

/-- The calls of a function that have not ended. -/
def depthOf (s : State) (key : Redirector.Key) : Nat := (s.redirector? key).elim 0 Redirector.depth

/-- These are the functions of the running calls, the innermost first: the frames are theirs, and each
redirector counts its own. -/
structure Runs (s : State) (keys : List Redirector.Key) : Prop where
  frames : s.bridge.frames.map CallFrame.function = keys
  depth : ∀ key, s.depthOf key = keys.count key
  linked : ∀ key ∈ keys, ∃ r l m, s.redirector? key = some r ∧ r.binding = .linked l m

variable {s s' : State} {keys : List Redirector.Key}

theorem Runs.of_same (h : s.Runs keys) (hf : s'.bridge.frames.map CallFrame.function =
      s.bridge.frames.map CallFrame.function)
    (hr : s'.bridge.redirectors = s.bridge.redirectors) : s'.Runs keys := by
  refine ⟨hf.trans h.frames, fun key => ?_, fun key hk => ?_⟩
  · rw [← h.depth key]
    unfold depthOf redirector?
    rw [hr]
  · unfold redirector?
    rw [hr]
    exact h.linked key hk

theorem redirector?_modifyRedirector (s : State) (key : Redirector.Key) (f : Redirector → Redirector)
    (key' : Redirector.Key) : (s.modifyRedirector key f).redirector? key' =
      if key = key' then (s.redirector? key').map f else s.redirector? key' :=
  Table.get?_modify _ _ _ _

/-- A redirector is active if and only if a call of it is running. -/
theorem Runs.phase_eq_active (h : s.Runs keys) {key : Redirector.Key} {r : Redirector}
    (hr : s.redirector? key = some r) : r.phase = .active ↔ 0 < keys.count key := by
  have hdepth : r.depth = keys.count key := by
    rw [← h.depth key]
    unfold depthOf
    rw [hr]
    rfl
  constructor
  · intro hactive
    unfold Redirector.phase at hactive
    split at hactive
    · cases hactive
    · cases hactive
    · split at hactive
      · exact hdepth ▸ ‹_›
      · cases hactive
  · intro hpos
    obtain ⟨r', l, m, hr', hl⟩ := h.linked key (List.count_pos_iff.1 hpos)
    cases hr.symm.trans hr'
    unfold Redirector.phase
    rw [hl]
    exact if_pos (hdepth ▸ hpos)

theorem Runs.enter (h : s.Runs keys) {key : Redirector.Key}
    (hk : ∃ r l m, s.redirector? key = some r ∧ r.binding = .linked l m) :
    (s.enter key).Runs (key :: keys) := by
  have hget (key' : Redirector.Key) : (s.enter key).redirector? key' =
      if key = key' then (s.redirector? key').map fun r => { r with depth := r.depth + 1 }
      else s.redirector? key' := s.redirector?_modifyRedirector key _ key'
  have hlinked (key' : Redirector.Key)
      (h : ∃ r l m, s.redirector? key' = some r ∧ r.binding = .linked l m) :
      ∃ r l m, (s.enter key).redirector? key' = some r ∧ r.binding = .linked l m := by
    obtain ⟨r, l, m, hr, hl⟩ := h
    rw [hget, hr]
    split
    · exact ⟨_, l, m, rfl, hl⟩
    · exact ⟨r, l, m, rfl, hl⟩
  refine ⟨?_, fun key' => ?_, List.forall_mem_cons.2 ⟨hlinked key hk, fun key' hk' =>
    hlinked key' (h.linked key' hk')⟩⟩
  · exact congrArg (key :: ·) h.frames
  · rw [List.count_cons, ← h.depth key']
    unfold depthOf
    rw [hget]
    obtain ⟨r, l, m, hr, -⟩ := hk
    by_cases heq : key = key'
    · subst heq
      simp [hr]
    · simp [heq]

theorem Runs.leave {key : Redirector.Key} (h : s.Runs (key :: keys)) : (s.leave key).Runs keys := by
  obtain ⟨f, fs, hframes⟩ : ∃ f fs, s.bridge.frames = f :: fs := by
    cases hf : s.bridge.frames with
    | nil =>
      have hmap := h.frames
      rw [hf] at hmap
      cases hmap
    | cons f fs => exact ⟨f, fs, rfl⟩
  -- Leaving one call counts for its own function only.
  have hget (key' : Redirector.Key) : (s.leave key).redirector? key' =
      if key = key' then (s.redirector? key').map fun r => { r with depth := r.depth - 1 }
      else s.redirector? key' := by
    refine .trans ?_ (s.redirector?_modifyRedirector key _ key')
    unfold State.leave
    dsimp only
    split <;> rfl
  refine ⟨?_, fun key' => ?_, fun key' hk' => ?_⟩
  · have hmap := h.frames
    rw [hframes] at hmap
    unfold State.leave
    dsimp only
    split
    · rename_i hnil
      cases hframes.symm.trans hnil
    · rename_i hcons
      cases hframes.symm.trans hcons
      exact (List.cons.inj hmap).2
  · -- The function that is left may still be running in calls further out.
    have hdepth := h.depth key'
    rw [List.count_cons] at hdepth
    unfold depthOf at hdepth ⊢
    rw [hget]
    by_cases heq : key = key'
    · subst heq
      cases hr : s.redirector? key with
      | none => rw [hr] at hdepth; simp at hdepth
      | some r =>
        rw [hr] at hdepth
        have hdepth : r.depth = keys.count key + 1 := by simpa using hdepth
        simp [hdepth]
    · simpa [heq] using hdepth
  · obtain ⟨r, l, m, hr, hl⟩ := h.linked key' (List.mem_cons_of_mem _ hk')
    rw [hget, hr]
    split
    · exact ⟨_, l, m, rfl, hl⟩
    · exact ⟨r, l, m, rfl, hl⟩

theorem Runs.dropEntry (h : s.Runs keys) (host : Address) : (s.dropEntry host).Runs keys := by
  unfold State.dropEntry
  split
  · exact h
  · exact h.of_same rfl rfl

/-- A function that is bound is bound for the first time, so no call of it is running. -/
theorem Runs.bind (h : s.Runs keys) {key : Redirector.Key} {r : Redirector}
    (hr : s.redirector? key = some r) (hu : r.binding = .unbound) (b : Binding) :
    (s.modifyRedirector key fun r => { r with binding := b }).Runs keys := by
  refine ⟨h.frames, fun key' => ?_, fun key' hk' => ?_⟩
  · rw [← h.depth key']
    unfold depthOf
    rw [redirector?_modifyRedirector]
    split
    · cases s.redirector? key' <;> rfl
    · rfl
  · obtain ⟨r', l, m, hr', hl⟩ := h.linked key' hk'
    rw [redirector?_modifyRedirector, if_neg]
    · exact ⟨r', l, m, hr', hl⟩
    · rintro rfl
      cases hr.symm.trans hr'
      cases hu.symm.trans hl

/-- A function that is registered is not running. -/
theorem Runs.register (h : s.Runs keys) {function : Function}
    (hn : s.redirector? (Redirector.key function) = none) (method : ForeignMethod) :
    (s.register function method).Runs keys := by
  have hget (key : Redirector.Key) : (s.register function method).redirector? key =
      if Redirector.key function = key then some ⟨function, method, .unbound, 0⟩
        else s.redirector? key := Table.get?_insert _ _ _ _
  refine ⟨h.frames, fun key => ?_, fun key hk => ?_⟩
  · rw [← h.depth key]
    unfold depthOf
    rw [hget]
    split
    · rename_i heq
      rw [← heq, hn]
      rfl
    · rfl
  · obtain ⟨r, l, m, hr, hl⟩ := h.linked key hk
    exact ⟨r, l, m, redirector?_register hn method hr, hl⟩

theorem Runs.outcome (h : s.Runs keys) {r : Request} (ho : r.Outcome s s') : s'.Runs keys := by
  cases ho with
  | redirect hn method => exact h.register hn method
  | _ => exact h.of_same rfl rfl

/-- Frames are pushed and popped with the calls that they belong to. -/
theorem Runs.change {T : Terms} {o o' : List Owed} (h : s.Runs (Owed.functions o))
    (hc : Change T o s o' s') : s'.Runs (Owed.functions o') := by
  cases hc with
  | @write _ _ a => cases a <;> exact h.of_same rfl rfl
  | @store _ _ a => cases a <;> exact h.of_same rfl rfl
  | bind hr hu _ => exact h.bind hr hu _
  | clear => exact h.dropEntry _
  | unmake => exact h.dropEntry _
  | make _ _ _ ht =>
    rw [addProxy_of_isType ht]
    exact h.of_same rfl rfl
  | enter key hk => exact h.enter hk
  | leave => exact h.leave
  | frameCell v =>
    refine h.of_same ?_ rfl
    unfold State.frameCell
    cases s.bridge.frames <;> rfl
  -- What a frame holds does not matter, only whose it is.
  | root a =>
    unfold State.root
    split
    · exact h
    · refine h.of_same ?_ rfl
      rename_i hframes
      rw [hframes]
      rfl
  | alone _ _ hf => exact h.outcome (Request.outcome hf s)
  | _ => exact h.of_same rfl rfl

end State

/-- The frames are those of the redirected calls that are owed an end. -/
def runsRealm : Realm σ :=
  .everywhere (fun o w => w.state.Runs (Owed.functions o))
    (fun hc h => Owed.functions_of_core hc ▸ h) (fun _ h => h) (fun _ _ h => h.of_same rfl rfl)
    (fun _ h => h.of_same rfl rfl) fun h hc => h.change hc

/-! ## The redirected calls of a request -/

namespace Redirection

variable {call : Invoker σ} {w : World σ} {C : TwinHeap.Calls σ}

/-- Linking calls nobody. -/
theorem linked_only (key : Redirector.Key) (r : Redirector) :
    (linked key r : Act σ _).OnlyCalls call w C := by
  have hcount (name : String) (n : Nat) (v : World σ) :
      (Act.count name n : Act σ Unit).OnlyCalls call v C := by
    unfold Act.count
    refine .bind (.of_const fun _ => rfl) fun s v _ => ?_
    cases s.bridge.metrics.add name n <;> exact .of_const fun _ => rfl
  unfold linked
  cases r.binding with
  | linked | failed => exact .of_const fun _ => rfl
  | unbound =>
    refine .bind (.of_const fun _ => rfl) fun s v _ => .bind (.of_const fun _ => rfl) fun _ v _ => ?_
    cases r.resolve s.bridge.registry s.foreign with
    | ok lm => exact .of_const fun _ => rfl
    | error e =>
      refine .bind (.of_const fun _ => rfl) fun _ v _ => ?_
      exact .bind (hcount _ _ v) fun _ _ _ => .of_const fun _ => rfl

/-- Wherever a call of a function calls foreign code, it is the innermost one. -/
theorem runs_of_makes {key : Redirector.Key} {r : Redirector} {target result : Option Address}
    {stack : ArgStack} {n m : Nat} {inv : Invocation} {v : World σ} {o : List Owed}
    (hw : w.state.Runs (Owed.functions o)) (hr : w.state.redirector? key = some r)
    (hm : (invoke key r target stack result).Makes (callAt n) w m inv v) :
    v.state.Runs (key :: Owed.functions o) := by
  let L : Law σ := runsRealm.law (runsRealm.respected n)
  have hproxies : L.MakesProxies := Identity.makesProxies fun _ => trivial
  have hlinks : (linked key r : Act σ _).Moves L .plain o [] [] [] w _ := linked_moves hr
  have honly : (invoke key r target stack result : Act σ _).OnlyCalls (callAt n) w
      fun _ _ v => v.state.Runs (key :: Owed.functions o) := by
    rw [invoke_eq]
    refine .bind (linked_only key r) ?_
    rintro (e | ⟨l, m⟩) u hu
    · exact .of_const fun _ => rfl
    obtain ⟨hu', -, hbinding⟩ := (hlinks List.nil_suffix trivial trivial hw).ok _ _ hu
    obtain ⟨r', hr', hl'⟩ := hbinding l m rfl
    refine .bind (.of_const fun _ => rfl) ?_
    rintro _ _ ⟨⟩
    -- Foreign code is called within the frame that the call has pushed, above the frames of the calls
    -- around it.
    have hframe : (inFrame key r l m target stack result : Act σ _).Obeys L .plain (.frame key :: o)
        { u with state := u.state.enter key } :=
      inFrame_obeys hproxies ((u.state.grows_enter key).linked key r' l m hr' hl') r target stack
        result fun _ _ _ _ _ _ _ _ _ _ _ _ =>
          finish_obeys _ _ (fun _ _ => trivial) _ (fun _ _ => trivial) _
    have henter : L.holds (.frame key :: o) { u with state := u.state.enter key } :=
      State.Runs.enter hu' ⟨r', l, m, hr', hl'⟩
    refine .ensuring ((hframe List.nil_suffix trivial trivial henter).only.mono ?_)
    rintro m inv v ⟨t, -, -, ht, -, hv, -⟩
    -- Where the method is called, the call owes no frame besides its own.
    have hnone : Owed.functions t = [] :=
      List.eq_nil_of_length_eq_zero ((Owed.length_functions t).trans ht.2.2)
    have hv : v.state.Runs (Owed.functions (t ++ .frame key :: o)) := hv
    rwa [Owed.functions_append, hnone] at hv
  exact honly.of_makes hm

end Redirection

/-- A delegate calls foreign code in a redirected call. -/
theorem Delegate.redirects_of_makes {call : Invoker σ} {w v : World σ} {d : Delegate}
    {stack : ArgStack} {result : Option Address} {m : Nat} {inv : Invocation}
    (h : (d.execute stack result : Act σ Bool).Makes call w m inv v) :
    d.isBound = true ∧ ∃ key r, w.state.resolveDelegate d = .ok (some (key, r)) ∧
      (Redirection.invoke key r d.object stack result).Makes call w m inv v := by
  -- Resolving a delegate calls nothing, so the call comes from the redirector that was found.
  unfold execute at h
  cases hb : d.isBound with
  | false =>
    rw [hb] at h
    exact absurd h (Act.not_makes_of_const fun _ => rfl)
  | true =>
    rw [hb] at h
    obtain h | ⟨s, u, hs, h⟩ := Act.Makes.of_bind h
    · exact absurd h (Act.not_makes_of_const fun _ => rfl)
    cases hs
    refine ⟨rfl, ?_⟩
    cases hd : w.state.resolveDelegate d with
    | error p =>
      rw [hd] at h
      exact absurd h (Act.not_makes_of_const fun _ => rfl)
    | ok found =>
      rw [hd] at h
      obtain h | ⟨found', u, hfound, h⟩ := Act.Makes.of_bind h
      · exact absurd h (Act.not_makes_of_const fun _ => rfl)
      cases hfound
      cases found with
      | none => exact absurd h (Act.not_makes_of_const fun _ => rfl)
      | some kr =>
        obtain ⟨key, r⟩ := kr
        obtain h | ⟨⟨outcome, rest⟩, u, -, h⟩ := Act.Makes.of_bind h
        · exact ⟨key, r, rfl, h⟩
        · cases outcome <;> exact absurd h (Act.not_makes_of_const fun _ => rfl)

/-- One binding of a multicast delegate calls foreign code, when those before it have been called. -/
theorem Multicast.redirects_of_makes {call : Invoker σ} {x v : World σ} {ds : Multicast}
    {supplied : List ArgStack} {m : Nat} {inv : Invocation}
    (h : (Multicast.broadcast ds supplied : Act σ Nat).Makes call x m inv v) :
    ∃ before d after called w, ds = before ++ d :: after ∧
      Multicast.broadcast before supplied call x = .ok called w ∧
      (d.execute ((supplied.drop before.length).headD (.ofArgs [])) none).Makes call w m inv v := by
  induction ds generalizing x supplied with
  | nil => exact absurd h (Act.not_makes_of_const fun _ => rfl)
  | cons d ds ih =>
    unfold broadcast at h
    obtain h | ⟨called, u, hu, h⟩ := Act.Makes.of_bind h
    · exact ⟨[], d, ds, 0, x, rfl, rfl, h⟩
    obtain h | ⟨_, _, _, h⟩ := Act.Makes.of_bind h
    · obtain ⟨before, d', after, called', w, rfl, hbefore, hd⟩ := ih h
      refine ⟨d :: before, d', after, called.toNat + called', w, rfl, ?_, ?_⟩
      · unfold broadcast
        rw [Act.bind_of_ok hu, Act.bind_of_ok hbefore]
        rfl
      · rwa [List.drop_tail] at hd
    · exact absurd h (Act.not_makes_of_const fun _ => rfl)

/-- A redirected call, and the world in which it begins. -/
structure RedirectedCall (σ : Type) where
  key : Redirector.Key
  redirector : Redirector
  target : Option Address
  stack : ArgStack
  result : Option Address
  world : World σ

/-- What the call does. -/
def RedirectedCall.action (c : RedirectedCall σ) : Act σ (Except BridgeError Unit × ArgStack) :=
  Redirection.invoke c.key c.redirector c.target c.stack c.result

/-- To perform the request from `x`, the call is made. -/
def Request.Issues (call : Invoker σ) (x : World σ) (q : Request) (c : RedirectedCall σ) : Prop :=
  q.Redirects call x c.key c.redirector c.target c.stack c.result c.world

/-- A request that makes redirected calls calls foreign code in one of them. -/
theorem Request.issues_of_makes {call : Invoker σ} {x v : World σ} {q : Request}
    (hq : q.situation = .redirected) {m : Nat} {inv : Invocation}
    (h : q.perform.Makes call x m inv v) :
    ∃ c : RedirectedCall σ, q.Issues call x c ∧ c.action.Makes call c.world m inv v := by
  -- Three requests make redirected calls; around them only the state is read.
  cases q <;> cases hq
  case invoke key target stack result =>
    unfold perform at h
    obtain h | ⟨s, u, hs, h⟩ := Act.Makes.of_bind h
    · exact absurd h (Act.not_makes_of_const fun _ => rfl)
    cases hs
    cases hr : x.state.redirector? key with
    | none =>
      rw [hr] at h
      exact absurd h (Act.not_makes_of_const fun _ => rfl)
    | some r =>
      rw [hr] at h
      obtain h | ⟨_, _, _, h⟩ := Act.Makes.of_bind h
      · exact ⟨⟨key, r, target, stack, result, x⟩, .invoke hr, h⟩
      · exact absurd h (Act.not_makes_of_const fun _ => rfl)
  case execute d stack result =>
    have h : (d.execute stack result).attempt.Makes call x m inv v := h
    obtain ⟨hb, key, r, hd, h⟩ := Delegate.redirects_of_makes h.of_attempt
    exact ⟨⟨key, r, d.object, stack, result, x⟩, .execute hb hd, h⟩
  case broadcast ds supplied =>
    have h : (Multicast.broadcast ds supplied).attempt.Makes call x m inv v := h
    obtain ⟨before, d, after, called, w, rfl, hbefore, h⟩ :=
      Multicast.redirects_of_makes h.of_attempt
    obtain ⟨hb, key, r, hd, h⟩ := Delegate.redirects_of_makes h
    exact ⟨⟨key, r, d.object, _, none, w⟩, .broadcast hbefore hb hd, h⟩

/-- Other requests make none. -/
theorem Request.Issues.situation {call : Invoker σ} {x : World σ} {q : Request}
    {c : RedirectedCall σ} (h : q.Issues call x c) : q.situation = .redirected := by
  obtain ⟨key, r, target, stack, result, w⟩ := c
  change q.Redirects call x key r target stack result w at h
  cases h <;> rfl

theorem Request.Issues.registered {call : Invoker σ} {x : World σ} {q : Request}
    {c : RedirectedCall σ} (h : q.Issues call x c) :
    c.world.state.redirector? c.key = some c.redirector := by
  obtain ⟨key, r, target, stack, result, w⟩ := c
  change q.Redirects call x key r target stack result w at h
  cases h with
  | invoke hr => exact hr
  | execute _ hd => exact State.redirector?_of_resolveDelegate hd
  | broadcast _ _ hd => exact State.redirector?_of_resolveDelegate hd

/-- Where a call begins the same calls are running as where it was asked for. -/
theorem Request.Issues.runs {n : Nat} {x : World σ} {q : Request} {c : RedirectedCall σ}
    (h : q.Issues (callAt n) x c) {o : List Owed} (hx : x.state.Runs (Owed.functions o)) :
    c.world.state.Runs (Owed.functions o) :=
  (Redirects.holds (L := runsRealm.law (runsRealm.respected n)) h
    (Identity.makesProxies fun _ => trivial) (fun _ => trivial) (fun _ _ => trivial)
    List.nil_suffix trivial hx).1

/-! ## The calls around a point -/

/-- When it calls foreign code, the operation is making this redirected call. -/
def Enclosing.Performs (e : Enclosing σ) (c : RedirectedCall σ) : Prop :=
  e.request.Issues (callAt e.depth) e.asked c ∧
    c.action.Makes (callAt e.depth) c.world e.method e.inv e.called

/-- It is making a call of this function. -/
def Enclosing.Calls (e : Enclosing σ) (key : Redirector.Key) : Prop :=
  ∃ c, e.Performs c ∧ c.key = key

/-- The functions of the redirected calls that are being made, the innermost first. -/
inductive Stacked : List (Enclosing σ) → List Redirector.Key → Prop
  | nil : Stacked [] []
  | other {e : Enclosing σ} {es : List (Enclosing σ)} {keys : List Redirector.Key}
      (he : ∀ key, ¬e.Calls key) (h : Stacked es keys) : Stacked (e :: es) keys
  | call {e : Enclosing σ} {es : List (Enclosing σ)} {key : Redirector.Key}
      {keys : List Redirector.Key} (he : ∀ key', e.Calls key' ↔ key' = key)
      (h : Stacked es keys) : Stacked (e :: es) (key :: keys)

open Classical in
theorem Stacked.countP_eq {es : List (Enclosing σ)} {keys : List Redirector.Key}
    (h : Stacked es keys) (key : Redirector.Key) :
    (es.countP fun e => e.Calls key) = keys.count key := by
  induction h with
  | nil => rfl
  | other he _ ih => rw [List.countP_cons_of_neg (by simpa using he key), ih]
  | @call e es key' keys he _ ih =>
    rw [List.countP_cons, List.count_cons, ih, he key]
    by_cases hkey : key = key'
    · simp [hkey]
    · simp [hkey, Ne.symm hkey]

/-- At every spot of a session the frames are those of the calls around it. -/
theorem runs_along {start : World σ} {ps : List (Nat × Program σ)} (hstart : start.state.Runs [])
    {x : Spot σ} (hx : Along start ps x) :
    ∃ o, x.world.state.Runs (Owed.functions o) ∧ Stacked x.around (Owed.functions o) := by
  have hrespected (n : Nat) : (runsRealm : Realm σ).Respected n := runsRealm.respected n
  -- By induction on the way to the spot: what runs there was entered from the spot before.
  induction hx with
  | @begins done n p w h hps =>
    refine ⟨[], ?_, .nil⟩
    refine h.ends ((List.prefix_append _ _).trans hps)
      (Q := fun w => w.state.Runs []) hstart fun x _ _ hw => ?_
    exact runsRealm.run (n := x.depth) (p := x.program) (o := []) trivial trivial hw
  | @step x y _ hs ih =>
    obtain ⟨o, ho, hes⟩ := ih
    cases hs with
    | observe => exact ⟨o, ho, hes⟩
    | remember => exact ⟨o, ho, hes⟩
    | define => exact ⟨o, ho.of_same rfl rfl, hes⟩
    | @answered n _ q _ _ _ _ hr =>
      have hperformed := runsRealm.performed (hrespected n) (r := q) trivial (o := o) trivial ho
      exact ⟨o, (ends_iff.1 hperformed).1 _ _ hr, hes⟩
    | @entered n es q _ w u m inv _ hm _ =>
      cases hq : q.situation with
      | redirected =>
        -- Another redirected call that the same request might be making there has the same frame on
        -- top, so it is one of the same function.
        obtain ⟨c, hc, hcm⟩ := q.issues_of_makes hq hm
        have hu := Redirection.runs_of_makes (hc.runs ho) hc.registered hcm
        refine ⟨.frame c.key :: o, hu.of_same rfl rfl, .call (fun key => ⟨?_, ?_⟩) hes⟩
        · rintro ⟨c', ⟨hc', hcm'⟩, rfl⟩
          have hu' := Redirection.runs_of_makes (hc'.runs ho) hc'.registered hcm'
          exact (List.cons.inj (hu'.frames.symm.trans hu.frames)).1
        · rintro rfl
          exact ⟨c, ⟨hc, hcm⟩, rfl⟩
      | plain | severing =>
        -- The request pushes no frame of its own.
        obtain ⟨t, _, _, ht, -, hu, -⟩ :=
          runsRealm.made (hrespected (n + 1)) trivial (o := o) trivial ho hm
        have hnone : Owed.functions t = [] := by
          refine List.eq_nil_of_length_eq_zero ((Owed.length_functions t).trans ?_)
          rw [ht.2.2, hq]
          rfl
        have hu : u.state.Runs (Owed.functions (t ++ o)) := hu
        rw [Owed.functions_append, hnone] at hu
        refine ⟨o, hu.of_same rfl rfl, .other ?_ hes⟩
        rintro key ⟨c, ⟨hc, -⟩, -⟩
        cases hq.symm.trans hc.situation

end TwinHeap
