import TwinHeap.Bridge.Run

/-!
# Actions — which foreign calls they make, and how they end

An action is a function of how foreign methods are called, so what it asks of foreign code can be
read off that dependence: `Act.OnlyCalls` bounds the calls from above, `Act.Makes` from below.
`Act.Meets` joins the bound with a condition for each way to end; there is one rule for each
combinator, and proofs about an operation of the bridge go through these rules only. The same rules
show that an action takes no notice of its calls but by their answers (`Act.Strict`), so calls which
may nest deeper change nothing, unless a run was given up. `Act.Comes` names the parts of a run.
-/

namespace TwinHeap

variable {σ α β : Type}

/-- How an action ended: an answer meets `Q`, a failure meets `E`. -/
def Ends (result : EStateM.Result Failure (World σ) α) (Q : α → World σ → Prop)
    (E : Failure → World σ → Prop) : Prop :=
  match result with
  | .ok a v => Q a v
  | .error f v => E f v

theorem ends_iff {result : EStateM.Result Failure (World σ) α} {Q : α → World σ → Prop}
    {E : Failure → World σ → Prop} :
    Ends result Q E ↔
      (∀ a v, result = .ok a v → Q a v) ∧ ∀ f v, result = .error f v → E f v := by
  cases result with
  | ok a v =>
    refine ⟨fun h => ⟨?_, ?_⟩, fun h => h.1 a v rfl⟩
    · intro a' v' he
      cases he
      exact h
    · intro f v' he
      cases he
  | error f v =>
    refine ⟨fun h => ⟨?_, ?_⟩, fun h => h.2 f v rfl⟩
    · intro a v' he
      cases he
    · intro f' v' he
      cases he
      exact h

theorem Ends.mono {result : EStateM.Result Failure (World σ) α} {Q Q' : α → World σ → Prop}
    {E E' : Failure → World σ → Prop} (h : Ends result Q E) (hQ : ∀ a v, Q a v → Q' a v)
    (hE : ∀ f v, E f v → E' f v) : Ends result Q' E' := by
  cases result with
  | ok a v => exact hQ a v h
  | error f v => exact hE f v h

theorem Ends.and {result : EStateM.Result Failure (World σ) α} {Q Q' : α → World σ → Prop}
    {E E' : Failure → World σ → Prop} (h : Ends result Q E) (h' : Ends result Q' E') :
    Ends result (fun a v => Q a v ∧ Q' a v) fun f v => E f v ∧ E' f v := by
  cases result with
  | ok a v => exact ⟨h, h'⟩
  | error f v => exact ⟨h, h'⟩

/-- A run ended with the failure `f`. -/
def FailedWith (f : Failure) (result : EStateM.Result Failure (World σ) α) : Prop :=
  ∃ v, result = .error f v

theorem not_failedWith_ok {f : Failure} {a : α} {v : World σ} : ¬FailedWith f (.ok a v) := by
  rintro ⟨u, hu⟩
  cases hu

/-- No attempt catches the failure. -/
def Failure.IsFatal (f : Failure) : Prop := ∀ e, f ≠ .error e

theorem Failure.isFatal_exhausted : exhausted.IsFatal := by
  rintro e ⟨⟩

theorem Failure.isFatal_panic (p : Panic) : (panic p).IsFatal := by
  rintro e ⟨⟩

/-- `call'` answers like `call`, except where it fails with `f`. -/
def Invoker.Until (call' : Invoker σ) (f : Failure) (call : Invoker σ) : Prop :=
  ∀ m inv v, call' m inv v = call m inv v ∨ FailedWith f (call' m inv v)

namespace Invoker

variable {call : Invoker σ} {f : Failure} {m : Nat} {inv : Invocation} {v : World σ}

open Classical in
/-- Calls are answered like by `call`, but one of them fails with `f`. -/
noncomputable def failing (call : Invoker σ) (f : Failure) (m : Nat) (inv : Invocation)
    (v : World σ) : Invoker σ := fun m' inv' v' =>
  if (m', inv', v') = (m, inv, v) then .error f v' else call m' inv' v'

theorem failing_self : call.failing f m inv v m inv v = .error f v := if_pos rfl

theorem failing_of_ne {m' : Nat} {inv' : Invocation} {v' : World σ}
    (h : (m', inv', v') ≠ (m, inv, v)) : call.failing f m inv v m' inv' v' = call m' inv' v' :=
  if_neg h

theorem failing_until : (call.failing f m inv v).Until f call := by
  intro m' inv' v'
  by_cases h : (m', inv', v') = (m, inv, v)
  · exact .inr ⟨v', if_pos h⟩
  · exact .inl (failing_of_ne h)

end Invoker

/-- Calls of foreign code: the method, what it is given, and the world it is called in. -/
abbrev Calls (σ : Type) := Nat → Invocation → World σ → Prop

namespace Act

section Equations

variable {act : Act σ α} {call : Invoker σ} {w v : World σ}

/-- What follows an answer goes on from the world that the answer left. -/
theorem bind_of_ok {f : α → Act σ β} {a : α} (h : act call w = .ok a v) :
    (act >>= f) call w = f a call v := by
  show EStateM.bind (act call) (fun a => f a call) w = _
  unfold EStateM.bind
  rw [h]

theorem state_bind {f : State → Act σ β} : (Act.state >>= f) call w = f w.state call w := rfl

/-- Nothing follows a failure. -/
theorem bind_of_error {f : α → Act σ β} {e : Failure} (h : act call w = .error e v) :
    (act >>= f) call w = .error e v := by
  show EStateM.bind (act call) (fun a => f a call) w = _
  unfold EStateM.bind
  rw [h]

/-- What follows two actions that run alike runs alike. -/
theorem bind_of_eq {act' : Act σ α} {f : α → Act σ β} (h : act call w = act' call w) :
    (act >>= f) call w = (act' >>= f) call w := by
  show EStateM.bind (act call) (fun a => f a call) w = _
  unfold EStateM.bind
  rw [h]
  rfl

/-- An answer of two actions in a row is the second one's. -/
theorem ok_of_bind {f : α → Act σ β} {b : β} (h : (act >>= f) call w = .ok b v) :
    ∃ a u, act call w = .ok a u ∧ f a call u = .ok b v := by
  cases ha : act call w with
  | ok a u => exact ⟨a, u, rfl, (bind_of_ok ha).symm.trans h⟩
  | error e u =>
    rw [bind_of_error ha] at h
    cases h

/-- Only what is computed answers. -/
theorem ok_of_ofPanic {x : Except Panic α} {a : α} (h : (ofPanic x : Act σ α) call w = .ok a v) :
    x = .ok a ∧ v = w := by
  cases x with
  | ok b =>
    cases h
    exact ⟨rfl, rfl⟩
  | error => cases h

/-- A failure of two actions in a row is that of either. -/
theorem error_of_bind {f : α → Act σ β} {e : Failure} (h : (act >>= f) call w = .error e v) :
    act call w = .error e v ∨ ∃ a u, act call w = .ok a u ∧ f a call u = .error e v := by
  cases ha : act call w with
  | ok a u => exact .inr ⟨a, u, rfl, (bind_of_ok ha).symm.trans h⟩
  | error e' u =>
    rw [bind_of_error ha] at h
    cases h
    exact .inl rfl

/-- Two actions in a row end as the second one does, or as the first one if it fails. -/
theorem ends_bind {f : α → Act σ β} {Q : α → World σ → Prop} {R : β → World σ → Prop}
    {E : Failure → World σ → Prop} (h : Ends (act call w) Q E)
    (hf : ∀ a v, Q a v → Ends (f a call v) R E) : Ends ((act >>= f) call w) R E := by
  cases ha : act call w with
  | ok a v =>
    rw [ha] at h
    rw [bind_of_ok ha]
    exact hf a v h
  | error e v =>
    rw [ha] at h
    rw [bind_of_error ha]
    exact h

theorem attempt_of_ok {a : α} (h : act call w = .ok a v) :
    act.attempt call w = .ok (.ok a) v := by
  unfold Act.attempt
  rw [h]

theorem attempt_of_error {e : BridgeError} (h : act call w = .error (.error e) v) :
    act.attempt call w = .ok (.error e) v := by
  unfold Act.attempt
  rw [h]

/-- An attempt does not catch what is no error of the bridge. -/
theorem attempt_of_failure {f : Failure} (h : act call w = .error f v) (hf : f.IsFatal) :
    act.attempt call w = .error f v := by
  unfold Act.attempt
  rw [h]
  cases f with
  | error e => exact absurd rfl (hf e)
  | panic p => rfl
  | exhausted => rfl

theorem ensuring_of_ok {cleanup : State → State} {a : α} (h : act call w = .ok a v) :
    Act.ensuring cleanup act call w = .ok a { v with state := cleanup v.state } := by
  unfold Act.ensuring
  rw [h]

theorem ensuring_of_error {cleanup : State → State} {f : Failure} (h : act call w = .error f v) :
    Act.ensuring cleanup act call w = .error f { v with state := cleanup v.state } := by
  unfold Act.ensuring
  rw [h]

theorem ends_ensuring {cleanup : State → State} {Q : α → World σ → Prop}
    {E : Failure → World σ → Prop}
    (h : Ends (act call w) (fun a v => Q a { v with state := cleanup v.state })
      fun f v => E f { v with state := cleanup v.state }) :
    Ends (Act.ensuring cleanup act call w) Q E := by
  cases ha : act call w with
  | ok a v =>
    rw [ha] at h
    rw [ensuring_of_ok ha]
    exact h
  | error f v =>
    rw [ha] at h
    rw [ensuring_of_error ha]
    exact h

/-- An attempt answers with an error that what was tried ended with. -/
theorem error_of_attempt {e : BridgeError} (h : act.attempt call w = .ok (.error e) v) :
    act call w = .error (.error e) v := by
  unfold Act.attempt at h
  split at h
  · cases h
  · rename_i ha
    cases h
    exact ha
  · cases h

theorem ok_of_attempt {a : α} (h : act.attempt call w = .ok (.ok a) v) : act call w = .ok a v := by
  unfold Act.attempt at h
  split at h
  · rename_i ha
    cases h
    exact ha
  · cases h
  · cases h

end Equations

/-- Of all calls only those in `C` matter: where they are answered alike, `act` runs alike. -/
def OnlyCalls (act : Act σ α) (call : Invoker σ) (w : World σ) (C : Calls σ) : Prop :=
  ∀ call' : Invoker σ, (∀ m inv v, C m inv v → call' m inv v = call m inv v) →
    act call' w = act call w

/-- `act` takes no notice of calls but by their answers: where some of them failed for good, it
would fail like them, or had no need of them. -/
def Strict (act : Act σ α) (call : Invoker σ) (w : World σ) : Prop :=
  ∀ (f : Failure) (call' : Invoker σ), f.IsFatal → call'.Until f call →
    act call' w = act call w ∨ FailedWith f (act call' w)

/-- `act` makes this call: what becomes of `act` depends on the answer to it. -/
def Makes (act : Act σ α) (call : Invoker σ) (w : World σ) (m : Nat) (inv : Invocation)
    (v : World σ) : Prop :=
  ∃ call' : Invoker σ,
    (∀ m' inv' v', (m', inv', v') ≠ (m, inv, v) → call' m' inv' v' = call m' inv' v') ∧
      act call' w ≠ act call w

/-- What an action does from `w`: the calls it makes are in `C`, an answer meets `Q`, and a failure
meets `E`. -/
structure Meets (act : Act σ α) (call : Invoker σ) (w : World σ) (C : Calls σ)
    (Q : α → World σ → Prop) (E : Failure → World σ → Prop) : Prop where
  only : act.OnlyCalls call w C
  strict : act.Strict call w
  ok : ∀ a v, act call w = .ok a v → Q a v
  err : ∀ f v, act call w = .error f v → E f v

variable {act : Act σ α} {call : Invoker σ} {w : World σ} {C C' : Calls σ}
  {Q Q' : α → World σ → Prop} {E E' : Failure → World σ → Prop}

/-! ## Calls -/

/-- A call that is made lies in every bound on the calls. -/
theorem OnlyCalls.of_makes {m : Nat} {inv : Invocation} {v : World σ}
    (h : act.OnlyCalls call w C) (hm : act.Makes call w m inv v) : C m inv v := by
  obtain ⟨call', hc, hne⟩ := hm
  apply Classical.byContradiction
  intro hC
  apply hne
  apply h
  intro m' inv' v' hC'
  apply hc
  rintro ⟨⟩
  exact hC hC'

theorem OnlyCalls.mono (h : act.OnlyCalls call w C) (hC : ∀ m inv v, C m inv v → C' m inv v) :
    act.OnlyCalls call w C' :=
  fun call' hc => h call' fun m inv v hm => hc m inv v (hC m inv v hm)

/-- An action that only changes the world makes no call. -/
theorem OnlyCalls.of_const (h : ∀ call', act call' w = act call w) : act.OnlyCalls call w C :=
  fun call' _ => h call'

theorem OnlyCalls.bind {f : α → Act σ β} (h : act.OnlyCalls call w C)
    (hf : ∀ a v, act call w = .ok a v → (f a).OnlyCalls call v C) :
    (act >>= f).OnlyCalls call w C := by
  intro call' hc
  have ha := h call' hc
  cases hr : act call w with
  | ok a v =>
    rw [bind_of_ok hr, bind_of_ok (ha.trans hr)]
    exact hf a v hr call' hc
  | error e v => rw [bind_of_error hr, bind_of_error (ha.trans hr)]

theorem OnlyCalls.ensuring {cleanup : State → State} (h : act.OnlyCalls call w C) :
    (Act.ensuring cleanup act).OnlyCalls call w C := by
  intro call' hc
  unfold Act.ensuring
  rw [h call' hc]

theorem OnlyCalls.attempt (h : act.OnlyCalls call w C) : act.attempt.OnlyCalls call w C := by
  intro call' hc
  unfold Act.attempt
  rw [h call' hc]

/-- An action that only changes the world makes no call. -/
theorem not_makes_of_const (h : ∀ call', act call' w = act call w) {m : Nat} {inv : Invocation}
    {v : World σ} : ¬act.Makes call w m inv v :=
  fun ⟨call', _, hne⟩ => hne (h call')

/-- A call of two actions is one of the first, or of what follows its answer. -/
theorem Makes.of_bind {f : α → Act σ β} {m : Nat} {inv : Invocation} {v : World σ}
    (h : (act >>= f).Makes call w m inv v) : act.Makes call w m inv v ∨
      ∃ a u, act call w = .ok a u ∧ (f a).Makes call u m inv v := by
  obtain ⟨call', hc, hne⟩ := h
  by_cases heq : act call' w = act call w
  · cases hr : act call w with
    | ok a u =>
      refine .inr ⟨a, u, rfl, call', hc, fun he => hne ?_⟩
      rw [bind_of_ok (heq.trans hr), bind_of_ok hr, he]
    | error f u =>
      refine absurd ?_ hne
      rw [bind_of_error (heq.trans hr), bind_of_error hr]
  · exact .inl ⟨call', hc, heq⟩

theorem Makes.of_attempt {m : Nat} {inv : Invocation} {v : World σ}
    (h : act.attempt.Makes call w m inv v) : act.Makes call w m inv v := by
  obtain ⟨call', hc, hne⟩ := h
  refine ⟨call', hc, fun he => hne ?_⟩
  unfold Act.attempt
  rw [he]

/-! ## Calls that fail for good -/

namespace Strict

theorem of_const (h : ∀ call', act call' w = act call w) : act.Strict call w :=
  fun _ call' _ _ => .inl (h call')

theorem bind {f : α → Act σ β} (h : act.Strict call w)
    (hf : ∀ a v, act call w = .ok a v → (f a).Strict call v) : (act >>= f).Strict call w := by
  intro x call' hx hc
  obtain ha | ⟨u, hu⟩ := h x call' hx hc
  · cases hr : act call w with
    | ok a v =>
      rw [bind_of_ok hr, bind_of_ok (ha.trans hr)]
      exact hf a v hr x call' hx hc
    | error e v => exact .inl ((bind_of_error (ha.trans hr)).trans (bind_of_error hr).symm)
  · exact .inr ⟨u, bind_of_error hu⟩

theorem attempt (h : act.Strict call w) : act.attempt.Strict call w := by
  intro x call' hx hc
  obtain ha | ⟨u, hu⟩ := h x call' hx hc
  · unfold Act.attempt
    exact .inl (by rw [ha])
  · exact .inr ⟨u, attempt_of_failure hu hx⟩

theorem ensuring {cleanup : State → State} (h : act.Strict call w) :
    (Act.ensuring cleanup act).Strict call w := by
  intro x call' hx hc
  obtain ha | ⟨u, hu⟩ := h x call' hx hc
  · unfold Act.ensuring
    exact .inl (by rw [ha])
  · exact .inr ⟨_, ensuring_of_error hu⟩

/-- What an action answers it answers also where calls fail less often. -/
theorem ok (h : act.Strict call w) {call' : Invoker σ} {f : Failure} (hf : f.IsFatal)
    (hc : call'.Until f call) {a : α} {v : World σ} (ha : act call' w = .ok a v) :
    act call w = .ok a v :=
  ((h f call' hf hc).resolve_right (ha ▸ not_failedWith_ok)).symm.trans ha

theorem error (h : act.Strict call w) {call' : Invoker σ} {f e : Failure} (hf : f.IsFatal)
    (hc : call'.Until f call) (he : e ≠ f) {v : World σ} (ha : act call' w = .error e v) :
    act call w = .error e v := by
  refine ((h f call' hf hc).resolve_right ?_).symm.trans ha
  rintro ⟨u, hu⟩
  cases ha.symm.trans hu
  exact he rfl

end Strict

/-! ## Courses -/

/-- In the run of `act` from `w` under `call`, the second action is run from the second world. -/
inductive Comes (call : Invoker σ) {α : Type} (act : Act σ α) (w : World σ) :
    {β : Type} → Act σ β → World σ → Prop
  | here : Comes call act w act w
  /-- Actions that run alike are the same to a run. -/
  | congr {β : Type} {x x' : Act σ β} {v : World σ} (h : Comes call act w x v)
      (he : ∀ call', x' call' v = x call' v) : Comes call act w x' v
  | first {β γ : Type} {x : Act σ β} {f : β → Act σ γ} {v : World σ}
      (h : Comes call act w (x >>= f) v) : Comes call act w x v
  | next {β γ : Type} {x : Act σ β} {f : β → Act σ γ} {a : β} {v u : World σ}
      (h : Comes call act w (x >>= f) v) (hx : x.Strict call v) (ha : x call v = .ok a u) :
      Comes call act w (f a) u
  | attempt {β : Type} {x : Act σ β} {v : World σ} (h : Comes call act w x.attempt v) :
      Comes call act w x v
  | ensuring {β : Type} {x : Act σ β} {cleanup : State → State} {v : World σ}
      (h : Comes call act w (Act.ensuring cleanup x) v) : Comes call act w x v

theorem Comes.trans {γ : Type} {act' : Act σ β} {act'' : Act σ γ} {u v : World σ}
    (h : Comes call act w act' u) (h' : Comes call act' u act'' v) : Comes call act w act'' v := by
  induction h' with
  | here => exact h
  | congr _ he ih => exact .congr ih he
  | first _ ih => exact .first ih
  | next _ hx ha ih => exact .next ih hx ha
  | attempt _ ih => exact .attempt ih
  | ensuring _ ih => exact .ensuring ih

/-- Where a part of a run fails for good, so does the run. -/
theorem Comes.failedWith {x : Act σ β} {v : World σ} (h : Comes call act w x v) {f : Failure}
    (hf : f.IsFatal) {call' : Invoker σ} (hc : call'.Until f call)
    (hx : FailedWith f (x call' v)) : FailedWith f (act call' w) := by
  induction h with
  | here => exact hx
  | congr _ he ih => exact ih (he call' ▸ hx)
  | first _ ih =>
    obtain ⟨u, hu⟩ := hx
    exact ih ⟨u, bind_of_error hu⟩
  | next _ hstrict ha ih =>
    apply ih
    obtain heq | ⟨u, hu⟩ := hstrict f call' hf hc
    · obtain ⟨u, hu⟩ := hx
      exact ⟨u, (bind_of_ok (heq.trans ha)).trans hu⟩
    · exact ⟨u, bind_of_error hu⟩
  | attempt _ ih =>
    obtain ⟨u, hu⟩ := hx
    exact ih ⟨u, attempt_of_failure hu hf⟩
  | ensuring _ ih =>
    obtain ⟨u, hu⟩ := hx
    exact ih ⟨_, ensuring_of_error hu⟩

/-- An action makes a call if it fails for good wherever that call does. -/
theorem makes_of_failing {m : Nat} {inv : Invocation} {v : World σ}
    (h : ∀ f, f.IsFatal → FailedWith f (act (call.failing f m inv v) w)) :
    act.Makes call w m inv v := by
  -- A failure that `act` does not end with anyway.
  obtain ⟨f, hf, hne⟩ : ∃ f : Failure, f.IsFatal ∧ ¬FailedWith f (act call w) := by
    by_cases he : FailedWith .exhausted (act call w)
    · obtain ⟨u, hu⟩ := he
      refine ⟨.panic .frameAlignment, Failure.isFatal_panic _, fun ⟨v', hv'⟩ => ?_⟩
      rw [hu] at hv'
      cases hv'
    · exact ⟨.exhausted, Failure.isFatal_exhausted, he⟩
  refine ⟨call.failing f m inv v, fun m' inv' v' hne' => Invoker.failing_of_ne hne', fun heq => ?_⟩
  exact hne (heq ▸ h f hf)

/-- The calls that a run comes to are made. -/
theorem Comes.makes {m : Nat} {inv : Invocation} {v : World σ}
    (h : Comes call act w (Act.callMethod m inv.receiver inv.args) v) :
    act.Makes call w m inv v :=
  makes_of_failing fun _ hf => h.failedWith hf Invoker.failing_until ⟨v, Invoker.failing_self⟩

/-- The actions that belong to a run: with an action all those belong to it that it runs. -/
structure Course (call : Invoker σ) where
  Runs : ∀ {α : Type}, Act σ α → World σ → Prop
  closed : ∀ {α β : Type} {act : Act σ α} {act' : Act σ β} {w v : World σ}, Runs act w →
    Comes call act w act' v → Runs act' v

namespace Course

/-- Any actions at all. -/
def any (call : Invoker σ) : Course call := ⟨fun _ _ => True, fun _ _ => trivial⟩

/-- The run of one action. -/
def of (call : Invoker σ) (act : Act σ α) (w : World σ) : Course call :=
  ⟨fun act' v => Comes call act w act' v, Comes.trans⟩

end Course

/-! ## Rules -/

namespace Meets

theorem ends (h : act.Meets call w C Q E) : Ends (act call w) Q E := ends_iff.2 ⟨h.ok, h.err⟩

theorem mono (h : act.Meets call w C Q E) (hC : ∀ m inv v, C m inv v → C' m inv v)
    (hQ : ∀ a v, Q a v → Q' a v) (hE : ∀ f v, E f v → E' f v) : act.Meets call w C' Q' E' where
  only := h.only.mono hC
  strict := h.strict
  ok a v ha := hQ a v (h.ok a v ha)
  err f v hf := hE f v (h.err f v hf)

theorem pure {a : α} (h : Q a w) : (Pure.pure a : Act σ α).Meets call w C Q E where
  only := .of_const fun _ => rfl
  strict := .of_const fun _ => rfl
  ok := by rintro _ _ ⟨⟩; exact h
  err := by rintro _ _ ⟨⟩

/-- The answer of the first action, and the world it leaves, are all that the second depends on. -/
theorem bind {f : α → Act σ β} {R : β → World σ → Prop} (h : act.Meets call w C Q E)
    (hf : ∀ a v, act call w = .ok a v → Q a v → (f a).Meets call v C R E) :
    (act >>= f).Meets call w C R E := by
  have hf (a : α) (v : World σ) (ha : act call w = .ok a v) : (f a).Meets call v C R E :=
    hf a v ha (h.ok a v ha)
  refine ⟨h.only.bind fun a v ha => (hf a v ha).only,
    h.strict.bind fun a v ha => (hf a v ha).strict, ?_, ?_⟩
  · intro b u hb
    cases hr : act call w with
    | ok a v => rw [bind_of_ok hr] at hb; exact (hf a v hr).ok b u hb
    | error e v => rw [bind_of_error hr] at hb; cases hb
  · intro e u he
    cases hr : act call w with
    | ok a v => rw [bind_of_ok hr] at he; exact (hf a v hr).err e u he
    | error e' v => rw [bind_of_error hr] at he; cases he; exact h.err _ _ hr

theorem editGet {f : State → α × State}
    (h : Q (f w.state).1 { w with state := (f w.state).2 }) :
    (Act.editGet f : Act σ α).Meets call w C Q E where
  only := .of_const fun _ => rfl
  strict := .of_const fun _ => rfl
  ok := by rintro _ _ ⟨⟩; exact h
  err := by rintro _ _ ⟨⟩

theorem edit {f : State → State} {Q : Unit → World σ → Prop}
    (h : Q () { w with state := f w.state }) : (Act.edit f : Act σ Unit).Meets call w C Q E where
  only := .of_const fun _ => rfl
  strict := .of_const fun _ => rfl
  ok := by rintro _ _ ⟨⟩; exact h
  err := by rintro _ _ ⟨⟩

theorem fail {e : BridgeError} (h : E (.error e) w) :
    (Act.fail e : Act σ α).Meets call w C Q E where
  only := .of_const fun _ => rfl
  strict := .of_const fun _ => rfl
  ok := by rintro _ _ ⟨⟩
  err := by rintro _ _ ⟨⟩; exact h

theorem abandon {p : Panic} (h : E (.panic p) w) :
    (Act.abandon p : Act σ α).Meets call w C Q E where
  only := .of_const fun _ => rfl
  strict := .of_const fun _ => rfl
  ok := by rintro _ _ ⟨⟩
  err := by rintro _ _ ⟨⟩; exact h

theorem attempt {R : Except BridgeError α → World σ → Prop}
    (h : act.Meets call w C (fun a v => R (.ok a) v)
      (fun f v => (∀ e, f = .error e → R (.error e) v) ∧ ((∀ e, f ≠ .error e) → E f v))) :
    act.attempt.Meets call w C R E := by
  have hend : Ends (act.attempt call w) R E := by
    cases hr : act call w with
    | ok a v =>
      rw [attempt_of_ok hr]
      exact h.ok a v hr
    | error f v =>
      obtain ⟨herror, hfailure⟩ := h.err f v hr
      cases f with
      | error e =>
        rw [attempt_of_error hr]
        exact herror e rfl
      | panic p =>
        rw [attempt_of_failure hr (by rintro _ ⟨⟩)]
        exact hfailure (by rintro _ ⟨⟩)
      | exhausted =>
        rw [attempt_of_failure hr (by rintro _ ⟨⟩)]
        exact hfailure (by rintro _ ⟨⟩)
  exact ⟨h.only.attempt, h.strict.attempt, (ends_iff.1 hend).1, (ends_iff.1 hend).2⟩

theorem ensuring {cleanup : State → State}
    (h : act.Meets call w C (fun a (v : World σ) => Q a { v with state := cleanup v.state })
      (fun f (v : World σ) => E f { v with state := cleanup v.state })) :
    (Act.ensuring cleanup act).Meets call w C Q E := by
  have hend : Ends (Act.ensuring cleanup act call w) Q E := by
    cases hr : act call w with
    | ok a v =>
      rw [ensuring_of_ok hr]
      exact h.ok a v hr
    | error f v =>
      rw [ensuring_of_error hr]
      exact h.err f v hr
  exact ⟨h.only.ensuring, h.strict.ensuring, (ends_iff.1 hend).1, (ends_iff.1 hend).2⟩

theorem callMethod {m : Nat} {receiver : Option Address} {args : List Address}
    {Q : Except ForeignException (Option Address) → World σ → Prop}
    (hC : C m ⟨receiver, args⟩ w) (hQ : ∀ a v, call m ⟨receiver, args⟩ w = .ok a v → Q a v)
    (hE : ∀ f v, call m ⟨receiver, args⟩ w = .error f v → E f v) :
    (Act.callMethod m receiver args : Act σ _).Meets call w C Q E where
  only := fun _ hc => hc _ _ _ hC
  strict := fun _ _ _ hc => hc _ _ _
  ok := hQ
  err := hE

end Meets

/-! ## First calls -/

/-- The first call that `act` makes from `w` is in `C`: should it fail for good, so does `act`. -/
def CallsFirst (act : Act σ α) (w : World σ) (C : Calls σ) : Prop :=
  ∃ m inv u, C m inv u ∧ ∀ (call : Invoker σ) f v, f.IsFatal →
    call m inv u = .error f v → FailedWith f (act call w)

namespace CallsFirst

theorem callMethod {m : Nat} {receiver : Option Address} {args : List Address}
    (h : C m ⟨receiver, args⟩ w) : (Act.callMethod m receiver args : Act σ _).CallsFirst w C :=
  ⟨m, _, w, h, fun _ _ v _ hf => ⟨v, hf⟩⟩

/-- What follows the first call does not matter. -/
theorem bind {f : α → Act σ β} (h : act.CallsFirst w C) : (act >>= f).CallsFirst w C := by
  obtain ⟨m, inv, u, hC, hfail⟩ := h
  refine ⟨m, inv, u, hC, fun call e v he hv => ?_⟩
  obtain ⟨v', hv'⟩ := hfail call e v he hv
  exact ⟨v', bind_of_error hv'⟩

/-- What comes before the first call only has to be known. -/
theorem after {f : α → Act σ β} {a : α} {v : World σ} (ha : ∀ call, act call w = .ok a v)
    (h : (f a).CallsFirst v C) : (act >>= f).CallsFirst w C := by
  obtain ⟨m, inv, u, hC, hfail⟩ := h
  refine ⟨m, inv, u, hC, fun call e v' he hv' => ?_⟩
  obtain ⟨v'', hv''⟩ := hfail call e v' he hv'
  exact ⟨v'', (bind_of_ok (ha call)).trans hv''⟩

theorem attempt (h : act.CallsFirst w C) : act.attempt.CallsFirst w C := by
  obtain ⟨m, inv, u, hC, hfail⟩ := h
  refine ⟨m, inv, u, hC, fun call f v hf hv => ?_⟩
  obtain ⟨v', hv'⟩ := hfail call f v hf hv
  exact ⟨v', attempt_of_failure hv' hf⟩

theorem ensuring {cleanup : State → State} (h : act.CallsFirst w C) :
    (Act.ensuring cleanup act).CallsFirst w C := by
  obtain ⟨m, inv, u, hC, hfail⟩ := h
  refine ⟨m, inv, u, hC, fun call f v hf hv => ?_⟩
  obtain ⟨v', hv'⟩ := hfail call f v hf hv
  exact ⟨_, ensuring_of_error hv'⟩

/-- The first call is made, however it is answered. -/
theorem makes (h : act.CallsFirst w C) (call : Invoker σ) :
    ∃ m inv u, C m inv u ∧ act.Makes call w m inv u := by
  obtain ⟨m, inv, u, hC, hfail⟩ := h
  exact ⟨m, inv, u, hC, makes_of_failing fun f hf => hfail _ f u hf Invoker.failing_self⟩

end CallsFirst

end Act

end TwinHeap
