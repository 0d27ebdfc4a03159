import TwinHeap.Proofs.Linker
import TwinHeap.Proofs.Runs

/-!
# Linking — what is linked stays linked

A redirector is bound to what linking its function finds, of a method that its key finds
(`Redirector.Fitting`). Every change of the bridge keeps that (`State.Bound`), so it holds wherever a
session comes to.
-/

namespace TwinHeap

variable {σ : Type}

/-- The binding is what linking the function finds, of a method that the key finds. -/
def Redirector.Fitting (r : Redirector) (registry : Registry) (methods : List MethodInfo)
    (l : Linkage) (m : Nat) : Prop :=
  Linkage.link registry r.function r.method = .ok l ∧ ∃ info, methods[m]? = some info ∧
    info.assembly = r.method.assembly ∧ r.method.signature.accepts info.signature = true ∧
    info.parameterCount = r.method.parameterCount

/-- Every binding that was linked fits. -/
def State.Bound (s : State) : Prop :=
  ∀ key r l m, s.redirector? key = some r → r.binding = .linked l m →
    r.Fitting s.bridge.registry s.foreign.methods l m

/-- A method that is called or defined later is no hindrance. -/
theorem Redirector.Fitting.of_methods {r : Redirector} {registry : Registry}
    {methods methods' : List MethodInfo} {l : Linkage} {m : Nat}
    (h : r.Fitting registry methods l m)
    (hm : ∀ (i : Nat) (info : MethodInfo), methods[i]? = some info → ∃ calls,
      methods'[i]? = some { info with calls := calls }) : r.Fitting registry methods' l m := by
  obtain ⟨hlink, info, hget, hassembly, haccepts, hcount⟩ := h
  obtain ⟨calls, hget'⟩ := hm m info hget
  exact ⟨hlink, _, hget', hassembly, haccepts, hcount⟩

/-- What a link finds fits. -/
theorem Redirector.fitting_of_resolve {r : Redirector} {registry : Registry} {f : Foreign}
    {l : Linkage} {m : Nat} (h : r.resolve registry f = .ok (l, m)) :
    r.Fitting registry f.methods l m := by
  unfold resolve at h
  cases hfind : f.findMethod r.method.assembly r.method.signature with
  | error e => rw [hfind] at h; cases h
  | ok m' =>
    rw [hfind] at h
    dsimp only [bind, Except.bind] at h
    unfold Foreign.findMethod at hfind
    split at hfind
    · rename_i m₀ hlookup
      cases hfind
      -- The method is the first one that the signature accepts.
      obtain ⟨hlt, hmatch, -⟩ := List.findIdx?_eq_some_iff_getElem.1 hlookup
      rw [Bool.and_eq_true, beq_iff_eq] at hmatch
      have hget : f.methods[m']? = some f.methods[m'] := List.getElem?_eq_getElem hlt
      rw [hget] at h
      split at h
      · cases h
      · rename_i hcount
        cases hlink : Linkage.link registry r.function r.method with
        | error e => rw [hlink] at h; cases h
        | ok l' =>
          rw [hlink] at h
          cases h
          exact ⟨hlink, _, hget, hmatch.1, hmatch.2, by simpa using hcount⟩
    · cases hfind

namespace State.Bound

variable {s s' : State}

theorem of_same (h : s.Bound) (hr : s'.bridge.redirectors = s.bridge.redirectors)
    (hreg : s'.bridge.registry = s.bridge.registry) (hm : s'.foreign.methods = s.foreign.methods) :
    s'.Bound := by
  intro key r l m hget hl
  rw [hreg, hm]
  unfold redirector? at hget
  rw [hr] at hget
  exact h key r l m hget hl

/-- A redirector changes: its function and its method stay, and a new binding fits. -/
theorem modifyRedirector (h : s.Bound) (key : Redirector.Key) {f : Redirector → Redirector}
    (hf : ∀ r, s.redirector? key = some r → (f r).function = r.function ∧
      (f r).method = r.method ∧ ∀ l m, (f r).binding = .linked l m →
        r.binding = .linked l m ∨ r.Fitting s.bridge.registry s.foreign.methods l m) :
    (s.modifyRedirector key f).Bound := by
  intro key' r l m hget hl
  have hget : (s.bridge.redirectors.modify key f).get? key' = some r := hget
  rw [Table.get?_modify] at hget
  split at hget
  · rename_i hkey
    subst hkey
    obtain ⟨r₀, hr₀, rfl⟩ := Option.map_eq_some_iff.1 hget
    obtain ⟨hfun, hmethod, hbinding⟩ := hf r₀ hr₀
    have hfit : r₀.Fitting s.bridge.registry s.foreign.methods l m := by
      obtain hold | hnew := hbinding l m hl
      · exact h key r₀ l m hr₀ hold
      · exact hnew
    unfold Redirector.Fitting
    rw [hfun, hmethod]
    exact hfit
  · exact h key' r l m hget hl

theorem dropEntry (h : s.Bound) (host : Address) : (s.dropEntry host).Bound := by
  unfold State.dropEntry
  split
  · exact h
  · exact h.of_same rfl rfl rfl

theorem leave (h : s.Bound) (key : Redirector.Key) : (s.leave key).Bound := by
  have hless := h.modifyRedirector key (f := fun r => { r with depth := r.depth - 1 })
    fun r _ => ⟨rfl, rfl, fun l m hl => .inl hl⟩
  unfold State.leave
  dsimp only
  split
  · exact hless
  · exact hless.of_same rfl rfl rfl

theorem outcome {r : Request} (h : s.Bound) (ho : r.Outcome s s') : s'.Bound := by
  cases ho with
  | redirect => exact fun key r l m hr hl => h key r l m (State.linked_of_register hr hl) hl
  | _ => exact h.of_same rfl rfl rfl

/-- No change of the bridge binds anything but what fits. -/
theorem change {T : Terms} {o o' : List Owed} (h : s.Bound) (hc : Change T o s o' s') :
    s'.Bound := by
  cases hc with
  | @write _ _ a => cases a <;> exact h.of_same rfl rfl rfl
  | @store _ _ a => cases a <;> exact h.of_same rfl rfl rfl
  | bind hr hu hb =>
    refine h.modifyRedirector _ fun r hr' => ⟨rfl, rfl, fun l m hl => .inr ?_⟩
    obtain rfl := Option.some.inj (hr.symm.trans hr')
    exact Redirector.fitting_of_resolve (hb l m hl)
  | clear => exact h.dropEntry _
  | unmake => exact h.dropEntry _
  | make _ _ _ ht =>
    rw [State.addProxy_of_isType ht]
    exact h.of_same rfl rfl rfl
  | enter key =>
    refine (h.modifyRedirector key (f := fun r => { r with depth := r.depth + 1 })
      fun r _ => ⟨rfl, rfl, fun l m hl => .inl hl⟩).of_same rfl rfl rfl
  | leave => exact h.leave _
  | root a =>
    unfold State.root
    split <;> exact h.of_same rfl rfl rfl
  | alone _ _ hf => exact h.outcome (Request.outcome hf s)
  | _ => exact h.of_same rfl rfl rfl

end State.Bound

/-- Methods that are defined come behind those that were there. -/
theorem World.bound_define {w : World σ} (h : w.state.Bound) (info : MethodInfo)
    (body : Invocation → Program σ) : (w.define info body).state.Bound := by
  intro key r l m hr hl
  refine (h key r l m hr hl).of_methods fun i info' hi => ⟨info'.calls, ?_⟩
  rw [← hi]
  exact List.getElem?_append_left (List.getElem?_eq_some_iff.1 hi).1

/-- Counting a call changes a counter only. -/
theorem World.bound_countCall {w : World σ} (h : w.state.Bound) (m : Nat) :
    (w.countCall m).state.Bound := by
  intro key r l m' hr hl
  refine (h key r l m' hr hl).of_methods fun i info hi => ?_
  show ∃ calls, (w.state.foreign.methods.modify m _)[i]? = _
  rw [List.getElem?_modify, hi]
  by_cases hm : m = i
  · exact ⟨info.calls + 1, by simp [hm]⟩
  · exact ⟨info.calls, by simp [hm]⟩

/-- A session binds functions only to what linking them finds. -/
def boundRealm : Realm σ :=
  .everywhere (fun _ w => w.state.Bound) (fun _ h => h) (fun _ h => h)
    (fun info body h => World.bound_define h info body) (fun m h => World.bound_countCall h m)
    fun h hc => h.change hc

/-- Wherever a session comes to, what is linked fits. -/
theorem Session.Sees.bound {config : Config} {registry : Registry} {side : ForeignSide σ}
    {memory : σ} {start w : World σ} {rs : List Request}
    (hstart : World.connect config registry side memory = .ok start)
    (h : Session.Sees (fun _ _ => True) (fun _ => True) start rs w) : w.state.Bound := by
  have hbound : start.state.Bound := by
    intro key r l m hr
    unfold State.redirector? at hr
    rw [(World.of_connect hstart).2.2.2] at hr
    cases hr
  obtain ⟨o, hw, -⟩ := Realm.sees (R := boundRealm) hbound h
  exact hw

end TwinHeap
