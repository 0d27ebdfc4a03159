import TwinHeap.Proofs.Spots
import TwinHeap.Proofs.Outputs
import Mathlib.Logic.Relation
import Mathlib.Logic.ExistsUnique

/-!
# Sights — what is seen of a request while it is performed

`Act.Proceeds` is an answer together with all the calls that were made for it, and so with all the ways
into foreign code. With it the spots that a request comes to (`Spot.Within`) can be told from those of
its calls. `Sights` says of a part of a run which constructors were run in it for which host objects,
and how the requests for proxies were answered.
-/

namespace TwinHeap

variable {σ α β : Type}

/-! ## Answers and the calls made for them -/

namespace Act

/-- From `w` the action answers `a` and leaves `v`, having made exactly these calls. -/
structure Proceeds (act : Act σ α) (call : Invoker σ) (w : World σ)
    (calls : List (Nat × Invocation × World σ)) (a : α) (v : World σ) : Prop where
  answers : act call w = .ok a v
  strict : act.Strict call w
  only : act.OnlyCalls call w fun m inv u => (m, inv, u) ∈ calls
  comes : ∀ m inv u, (m, inv, u) ∈ calls →
    Comes call act w (callMethod m inv.receiver inv.args) u

namespace Proceeds

variable {act : Act σ α} {call : Invoker σ} {w u v : World σ} {a : α} {b : β}
  {calls calls' : List (Nat × Invocation × World σ)}

theorem makes_iff (h : act.Proceeds call w calls a v) {m : Nat} {inv : Invocation} :
    act.Makes call w m inv u ↔ (m, inv, u) ∈ calls :=
  ⟨fun hm => h.only.of_makes hm, fun hm => (h.comes m inv u hm).makes⟩

theorem of_const (h : ∀ call', act call' w = .ok a v) : act.Proceeds call w [] a v where
  answers := h call
  strict := .of_const fun call' => (h call').trans (h call).symm
  only := .of_const fun call' => (h call').trans (h call).symm
  comes _ _ _ hm := (List.not_mem_nil hm).elim

theorem bind {f : α → Act σ β} (h : act.Proceeds call w calls a u)
    (hf : (f a).Proceeds call u calls' b v) :
    (act >>= f).Proceeds call w (calls ++ calls') b v where
  answers := (bind_of_ok h.answers).trans hf.answers
  strict := by
    refine h.strict.bind fun a' u' ha => ?_
    cases h.answers.symm.trans ha
    exact hf.strict
  only := by
    refine (h.only.mono fun _ _ _ hm => List.mem_append_left _ hm).bind fun a' u' ha => ?_
    cases h.answers.symm.trans ha
    exact hf.only.mono fun _ _ _ hm => List.mem_append_right _ hm
  comes m inv x hm := by
    obtain hm | hm := List.mem_append.1 hm
    · exact (Comes.first .here).trans (h.comes m inv x hm)
    · exact (Comes.next .here h.strict h.answers).trans (hf.comes m inv x hm)

/-- What comes before the calls. -/
theorem after {f : α → Act σ β} (h : ∀ call', act call' w = .ok a u)
    (hf : (f a).Proceeds call u calls b v) : (act >>= f).Proceeds call w calls b v :=
  (of_const h).bind hf

/-- What comes behind them. -/
theorem before {f : α → Act σ β} (h : act.Proceeds call w calls a u)
    (hf : ∀ call', f a call' u = .ok b v) : (act >>= f).Proceeds call w calls b v :=
  List.append_nil calls ▸ h.bind (of_const hf)

theorem state_bind {f : State → Act σ β} (h : (f w.state).Proceeds call w calls b v) :
    (Act.state >>= f).Proceeds call w calls b v :=
  after (fun _ => rfl) h

theorem ensuring {cleanup : State → State} (h : act.Proceeds call w calls a v) :
    (Act.ensuring cleanup act).Proceeds call w calls a { v with state := cleanup v.state } where
  answers := ensuring_of_ok h.answers
  strict := h.strict.ensuring
  only := h.only.ensuring
  comes m inv x hm := (Comes.ensuring .here).trans (h.comes m inv x hm)

theorem attempt (h : act.Proceeds call w calls a v) :
    act.attempt.Proceeds call w calls (.ok a) v where
  answers := attempt_of_ok h.answers
  strict := h.strict.attempt
  only := h.only.attempt
  comes m inv x hm := (Comes.attempt .here).trans (h.comes m inv x hm)

theorem callMethod {m : Nat} {inv : Invocation} {a : Except ForeignException (Option Address)}
    (h : call m inv w = .ok a v) :
    (Act.callMethod m inv.receiver inv.args).Proceeds call w [(m, inv, w)] a v where
  answers := h
  strict _ _ _ hc := hc _ _ _
  only _ hc := hc _ _ _ (List.mem_singleton.2 rfl)
  comes m' inv' x hm := by
    cases List.mem_singleton.1 hm
    exact .here

/-- A cell is lent meanwhile. -/
theorem withCell {new : Value} {f : Address → Act σ α}
    (h : (f (.ofCell w.state.memory.next)).Proceeds call (w.lend new) calls a v) :
    (Act.withCell new f).Proceeds call w calls a
      { v with state := v.state.discard w.state.memory.next } := by
  unfold Act.withCell
  exact after (fun _ => rfl) h.ensuring

end Proceeds

end Act

/-! ## What is within a request -/

namespace Spot

/-- A run that comes to the one spot comes to the other, there or in a method that it calls. -/
abbrev Leads : Spot σ → Spot σ → Prop := Relation.ReflTransGen Step

/-- What a request comes to in the methods that it calls, before it is answered. -/
def Within (x y : Spot σ) : Prop := ∃ z, x.Step z ∧ z.depth < x.depth ∧ z.Leads y

variable {n : Nat} {es : List (Enclosing σ)} {w u : World σ} {y : Spot σ}

theorem leads_done {a : Option Address} :
    Leads ⟨n, es, .done a, w⟩ y ↔ y = ⟨n, es, .done a, w⟩ := by
  refine ⟨fun h => ?_, fun h => h ▸ .refl⟩
  obtain rfl | ⟨_, hs, -⟩ := h.cases_head
  · rfl
  · cases hs

theorem leads_observe {next : State → σ → Program σ} : Leads ⟨n, es, .observe next, w⟩ y ↔
    y = ⟨n, es, .observe next, w⟩ ∨ Leads ⟨n, es, next w.state w.memory, w⟩ y := by
  refine ⟨fun h => ?_, fun h => h.elim (fun h => h ▸ .refl) fun h => .head .observe h⟩
  obtain rfl | ⟨_, hs, h⟩ := h.cases_head
  · exact .inl rfl
  · cases hs
    exact .inr h

theorem leads_remember {memory : σ} {next : Program σ} : Leads ⟨n, es, .remember memory next, w⟩ y ↔
    y = ⟨n, es, .remember memory next, w⟩ ∨ Leads ⟨n, es, next, { w with memory := memory }⟩ y := by
  refine ⟨fun h => ?_, fun h => h.elim (fun h => h ▸ .refl) fun h => .head .remember h⟩
  obtain rfl | ⟨_, hs, h⟩ := h.cases_head
  · exact .inl rfl
  · cases hs
    exact .inr h

theorem leads_define {info : MethodInfo} {body : Invocation → Program σ} {next : Nat → Program σ} :
    Leads ⟨n, es, .define info body next, w⟩ y ↔ y = ⟨n, es, .define info body next, w⟩ ∨
      Leads ⟨n, es, next w.bodies.length, w.define info body⟩ y := by
  refine ⟨fun h => ?_, fun h => h.elim (fun h => h ▸ .refl) fun h => .head .define h⟩
  obtain rfl | ⟨_, hs, h⟩ := h.cases_head
  · exact .inl rfl
  · cases hs
    exact .inr h

/-- A run comes to what is within the request that it makes, and to what follows the answer. -/
theorem leads_ask {r : Request} {next : r.Reply → Program σ} {reply : r.Reply}
    (hr : r.perform (callAt n) w = .ok reply u) : Leads ⟨n, es, .ask r next, w⟩ y ↔
      y = ⟨n, es, .ask r next, w⟩ ∨ Within ⟨n, es, .ask r next, w⟩ y ∨
        Leads ⟨n, es, next reply, u⟩ y := by
  constructor
  · intro h
    obtain rfl | ⟨z, hs, h⟩ := h.cases_head
    · exact .inl rfl
    · cases hs with
      | answered hr' =>
        cases hr.symm.trans hr'
        exact .inr (.inr h)
      | entered hm hb => exact .inr (.inl ⟨_, .entered hm hb, Nat.lt_succ_self _, h⟩)
  · rintro (rfl | ⟨z, hs, -, h⟩ | h)
    · exact .refl
    · exact .head hs h
    · exact .head (.answered hr) h

/-- The spot is within one of these calls, made for the operation `r`. -/
def Called (r : Request) (w : World σ) (n : Nat) (es : List (Enclosing σ))
    (calls : List (Nat × Invocation × World σ)) (y : Spot σ) : Prop :=
  ∃ m inv v body, (m, inv, v) ∈ calls ∧ v.bodies[m]? = some body ∧
    Leads ⟨n, ⟨r, w, n + 1, m, inv, v⟩ :: es, body inv, v.countCall m⟩ y

/-- What a request comes to is within one of the calls made for it. -/
theorem within_iff {r : Request} {next : r.Reply → Program σ} {reply : r.Reply}
    {calls : List (Nat × Invocation × World σ)}
    (hr : r.perform.Proceeds (callAt (n + 1)) w calls reply u) :
    Within ⟨n + 1, es, .ask r next, w⟩ y ↔ Called r w n es calls y := by
  constructor
  · rintro ⟨z, hs, hlt, h⟩
    cases hs with
    | answered => exact absurd hlt (Nat.lt_irrefl _)
    | entered hm hb => exact ⟨_, _, _, _, hr.makes_iff.1 hm, hb, h⟩
  · rintro ⟨m, inv, v, body, hm, hb, h⟩
    exact ⟨_, .entered (hr.makes_iff.2 hm) hb, Nat.lt_succ_self n, h⟩

theorem called_nil {r : Request} : ¬Called r w n es [] y := by
  rintro ⟨m, inv, v, body, hm, -⟩
  cases hm

theorem called_cons {r : Request} {m : Nat} {inv : Invocation} {v : World σ}
    {body : Invocation → Program σ} {calls : List (Nat × Invocation × World σ)}
    (hb : v.bodies[m]? = some body) : Called r w n es ((m, inv, v) :: calls) y ↔
      Leads ⟨n, ⟨r, w, n + 1, m, inv, v⟩ :: es, body inv, v.countCall m⟩ y ∨
        Called r w n es calls y := by
  constructor
  · rintro ⟨m', inv', v', body', hm, hb', h⟩
    obtain hm | hm := List.mem_cons.1 hm
    · cases hm
      cases hb.symm.trans hb'
      exact .inl h
    · exact .inr ⟨m', inv', v', body', hm, hb', h⟩
  · rintro (h | ⟨m', inv', v', body', hm, hb', h⟩)
    · exact ⟨m, inv, v, body, List.mem_cons_self, hb, h⟩
    · exact ⟨m', inv', v', body', List.mem_cons_of_mem _ hm, hb', h⟩

/-- Nothing is within a request for which no method is called. -/
theorem not_within {r : Request} {next : r.Reply → Program σ} {reply : r.Reply}
    (hr : r.perform.Proceeds (callAt n) w [] reply u) : ¬Within ⟨n, es, .ask r next, w⟩ y := by
  rintro ⟨z, hs, hlt, -⟩
  cases hs with
  | answered => exact absurd hlt (Nat.lt_irrefl _)
  | entered hm hb => cases hr.makes_iff.1 hm

end Spot

/-! ## Sights -/

/-- The call runs the constructor of a host object's class for it. -/
def Enclosing.Runs (ctor : Address → Option Nat) (e : Enclosing σ) (a : Address) : Prop :=
  e.request = .proxy a ∧ ctor a = some e.method

/-- The operation is being performed at one of the spots, within those of `es`. -/
def Encloses (es : List (Enclosing σ)) (seen : Spot σ → Prop) (e : Enclosing σ) : Prop :=
  ∃ y inner, seen y ∧ y.around = inner ++ es ∧ e ∈ inner

/-- At these spots, all within the operations of `es`, the constructors of the host objects `made` are
run once each, and no other is. The requests for proxies are answered with those of `s`, and these are
what the methods are called on. -/
structure Sights (ctor : Address → Option Nat) (es : List (Enclosing σ)) (seen : Spot σ → Prop)
    (made : List Address) (s : State) : Prop where
  around : ∀ y, seen y → ∃ inner, y.around = inner ++ es ∧ ∀ e ∈ inner, ∃ a q,
    e.request = .proxy a ∧ e.inv.receiver = some q ∧ s.findProxy a = some q ∧
      (e.Runs ctor a → a ∈ made)
  answers : ∀ n fs a next w, seen ⟨n, fs, .ask (.proxy a) next, w⟩ → ∃ q v,
    (Request.proxy a).perform (callAt n) w = .ok (.ok q) v ∧ s.findProxy a = some q
  once : ∀ a ∈ made, ∃! e, Encloses es seen e ∧ e.Runs ctor a

namespace Encloses

variable {es : List (Enclosing σ)} {seen seen' : Spot σ → Prop} {e e' : Enclosing σ}

theorem mono (h : Encloses es seen e) (hseen : ∀ y, seen y → seen' y) : Encloses es seen' e := by
  obtain ⟨y, inner, hy, ha, he⟩ := h
  exact ⟨y, inner, hseen y hy, ha, he⟩

theorem or_iff : Encloses es (fun y => seen y ∨ seen' y) e ↔
    Encloses es seen e ∨ Encloses es seen' e := by
  refine ⟨?_, fun h => h.elim (·.mono fun _ => .inl) (·.mono fun _ => .inr)⟩
  rintro ⟨y, inner, hy | hy, ha, he⟩
  · exact .inl ⟨y, inner, hy, ha, he⟩
  · exact .inr ⟨y, inner, hy, ha, he⟩

/-- What is within one more operation. -/
theorem cons_iff (hseen : ∃ y, seen y) (hin : ∀ y, seen y → ∃ inner, y.around = inner ++ e :: es) :
    Encloses es seen e' ↔ e' = e ∨ Encloses (e :: es) seen e' := by
  have hsplit (inner : List (Enclosing σ)) : inner ++ e :: es = (inner ++ [e]) ++ es := by simp
  constructor
  · rintro ⟨y, inner, hy, ha, he⟩
    obtain ⟨inner', ha'⟩ := hin y hy
    rw [ha', hsplit] at ha
    rw [← List.append_cancel_right ha, List.mem_append, List.mem_singleton] at he
    exact he.symm.imp_right fun he => ⟨y, inner', hy, ha', he⟩
  · rintro (rfl | ⟨y, inner, hy, ha, he⟩)
    · obtain ⟨y, hy⟩ := hseen
      obtain ⟨inner, ha⟩ := hin y hy
      exact ⟨y, inner ++ [e'], hy, ha.trans (hsplit inner), by simp⟩
    · exact ⟨y, inner ++ [e], hy, ha.trans (hsplit inner), List.mem_append_left _ he⟩

end Encloses

namespace Sights

variable {ctor : Address → Option Nat} {es : List (Enclosing σ)} {seen seen' : Spot σ → Prop}
  {made made' : List Address} {s s' : State} {e : Enclosing σ} {a q : Address}

theorem mono (h : Sights ctor es seen made s)
    (hs : ∀ a q, s.findProxy a = some q → s'.findProxy a = some q) :
    Sights ctor es seen made s' where
  around y hy := by
    obtain ⟨inner, ha, hinner⟩ := h.around y hy
    refine ⟨inner, ha, fun e he => ?_⟩
    obtain ⟨a, q, hr, hi, hq, hmade⟩ := hinner e he
    exact ⟨a, q, hr, hi, hs a q hq, hmade⟩
  answers n fs a next w hy := by
    obtain ⟨q, v, hv, hq⟩ := h.answers n fs a next w hy
    exact ⟨q, v, hv, hs a q hq⟩
  once := h.once

theorem congr (h : Sights ctor es seen made s) (hseen : ∀ y, seen' y ↔ seen y) :
    Sights ctor es seen' made s := by
  rw [funext fun y => propext (hseen y)]
  exact h

/-- A constructor is only run for the objects in question. -/
theorem mem_of_runs (h : Sights ctor es seen made s) (he : Encloses es seen e)
    (hr : e.Runs ctor a) : a ∈ made := by
  obtain ⟨y, inner, hy, ha, he⟩ := he
  obtain ⟨inner', ha', hinner⟩ := h.around y hy
  cases List.append_cancel_right (ha.symm.trans ha')
  obtain ⟨a', q, hr', -, -, hmade⟩ := hinner e he
  cases hr.1.symm.trans hr'
  exact hmade hr

/-- Nothing is seen. -/
theorem unseen : Sights ctor es (fun _ : Spot σ => False) [] s where
  around _ hy := hy.elim
  answers _ _ _ _ _ hy := hy.elim
  once _ ha := (List.not_mem_nil ha).elim

/-- One more spot is seen, at which a request for a proxy is answered rightly if one is made. -/
theorem here {n : Nat} {p : Program σ} {w : World σ} (h : Sights ctor es seen made s)
    (hp : ∀ a next, p = .ask (.proxy a) next → ∃ q v,
      (Request.proxy a).perform (callAt n) w = .ok (.ok q) v ∧ s.findProxy a = some q) :
    Sights ctor es (fun y => y = ⟨n, es, p, w⟩ ∨ seen y) made s where
  around := by
    rintro y (rfl | hy)
    · exact ⟨[], rfl, fun _ he => (List.not_mem_nil he).elim⟩
    · exact h.around y hy
  answers n fs a next w hy := by
    obtain hy | hy := hy
    · cases hy
      exact hp a next rfl
    · exact h.answers n fs a next w hy
  once a ha := by
    obtain ⟨e, he, hunique⟩ := h.once a ha
    refine ⟨e, ⟨he.1.mono fun _ => .inr, he.2⟩, fun e' he' => hunique e' ⟨?_, he'.2⟩⟩
    refine (Encloses.or_iff.1 he'.1).resolve_left ?_
    rintro ⟨_, inner, rfl, ha, hmem⟩
    rw [List.self_eq_append_left.1 ha] at hmem
    cases hmem

/-- Two parts of a run in which different constructors are run. -/
theorem append (h : Sights ctor es seen made s) (h' : Sights ctor es seen' made' s)
    (hdisjoint : ∀ a ∈ made, a ∉ made') :
    Sights ctor es (fun y => seen y ∨ seen' y) (made ++ made') s where
  around y hy := by
    obtain hy | hy := hy
    · obtain ⟨inner, ha, hinner⟩ := h.around y hy
      refine ⟨inner, ha, fun e he => ?_⟩
      obtain ⟨a, q, hr, hi, hq, hmade⟩ := hinner e he
      exact ⟨a, q, hr, hi, hq, fun hruns => List.mem_append_left _ (hmade hruns)⟩
    · obtain ⟨inner, ha, hinner⟩ := h'.around y hy
      refine ⟨inner, ha, fun e he => ?_⟩
      obtain ⟨a, q, hr, hi, hq, hmade⟩ := hinner e he
      exact ⟨a, q, hr, hi, hq, fun hruns => List.mem_append_right _ (hmade hruns)⟩
  answers n fs a next w hy := by
    obtain hy | hy := hy
    · exact h.answers n fs a next w hy
    · exact h'.answers n fs a next w hy
  once a ha := by
    obtain ha | ha := List.mem_append.1 ha
    · obtain ⟨e, he, hunique⟩ := h.once a ha
      refine ⟨e, ⟨he.1.mono fun _ => .inl, he.2⟩, fun e' he' => hunique e' ⟨?_, he'.2⟩⟩
      exact (Encloses.or_iff.1 he'.1).resolve_right fun hin =>
        hdisjoint a ha (h'.mem_of_runs hin he'.2)
    · obtain ⟨e, he, hunique⟩ := h'.once a ha
      refine ⟨e, ⟨he.1.mono fun _ => .inr, he.2⟩, fun e' he' => hunique e' ⟨?_, he'.2⟩⟩
      exact (Encloses.or_iff.1 he'.1).resolve_left fun hin =>
        hdisjoint a (h.mem_of_runs hin he'.2) ha

/-- What is seen in a method that is called while a proxy is made, other than its constructor. -/
theorem enter (h : Sights ctor (e :: es) seen made s) (hr : e.request = .proxy a)
    (hi : e.inv.receiver = some q) (hq : s.findProxy a = some q) (hm : ctor a ≠ some e.method) :
    Sights ctor es seen made s where
  around y hy := by
    obtain ⟨inner, ha, hinner⟩ := h.around y hy
    refine ⟨inner ++ [e], by rw [ha]; simp, fun e' he => ?_⟩
    obtain he | he := List.mem_append.1 he
    · exact hinner e' he
    · cases List.mem_singleton.1 he
      refine ⟨a, q, hr, hi, hq, fun hruns => absurd hruns.2 hm⟩
  answers := h.answers
  once a' ha' := by
    obtain ⟨e', he', hunique⟩ := h.once a' ha'
    have hseen : ∃ y, seen y := by
      obtain ⟨y, _, hy, -⟩ := he'.1
      exact ⟨y, hy⟩
    have hcons (x : Enclosing σ) :
        Encloses es seen x ↔ x = e ∨ Encloses (e :: es) seen x :=
      Encloses.cons_iff hseen fun y hy => (h.around y hy).imp fun _ hy => hy.1
    refine ⟨e', ⟨(hcons e').2 (.inr he'.1), he'.2⟩, fun x hx => hunique x ⟨?_, hx.2⟩⟩
    refine ((hcons x).1 hx.1).resolve_left ?_
    rintro rfl
    cases hr.symm.trans hx.2.1
    exact hm hx.2.2

/-- What is seen in the constructor of an object. -/
theorem construct (h : Sights ctor (e :: es) seen made s) (hseen : ∃ y, seen y)
    (hr : e.request = .proxy a) (hi : e.inv.receiver = some q) (hq : s.findProxy a = some q)
    (hm : ctor a = some e.method) (ha : a ∉ made) : Sights ctor es seen (a :: made) s := by
  have hcons (x : Enclosing σ) :
      Encloses es seen x ↔ x = e ∨ Encloses (e :: es) seen x :=
    Encloses.cons_iff hseen fun y hy => (h.around y hy).imp fun _ hy => hy.1
  refine ⟨fun y hy => ?_, h.answers, fun a' ha' => ?_⟩
  · obtain ⟨inner, hy, hinner⟩ := h.around y hy
    refine ⟨inner ++ [e], by rw [hy]; simp, fun e' he => ?_⟩
    obtain he | he := List.mem_append.1 he
    · obtain ⟨b, p, hr, hi, hp, hmade⟩ := hinner e' he
      exact ⟨b, p, hr, hi, hp, fun hruns => List.mem_cons_of_mem _ (hmade hruns)⟩
    · cases List.mem_singleton.1 he
      exact ⟨a, q, hr, hi, hq, fun _ => List.mem_cons_self⟩
  · obtain rfl | ha' := List.mem_cons.1 ha'
    -- This call is around all that is seen, the constructors of others are run within it.
    · refine ⟨e, ⟨(hcons e).2 (.inl rfl), hr, hm⟩, fun x hx => ?_⟩
      exact ((hcons x).1 hx.1).resolve_right fun hin => ha (h.mem_of_runs hin hx.2)
    · obtain ⟨e', he', hunique⟩ := h.once a' ha'
      refine ⟨e', ⟨(hcons e').2 (.inr he'.1), he'.2⟩, fun x hx => hunique x ⟨?_, hx.2⟩⟩
      refine ((hcons x).1 hx.1).resolve_left ?_
      rintro rfl
      cases hr.symm.trans hx.2.1
      exact ha ha'

end Sights

end TwinHeap
