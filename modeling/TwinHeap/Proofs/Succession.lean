import TwinHeap.Proofs.Relay
import TwinHeap.Proofs.Sights
import Mathlib.Data.List.Induction

/-!
# Succession — the order of the spots of a session

What runs from a spot begins with the world of the spot and leaves another (`Spot.left`). Of two spots
of a session, one lies within the run from the other, or the one run is over when the other begins
(`Growth.apart`). So where hosts only grow the hosts of any two spots are in order (`Growth.ordered`),
and that of the spot which comes later is the larger one (`Growth.precedes`).
-/

namespace TwinHeap

variable {σ : Type}

/-- Hosts only grow in this way, whatever foreign code and the host ask for. -/
structure Growth (R : Host → Host → Prop) : Prop where
  refl : ∀ h, R h h
  trans : ∀ {h h' h''}, R h h' → R h' h'' → R h h''
  alone : ∀ {r : Request} {f : State → State}, r.alone? = some f → ∀ s : State, R s.host (f s).host

/-- The world that the run from a spot leaves. -/
def Spot.left (x : Spot σ) : World σ := World.leftBy (x.program.run (callAt x.depth) x.world)

/-- One spot of a session comes before another: its run leads to that, or it lies within a request or
in a program which is over by then. -/
inductive Precedes (start : World σ) (ps : List (Nat × Program σ)) : Spot σ → Spot σ → Prop
  | leads {x y : Spot σ} (hx : Along start ps x) (h : x.Leads y) : Precedes start ps x y
  | answered {x y z t : Spot σ} (hz : Along start ps z) (hx : z.Within x) (ht : z.Step t)
      (hdepth : t.depth = z.depth) (hy : t.Leads y) : Precedes start ps x y
  | ended {x y : Spot σ} {done more : List (Nat × Program σ)} {n n' : Nat} {p p' : Program σ}
      {w w' : World σ} (hw : After start done w) (hx : Spot.Leads ⟨n, [], p, w⟩ x)
      (hw' : After start (done ++ (n, p) :: more) w')
      (hps : done ++ (n, p) :: more ++ [(n', p')] <+: ps) (hy : Spot.Leads ⟨n', [], p', w'⟩ y) :
      Precedes start ps x y

namespace Growth

variable {R : Host → Host → Prop} (G : Growth R)

include G

/-! ## Requests and programs -/

section Calls

variable {call : Invoker σ} {h h' : Host} {calls : List (Nat × Invocation × World σ)}
  {c c' : Nat × Invocation × World σ}
  (hc : ∀ m inv u, R u.state.host (World.leftBy (call m inv u)).state.host)

include hc

theorem relay (hr : Relay call h calls h') : R h h' := by
  induction hr with
  | nil => exact G.refl _
  | cons _ ih => exact G.trans (hc _ _ _) ih

/-- The host grows up to a call, and after it. -/
theorem relay_around (hr : Relay call h calls h') (hm : c ∈ calls) :
    R h c.2.2.state.host ∧ R (World.leftBy (call c.1 c.2.1 c.2.2)).state.host h' := by
  induction hr with
  | nil => exact (List.not_mem_nil hm).elim
  | cons hrest ih =>
    obtain rfl | hm := List.mem_cons.1 hm
    · exact ⟨G.refl _, G.relay hc hrest⟩
    · exact ⟨G.trans (hc _ _ _) (ih hm).1, (ih hm).2⟩

/-- Of two calls the one is over when the other is made. -/
theorem relay_apart (hr : Relay call h calls h') (hm : c ∈ calls) (hm' : c' ∈ calls) : c = c' ∨
    R (World.leftBy (call c.1 c.2.1 c.2.2)).state.host c'.2.2.state.host ∨
      R (World.leftBy (call c'.1 c'.2.1 c'.2.2)).state.host c.2.2.state.host := by
  induction hr with
  | nil => exact (List.not_mem_nil hm).elim
  | cons hrest ih =>
    obtain rfl | hm := List.mem_cons.1 hm <;> obtain rfl | hm' := List.mem_cons.1 hm'
    · exact .inl rfl
    · exact .inr (.inl (G.relay_around hc hrest hm').1)
    · exact .inr (.inr (G.relay_around hc hrest hm).1)
    · exact ih hm hm'

/-- A request lets the host grow. -/
theorem perform (r : Request) (w : World σ) :
    R w.state.host (World.leftBy (r.perform call w)).state.host := by
  obtain ⟨f, reply, hf, hreply⟩ | ⟨calls, -, hrelay⟩ := r.alone_or_relays call w
  · rw [hreply]
    exact G.alone hf _
  · exact G.relay hc hrelay

/-- It does so up to each of its calls, and after it. -/
theorem perform_around {r : Request} {w u : World σ} {m : Nat} {inv : Invocation}
    (hm : r.perform.Makes call w m inv u) : R w.state.host u.state.host ∧
      R (World.leftBy (call m inv u)).state.host (World.leftBy (r.perform call w)).state.host := by
  obtain ⟨f, reply, -, hreply⟩ | ⟨calls, honly, hrelay⟩ := r.alone_or_relays call w
  · exact absurd hm (Act.not_makes_of_const fun call' => (hreply call').trans (hreply call).symm)
  · exact G.relay_around hc hrelay (honly.of_makes hm)

/-- Of two calls of a request the one is over when the other is made. -/
theorem perform_apart {r : Request} {w u u' : World σ} {m m' : Nat} {inv inv' : Invocation}
    (hm : r.perform.Makes call w m inv u) (hm' : r.perform.Makes call w m' inv' u') :
    (m, inv, u) = (m', inv', u') ∨
      R (World.leftBy (call m inv u)).state.host u'.state.host ∨
      R (World.leftBy (call m' inv' u')).state.host u.state.host := by
  obtain ⟨f, reply, -, hreply⟩ | ⟨calls, honly, hrelay⟩ := r.alone_or_relays call w
  · exact absurd hm (Act.not_makes_of_const fun call' => (hreply call').trans (hreply call).symm)
  · exact G.relay_apart hc hrelay (honly.of_makes hm) (honly.of_makes hm')

theorem run (p : Program σ) (w : World σ) :
    R w.state.host (World.leftBy (p.run call w)).state.host := by
  induction p generalizing w with
  | done | throw | panic => exact G.refl _
  | observe next ih => exact ih _ _ w
  | remember memory next ih => exact ih { w with memory := memory }
  | define info body next _ ih => exact ih w.bodies.length (w.define info body)
  | ask r next ih =>
    have hgrown := G.perform hc r w
    rw [run_ask]
    cases hr : r.perform call w with
    | error f v =>
      rw [hr] at hgrown
      exact hgrown
    | ok reply v =>
      rw [hr] at hgrown
      exact G.trans hgrown (ih reply v)

end Calls

/-- A method that is called lets the host grow. The induction is on how deep calls may nest. -/
theorem called (n m : Nat) (inv : Invocation) (w : World σ) :
    R w.state.host (World.leftBy (callAt n m inv w)).state.host := by
  induction n generalizing m inv w with
  | zero => exact G.refl _
  | succ n ih =>
    rw [callAt_succ]
    cases w.bodies[m]? with
    | none => exact G.refl _
    | some body => exact G.run ih (body inv) (w.countCall m)

/-! ## Spots -/

variable {x y z : Spot σ}

theorem left (x : Spot σ) : R x.world.state.host x.left.state.host :=
  G.run (G.called x.depth) x.program x.world

/-- After a request has been answered the host still grows. -/
theorem left_ask (n : Nat) (es : List (Enclosing σ)) (r : Request) (next : r.Reply → Program σ)
    (w : World σ) : R (World.leftBy (r.perform (callAt n) w)).state.host
      (Spot.left ⟨n, es, .ask r next, w⟩).state.host := by
  unfold Spot.left
  rw [run_ask]
  cases r.perform (callAt n) w with
  | error f v => exact G.refl _
  | ok reply v => exact G.run (G.called n) (next reply) v

/-- The run from the next spot lies within the run from this one. -/
theorem step (h : x.Step y) :
    R x.world.state.host y.world.state.host ∧ R y.left.state.host x.left.state.host := by
  cases h with
  | observe | remember | define => exact ⟨G.refl _, G.refl _⟩
  | @answered n es r next reply w u hr =>
    have hgrown := G.perform (G.called n) r w
    rw [hr] at hgrown
    refine ⟨hgrown, ?_⟩
    unfold Spot.left
    rw [run_ask, hr]
    exact G.refl _
  | @entered n es r next w u m inv body hm hb =>
    obtain ⟨hbefore, hafter⟩ := G.perform_around (G.called (n + 1)) hm
    rw [callAt_succ, hb] at hafter
    exact ⟨hbefore, G.trans hafter (G.left_ask (n + 1) es r next w)⟩

theorem leads (h : x.Leads y) :
    R x.world.state.host y.world.state.host ∧ R y.left.state.host x.left.state.host := by
  induction h with
  | refl => exact ⟨G.refl _, G.refl _⟩
  | tail _ hs ih => exact ⟨G.trans ih.1 (G.step hs).1, G.trans (G.step hs).2 ih.2⟩

/-- What is within a request is over when it is answered. -/
theorem within (hx : z.Within x) {t : Spot σ} (ht : z.Step t) (hdepth : t.depth = z.depth) :
    R x.left.state.host t.world.state.host := by
  obtain ⟨y, hy, hlt, hlead⟩ := hx
  refine G.trans (G.leads hlead).2 ?_
  cases hy with
  | observe | remember | define | answered => exact absurd hlt (Nat.lt_irrefl _)
  | @entered n es r next w u m inv body hm hb =>
    cases ht with
    | entered => exact absurd hdepth (Nat.ne_of_lt (Nat.lt_succ_self n))
    | @answered _ _ _ _ reply _ v hr =>
      have hafter := (G.perform_around (G.called (n + 1)) hm).2
      rw [callAt_succ, hb, hr] at hafter
      exact hafter

/-- Of two spots that may come next, the run from the one is over when the other begins. -/
theorem apart (hy : x.Step y) (hz : x.Step z) : y = z ∨
    R y.left.state.host z.world.state.host ∨ R z.left.state.host y.world.state.host := by
  cases hy with
  | observe | remember | define =>
    cases hz
    exact .inl rfl
  | @answered n es r next reply w u hr =>
    cases hz with
    | answered hr' =>
      cases hr.symm.trans hr'
      exact .inl rfl
    | entered hm hb =>
      exact .inr (.inr (G.within ⟨_, .entered hm hb, Nat.lt_succ_self _, .refl⟩ (.answered hr) rfl))
  | @entered n es r next w u m inv body hm hb =>
    cases hz with
    | answered hr =>
      exact .inr (.inl (G.within ⟨_, .entered hm hb, Nat.lt_succ_self _, .refl⟩ (.answered hr) rfl))
    | @entered _ _ _ _ _ u' m' inv' body' hm' hb' =>
      obtain heq | hover := G.perform_apart (G.called (n + 1)) hm hm'
      · -- The same call of the same method leads into the same body.
        cases heq
        cases hb.symm.trans hb'
        exact .inl rfl
      · rw [callAt_succ, callAt_succ, hb, hb'] at hover
        exact .inr hover

/-- Where the one run is over when the other begins, all its spots come before those of the other. -/
theorem passed {y' z' : Spot σ} (h : R y'.left.state.host z'.world.state.host) (hy : y'.Leads y)
    (hz : z'.Leads z) : R y.world.state.host z.world.state.host :=
  G.trans (G.left y) (G.trans (G.leads hy).2 (G.trans h (G.leads hz).1))

/-- The hosts of the spots that a spot leads to are in order. -/
theorem ordered_leads (hy : x.Leads y) (hz : x.Leads z) :
    R y.world.state.host z.world.state.host ∨ R z.world.state.host y.world.state.host := by
  -- Along the way to `y`: as long as the way to `z` is the same there is nothing to show, and where they
  -- part the one run is over when the other begins.
  induction hy using Relation.ReflTransGen.head_induction_on with
  | refl => exact .inl (G.leads hz).1
  | head hstep hlead ih =>
    obtain rfl | ⟨z', hstep', hlead'⟩ := hz.cases_head
    · exact .inr (G.leads (.head hstep hlead)).1
    obtain rfl | hover | hover := G.apart hstep hstep'
    · exact ih hlead'
    · exact .inl (G.passed hover hlead hlead')
    · exact .inr (G.passed hover hlead' hlead)

end Growth

/-! ## Sessions -/

variable {start w v : World σ} {done more ps : List (Nat × Program σ)} {x y : Spot σ}

/-- What programs leave is determined by them. -/
theorem After.unique (h : After start ps w) (h' : After start ps v) : w = v := by
  induction ps using List.reverseRecOn generalizing w v with
  | nil => rw [h.eq_start, h'.eq_start]
  | append_singleton ps q ih =>
    obtain ⟨u, hu, hr⟩ := h.concat
    obtain ⟨u', hu', hr'⟩ := h'.concat
    obtain rfl := ih hu hu'
    obtain ⟨a, hr⟩ | ⟨f, -, hr⟩ := hr <;> obtain ⟨a', hr'⟩ | ⟨f', -, hr'⟩ := hr' <;>
      cases hr.symm.trans hr' <;> rfl

/-- The program that was run last has left the world. -/
theorem After.left_last {n : Nat} {p : Program σ} (h : After start (done ++ [(n, p)]) v)
    (hw : After start done w) : Spot.left ⟨n, [], p, w⟩ = v := by
  obtain ⟨u, hu, hr⟩ := h.concat
  obtain rfl := hw.unique hu
  unfold Spot.left
  obtain ⟨a, hr⟩ | ⟨f, -, hr⟩ := hr <;> rw [hr] <;> rfl

/-- The spots of a session are those that one of its programs leads to. -/
theorem Along.leads_of (hx : Along start ps x) : ∃ done n p w,
    After start done w ∧ done ++ [(n, p)] <+: ps ∧ Spot.Leads ⟨n, [], p, w⟩ x := by
  induction hx with
  | begins h hps => exact ⟨_, _, _, _, h, hps, .refl⟩
  | step _ hs ih =>
    obtain ⟨done, n, p, w, h, hps, hlead⟩ := ih
    exact ⟨done, n, p, w, h, hps, hlead.tail hs⟩

namespace Growth

variable {R : Host → Host → Prop} (G : Growth R)

include G

theorem after (h : After start (done ++ more) v) :
    ∃ w, After start done w ∧ R w.state.host v.state.host := by
  induction more using List.reverseRecOn generalizing v with
  | nil => exact ⟨v, by simpa using h, G.refl _⟩
  | append_singleton more q ih =>
    obtain ⟨u, hu, -⟩ := After.concat (List.append_assoc done more [q] ▸ h)
    obtain ⟨w, hw, hgrown⟩ := ih hu
    have hleft := After.left_last (List.append_assoc done more [q] ▸ h) hu
    exact ⟨w, hw, G.trans hgrown (hleft ▸ G.left ⟨q.1, [], q.2, u⟩)⟩

/-- The host has grown since the session began. -/
theorem along (hx : Along start ps x) : R start.state.host x.world.state.host := by
  obtain ⟨done, n, p, w, hw, -, hlead⟩ := hx.leads_of
  obtain ⟨u, hu, hgrown⟩ := G.after (List.nil_append done ▸ hw)
  obtain rfl := hu.eq_start
  exact G.trans hgrown (G.leads hlead).1

/-- A program is over when a later one begins. -/
theorem ended {n : Nat} {p : Program σ} (hw : After start done w)
    (hv : After start (done ++ (n, p) :: more) v) :
    R (Spot.left ⟨n, [], p, w⟩).state.host v.state.host := by
  rw [List.append_cons] at hv
  obtain ⟨u, hu, hgrown⟩ := G.after hv
  rw [hu.left_last hw]
  exact hgrown

/-- What comes later has the larger host. -/
theorem precedes (h : Precedes start ps x y) : R x.world.state.host y.world.state.host := by
  cases h with
  | leads _ h => exact (G.leads h).1
  | answered _ hx ht hdepth hy =>
    exact G.trans (G.left x) (G.trans (G.within hx ht hdepth) (G.leads hy).1)
  | ended hw hx hw' _ hy => exact G.passed (G.ended hw hw') hx hy

/-- The hosts of any two spots of a session are in order. -/
theorem ordered (hx : Along start ps x) (hy : Along start ps y) :
    R x.world.state.host y.world.state.host ∨ R y.world.state.host x.world.state.host := by
  obtain ⟨done, n, p, w, hw, hps, hlead⟩ := hx.leads_of
  obtain ⟨done', n', p', w', hw', hps', hlead'⟩ := hy.leads_of
  have hlater {done done' : List (Nat × Program σ)} {n n' : Nat} {p p' : Program σ}
      {w w' : World σ} {x y : Spot σ} (hw : After start done w) (hw' : After start done' w')
      (hlead : Spot.Leads ⟨n, [], p, w⟩ x) (hlead' : Spot.Leads ⟨n', [], p', w'⟩ y)
      (hle : done ++ [(n, p)] <+: done' ++ [(n', p')]) :
      R x.world.state.host y.world.state.host ∨ R y.world.state.host x.world.state.host := by
    obtain heq | ⟨more, rfl⟩ := List.prefix_concat_iff.1 hle
    · obtain ⟨rfl, hlast⟩ := List.append_inj' heq rfl
      obtain ⟨rfl, rfl⟩ := Prod.mk.inj (List.singleton_inj.1 hlast)
      obtain rfl := hw.unique hw'
      exact G.ordered_leads hlead hlead'
    · rw [List.append_assoc, List.singleton_append] at hw'
      exact .inl (G.passed (G.ended hw hw') hlead hlead')
  obtain hle | hle := List.prefix_or_prefix_of_prefix hps hps'
  · exact hlater hw hw' hlead hlead' hle
  · exact (hlater hw' hw hlead' hlead hle).symm

end Growth

end TwinHeap
