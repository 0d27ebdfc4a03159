import TwinHeap.Proofs.Equipping
import TwinHeap.Proofs.Selection

/-!
# Dispatch — a broadcast takes the turns of its bindings

A binding calls the redirector of the nearest class of its object that has one for its function, looked
up when its turn comes: the calls before it may have registered others, but they take back neither
objects nor classes (`invoke_extends`). So a broadcast takes one turn after the other, up to the first
that fails (`broadcast_in_turns`).
-/

namespace TwinHeap

variable {σ : Type}

/-! ## Hosts only grow -/

namespace Host

variable {h h' h'' : Host} {a : Address} {chain : List ClassInfo}

/-- No class was taken back, and no object has changed its class. -/
structure Extends (h h' : Host) : Prop where
  classes : h.classes <+: h'.classes
  classOf : ∀ a c, h.classOf a = .ok c → h'.classOf a = .ok c

theorem Extends.refl (h : Host) : h.Extends h := ⟨List.prefix_refl _, fun _ _ h => h⟩

theorem Extends.trans (h₁ : h.Extends h') (h₂ : h'.Extends h'') : h.Extends h'' :=
  ⟨h₁.classes.trans h₂.classes, fun a c hc => h₂.classOf a c (h₁.classOf a c hc)⟩

theorem Extends.of_eq (he : h' = h) : h.Extends h' := he ▸ .refl h

/-- The object was spawned, and this is its class with the ancestors of that, nearest first. -/
def Descends (h : Host) (a : Address) (chain : List ClassInfo) : Prop :=
  ∃ c, h.classOf a = .ok c ∧ h.Knows (h.lineage c) chain

/-- An object keeps its chain of classes. -/
theorem Extends.descends (he : h.Extends h') (ha : h.Descends a chain) : h'.Descends a chain := by
  obtain ⟨c, hc, hknows⟩ := ha
  obtain ⟨info, rest, hinfo, -, rfl⟩ := List.forall₂_cons_left_iff.1 hknows
  refine ⟨c, he.classOf a c hc, ?_⟩
  rw [ lineage_of_prefix he.classes hinfo]
  exact hknows.imp fun b info hb => refinds_classInfo he.classes b info hb

/-- A class that is defined below a known one is known, with its ancestors. -/
theorem knows_defineClass (info : ClassInfo) (super : Option Address)
    (hsuper : h.Knows (super.elim [] h.lineage) chain) :
    (h.defineClass info super).2.Knows
      ((h.defineClass info super).2.lineage (h.defineClass info super).1) (info :: chain) := by
  have hnew : (h.defineClass info super).2.classAt (h.defineClass info super).1 =
      some ⟨info, super.elim [] h.lineage⟩ := List.getElem?_concat_length
  unfold lineage
  rw [hnew]
  exact .cons (classInfo_eq_ok.2 ⟨_, hnew, rfl⟩)
    (hsuper.imp fun a info ha => refinds_classInfo (List.prefix_append _ _) a info ha)

/-- An object that is spawned has the class that it was spawned with. -/
theorem descends_spawn {c : Address} (hc : h.Knows (h.lineage c) chain) (outer : Option Address)
    (name : String) : (h.spawn c outer name).2.Descends (h.spawn c outer name).1 chain :=
  ⟨c, classOf_eq_ok.2 ⟨_, List.getElem?_concat_length, rfl⟩, hc⟩

end Host

namespace State

theorem host_dropEntry (s : State) (host : Address) : (s.dropEntry host).host = s.host := by
  unfold dropEntry
  split <;> rfl

theorem host_instantiate (s : State) (type : Nat) : (s.instantiate type).2.host = s.host := by
  unfold instantiate
  split <;> rfl

theorem host_leave (s : State) (key : Redirector.Key) : (s.leave key).host = s.host := by
  unfold leave
  dsimp only
  split <;> rfl

theorem host_root (s : State) (a : Address) : (s.root a).host = s.host := by
  unfold root
  split <;> rfl

end State

theorem Request.Outcome.extends {r : Request} {s s' : State} (h : r.Outcome s s') :
    s.host.Extends s'.host :=
  ⟨h.evolves.classes, fun _ _ => h.classOf⟩

/-- Every change of the bridge leaves classes and objects what they are. -/
theorem Change.extends {T : Terms} {o o' : List Owed} {s s' : State} (h : Change T o s o' s') :
    s.host.Extends s'.host := by
  cases h with
  | @write _ _ a => cases a <;> exact .refl _
  | @store _ _ a => cases a <;> exact .refl _
  | clear => exact .of_eq (s.host_dropEntry _)
  | unmake => exact .of_eq (s.host_dropEntry _)
  | make => exact .of_eq (s.host_instantiate _)
  | leave => exact .of_eq (s.host_leave _)
  | root a => exact .of_eq (s.host_root a)
  | alone _ _ hf => exact (Request.outcome hf s).extends
  | _ => exact .refl _

/-- Whatever programs do, the host only grows. -/
def extendsRealm (h : Host) : Realm σ :=
  .everywhere (fun _ w => h.Extends w.state.host) (fun _ hw => hw) (fun _ hw => hw)
    (fun _ _ hw => hw) (fun _ hw => hw) fun hw hc => hw.trans hc.extends

/-- So does it in a redirected call. -/
theorem Redirection.invoke_extends {n : Nat} {w v : World σ} {key : Redirector.Key} {r : Redirector}
    {target : Option Address} {stack : ArgStack} {result : Option Address}
    {answer : Except BridgeError Unit × ArgStack} (hr : w.state.redirector? key = some r)
    (hc : invoke key r target stack result (callAt n) w = .ok answer v) :
    w.state.host.Extends v.state.host := by
  let R : Realm σ := extendsRealm w.state.host
  have hobeys : (invoke key r target stack result : Act σ _).Obeys (R.law (R.respected n))
      .redirected [] w :=
    invoke_obeys (Identity.makesProxies fun _ => trivial) hr target (fun _ _ _ => trivial)
      fun _ _ => trivial
  exact ((hobeys List.nil_suffix trivial trivial (.refl _)).ok _ _ hc).1

/-! ## What a binding reaches -/

/-- Of the classes in the chain, the nearest with a redirector for the function has this one. -/
def State.Nearest (s : State) (chain : List ClassInfo) (function : String) (key : Redirector.Key)
    (r : Redirector) : Prop :=
  ∃ below info above, chain = below ++ info :: above ∧
    (∀ other ∈ below, s.redirector? (other.name, function) = none) ∧
    key = (info.name, function) ∧ s.redirector? key = some r

namespace Delegate

variable {d : Delegate} {s : State} {object : Address} {chain : List ClassInfo}
  {key : Redirector.Key} {r : Redirector}

/-- Its object, if it has one, was spawned, and the host knows the classes of that. -/
def Settled (d : Delegate) (h : Host) : Prop :=
  ∀ object, d.object = some object → ∃ chain, h.Descends object chain

/-- There is a function to call on the object, and this is its redirector. -/
def Reaches (d : Delegate) (s : State) (object : Address) (key : Redirector.Key) (r : Redirector) :
    Prop :=
  d.object = some object ∧ d.function ≠ "" ∧
    ∃ chain, s.host.Descends object chain ∧ s.Nearest chain d.function key r

/-- There is nothing to call. -/
def Idle (d : Delegate) (s : State) : Prop :=
  d.object = none ∨ d.function = "" ∨ ∃ object chain, d.object = some object ∧
    s.host.Descends object chain ∧ ∀ info ∈ chain, s.redirector? (info.name, d.function) = none

/-- The walk up the classes finds the first redirector for the function. -/
theorem nearest_eq {as : List Address} (hknows : s.host.Knows as chain) :
    State.resolveDelegate.nearest s d as = .ok (chain.findSome? fun info =>
      (s.redirector? (info.name, d.function)).map ((info.name, d.function), ·)) := by
  induction hknows with
  | nil => rfl
  | @cons a info as chain ha _ ih =>
    unfold State.resolveDelegate.nearest
    rw [ha, List.findSome?_cons]
    dsimp only [bind, Except.bind]
    cases s.redirector? (info.name, d.function) with
    | none => exact ih
    | some r => rfl

theorem resolve_eq (ho : d.object = some object) (hchain : s.host.Descends object chain) :
    s.resolveDelegate d = .ok (chain.findSome? fun info =>
      (s.redirector? (info.name, d.function)).map ((info.name, d.function), ·)) := by
  obtain ⟨c, hc, hknows⟩ := hchain
  unfold State.resolveDelegate
  rw [ho]
  dsimp only
  rw [hc]
  exact nearest_eq hknows

theorem nearest_iff {function : String} : s.Nearest chain function key r ↔
    (chain.findSome? fun info =>
      (s.redirector? (info.name, function)).map ((info.name, function), ·)) = some (key, r) := by
  rw [List.findSome?_eq_some_iff]
  constructor
  · rintro ⟨below, info, above, hchain, hbelow, rfl, hr⟩
    refine ⟨below, info, above, hchain, by rw [hr, Option.map_some], fun other hother => ?_⟩
    rw [hbelow other hother, Option.map_none]
  · rintro ⟨below, info, above, hchain, hr, hbelow⟩
    obtain ⟨r', hr', heq⟩ := Option.map_eq_some_iff.1 hr
    obtain ⟨rfl, rfl⟩ := Prod.mk.inj heq
    have hnone (other : ClassInfo) (hother : other ∈ below) :
        s.redirector? (other.name, function) = none :=
      Option.map_eq_none_iff.1 (hbelow other hother)
    exact ⟨below, info, above, hchain, hnone, rfl, hr'⟩

theorem resolve_of_reaches (h : d.Reaches s object key r) :
    s.resolveDelegate d = .ok (some (key, r)) := by
  obtain ⟨ho, -, chain, hchain, hnearest⟩ := h
  rw [resolve_eq ho hchain, nearest_iff.1 hnearest]

theorem isBound_of_reaches (h : d.Reaches s object key r) : d.isBound = true := by
  obtain ⟨ho, hne, -⟩ := h
  simp [isBound, ho, hne]

theorem resolve_of_idle (h : d.Idle s) (hb : d.isBound = true) : s.resolveDelegate d = .ok none := by
  obtain hnone | hempty | ⟨object, chain, ho, hchain, hnone⟩ := h
  · simp [isBound, hnone] at hb
  · simp [isBound, hempty] at hb
  · rw [resolve_eq ho hchain, List.findSome?_eq_none_iff.2 fun info hinfo => ?_]
    rw [hnone info hinfo, Option.map_none]

/-- A binding has one thing to call, or nothing. -/
theorem idle_or_reaches (h : d.Settled s.host) :
    d.Idle s ∨ ∃ object key r, d.Reaches s object key r := by
  cases ho : d.object with
  | none => exact .inl (.inl ho)
  | some object =>
    by_cases hne : d.function = ""
    · exact .inl (.inr (.inl hne))
    · obtain ⟨chain, hchain⟩ := h object ho
      cases hfound : chain.findSome? fun info =>
          (s.redirector? (info.name, d.function)).map ((info.name, d.function), ·) with
      | none =>
        refine .inl (.inr (.inr ⟨object, chain, ho, hchain, fun info hinfo => ?_⟩))
        exact Option.map_eq_none_iff.1 (List.findSome?_eq_none_iff.1 hfound info hinfo)
      | some found =>
        obtain ⟨key, r⟩ := found
        exact .inr ⟨object, key, r, ho, hne, chain, hchain, nearest_iff.2 hfound⟩

/-! ## Turns -/

variable {n : Nat} {stack : ArgStack} {w v : World σ}

/-- The turn of a binding: whether anything ran, and the world that it leaves. -/
inductive Turn (n : Nat) (d : Delegate) (stack : ArgStack) (w : World σ) : Bool → World σ → Prop
  | idle (h : d.Idle w.state) : Turn n d stack w false w
  | ran {object : Address} {key : Redirector.Key} {r : Redirector} {rest : ArgStack} {v : World σ}
      (hr : d.Reaches w.state object key r)
      (hc : Redirection.invoke key r (some object) stack none (callAt n) w = .ok (.ok (), rest) v) :
      Turn n d stack w true v

/-- The turn of a binding that fails, with an error of the call or for good. -/
inductive Fails (n : Nat) (d : Delegate) (stack : ArgStack) (w : World σ) : Failure → World σ → Prop
  | error {object : Address} {key : Redirector.Key} {r : Redirector} {rest : ArgStack}
      {e : BridgeError} {v : World σ} (hr : d.Reaches w.state object key r)
      (hc : Redirection.invoke key r (some object) stack none (callAt n) w =
        .ok (.error e, rest) v) : Fails n d stack w (.error e) v
  | abandoned {object : Address} {key : Redirector.Key} {r : Redirector} {f : Failure} {v : World σ}
      (hr : d.Reaches w.state object key r)
      (hc : Redirection.invoke key r (some object) stack none (callAt n) w = .error f v) :
      Fails n d stack w f v

theorem execute_of_idle (h : d.Idle w.state) (call : Invoker σ) :
    d.execute stack none call w = .ok false w := by
  unfold execute
  cases hb : d.isBound with
  | false => rfl
  | true =>
    show (Act.state >>= _ : Act σ Bool) _ w = _
    rw [Act.state_bind, resolve_of_idle h hb]
    rfl

theorem execute_of_reaches (h : d.Reaches w.state object key r) (call : Invoker σ) :
    d.execute stack none call w =
      (Redirection.invoke key r (some object) stack none >>= settle) call w := by
  unfold execute
  rw [isBound_of_reaches h]
  show (Act.state >>= _ : Act σ Bool) _ w = _
  rw [Act.state_bind, resolve_of_reaches h, h.1]
  rfl

theorem Turn.execute {ran : Bool} (h : d.Turn n stack w ran v) :
    d.execute stack none (callAt n) w = .ok ran v := by
  cases h with
  | idle hidle => exact execute_of_idle hidle _
  | ran hr hc =>
    rw [execute_of_reaches hr, Act.bind_of_ok hc]
    rfl

theorem Fails.execute {f : Failure} (h : d.Fails n stack w f v) :
    d.execute stack none (callAt n) w = .error f v := by
  cases h with
  | error hr hc =>
    rw [execute_of_reaches hr, Act.bind_of_ok hc]
    rfl
  | abandoned hr hc => rw [execute_of_reaches hr, Act.bind_of_error hc]

/-- Executing a binding is its turn, which may fail. -/
theorem turn_or_fails (h : d.Settled w.state.host) (n : Nat) (stack : ArgStack) :
    (∃ ran v, d.Turn n stack w ran v) ∨ ∃ f v, d.Fails n stack w f v := by
  obtain hidle | ⟨object, key, r, hr⟩ := idle_or_reaches h
  · exact .inl ⟨false, w, .idle hidle⟩
  · cases hc : Redirection.invoke key r (some object) stack none (callAt n) w with
    | ok answer v =>
      obtain ⟨outcome, rest⟩ := answer
      cases outcome with
      | ok => exact .inl ⟨true, v, .ran hr hc⟩
      | error e => exact .inr ⟨.error e, v, .error hr hc⟩
    | error f v => exact .inr ⟨f, v, .abandoned hr hc⟩

/-- In its turn the host only grows. -/
theorem Turn.extends {ran : Bool} (h : d.Turn n stack w ran v) :
    w.state.host.Extends v.state.host := by
  cases h with
  | idle => exact .refl _
  | ran hr hc =>
    exact Redirection.invoke_extends (State.redirector?_of_resolveDelegate (resolve_of_reaches hr)) hc

theorem Settled.extends {h h' : Host} (hd : d.Settled h) (he : h.Extends h') : d.Settled h' :=
  fun object ho => (hd object ho).imp fun _ hchain => he.descends hchain

end Delegate

namespace Multicast

/-- The turns of all bindings, each with a stack of its own, an empty one where none is left: how
many ran, and the world that they leave. -/
inductive Turns (n : Nat) : Multicast → List ArgStack → World σ → Nat → World σ → Prop
  | nil {supplied : List ArgStack} {w : World σ} : Turns n [] supplied w 0 w
  | cons {d : Delegate} {ds : Multicast} {supplied : List ArgStack} {w u v : World σ} {ran : Bool}
      {k : Nat} (h : d.Turn n (supplied.headD (.ofArgs [])) w ran u)
      (hs : Turns n ds supplied.tail u k v) : Turns n (d :: ds) supplied w (ran.toNat + k) v

variable {n : Nat} {w : World σ}

/-- The turns of the bindings before one that fails, and how it fails. -/
inductive Breaks (n : Nat) (ds : Multicast) (supplied : List ArgStack) (w : World σ) :
    Failure → World σ → Prop
  | intro {before after : Multicast} {d : Delegate} {k : Nat} {u v : World σ} {f : Failure}
      (hsplit : ds = before ++ d :: after) (hbefore : Turns n before supplied w k u)
      (hd : d.Fails n ((supplied.drop before.length).headD (.ofArgs [])) u f v) :
      Breaks n ds supplied w f v

theorem Turns.broadcast {ds : Multicast} {supplied : List ArgStack} {k : Nat} {v : World σ}
    (h : Turns n ds supplied w k v) : Multicast.broadcast ds supplied (callAt n) w = .ok k v := by
  induction h with
  | nil => rfl
  | cons hd _ ih =>
    unfold Multicast.broadcast
    rw [Act.bind_of_ok hd.execute, Act.bind_of_ok ih]
    rfl

theorem broadcast_append (xs ys : Multicast) (supplied : List ArgStack) :
    (broadcast (xs ++ ys) supplied : Act σ Nat) = do
      let k ← broadcast xs supplied
      let l ← broadcast ys (supplied.drop xs.length)
      return k + l := by
  induction xs generalizing supplied with
  | nil =>
    have hzero (l : Nat) : (pure (0 + l) : Act σ Nat) = pure l := by rw [Nat.zero_add]
    simp only [List.nil_append, broadcast, pure_bind, hzero, bind_pure, List.length_nil,
      List.drop_zero]
  | cons d xs ih =>
    simp only [List.cons_append, broadcast, ih, bind_assoc, pure_bind, List.length_cons,
      Nat.add_assoc, List.drop_tail]

theorem Breaks.broadcast {ds : Multicast} {supplied : List ArgStack} {f : Failure} {v : World σ}
    (h : Breaks n ds supplied w f v) : Multicast.broadcast ds supplied (callAt n) w = .error f v := by
  obtain ⟨rfl, hbefore, hd⟩ := h
  rw [broadcast_append, Act.bind_of_ok hbefore.broadcast]
  refine Act.bind_of_error ?_
  unfold Multicast.broadcast
  exact Act.bind_of_error hd.execute

/-- Either all bindings have their turns, or those up to one that fails. -/
theorem turns_or_breaks {ds : Multicast} (h : ∀ d ∈ ds, d.Settled w.state.host) (n : Nat)
    (supplied : List ArgStack) :
    (∃ k v, Turns n ds supplied w k v) ∨ ∃ f v, Breaks n ds supplied w f v := by
  induction ds generalizing supplied w with
  | nil => exact .inl ⟨0, w, .nil⟩
  | cons d ds ih =>
    have hd : d.Settled w.state.host := h d List.mem_cons_self
    obtain hd | ⟨f, v, hd⟩ := Delegate.turn_or_fails hd n (supplied.headD (.ofArgs []))
    · obtain ⟨ran, u, hd⟩ := hd
      -- What the bindings left need for their turns is still there.
      have hrest (d' : Delegate) (hd' : d' ∈ ds) : d'.Settled u.state.host :=
        Delegate.Settled.extends (h d' (List.mem_cons_of_mem d hd')) hd.extends
      obtain ⟨k, v, hs⟩ | ⟨f, v, hs⟩ := ih hrest supplied.tail
      · exact .inl ⟨_, v, .cons hd hs⟩
      · obtain ⟨hsplit, hbefore, hfails⟩ := hs
        refine .inr ⟨f, v, .intro (congrArg (d :: ·) hsplit) (.cons hd hbefore) ?_⟩
        rwa [List.drop_tail] at hfails
    · have hsplit : d :: ds = [] ++ d :: ds := rfl
      exact .inr ⟨f, v, .intro hsplit .nil hd⟩

/-- A broadcast takes the turns of its bindings in order, up to the first that fails: what was done
until then stays done, and the bindings after it do not matter. It counts those that ran. A broadcast
of two lists is one of the first and, if that succeeds, one of the second. -/
theorem broadcast_in_turns {ds : Multicast} (h : ∀ d ∈ ds, d.Settled w.state.host) (n : Nat)
    (supplied : List ArgStack) :
    (∀ k v, broadcast ds supplied (callAt n) w = .ok k v ↔ Turns n ds supplied w k v) ∧
    (∀ f v, broadcast ds supplied (callAt n) w = .error f v ↔ Breaks n ds supplied w f v) ∧
    ∀ xs ys, ds = xs ++ ys → (broadcast ds supplied : Act σ Nat) = do
      let k ← broadcast xs supplied
      let l ← broadcast ys (supplied.drop xs.length)
      return k + l := by
  refine ⟨fun k v => ⟨fun hr => ?_, Turns.broadcast⟩, fun f v => ⟨fun hr => ?_, Breaks.broadcast⟩,
    fun xs ys hsplit => hsplit ▸ broadcast_append xs ys supplied⟩
  · obtain ⟨k', v', hturns⟩ | ⟨f, v', hbreaks⟩ := turns_or_breaks h n supplied
    · cases hr.symm.trans hturns.broadcast
      exact hturns
    · cases hr.symm.trans hbreaks.broadcast
  · obtain ⟨k, v', hturns⟩ | ⟨f', v', hbreaks⟩ := turns_or_breaks h n supplied
    · cases hr.symm.trans hturns.broadcast
    · cases hr.symm.trans hbreaks.broadcast
      exact hbreaks

end Multicast

namespace Sample

/-- A class and one below it, and an object of that. -/
def listener : Host :=
  let (base, h) := Host.empty.defineClass ⟨"T", "G.T", "G", .native, false⟩ none
  let (derived, h) := h.defineClass ⟨"U", "G.U", "G", .native, false⟩ (some base)
  (h.spawn derived none "Listener").2

/-- A function of the upper class is redirected. -/
def listening : World Unit :=
  let w := world [⟨"G", ⟨"", "T", "Nested", some []⟩, 0, 0⟩] (List.replicate 15 fun _ => .done none)
  { w with state := { w.state with
      host := listener
      bridge := { w.state.bridge with redirectors := ⟨[(("T", "Nested"), nested)]⟩ } } }

def listeners : Multicast :=
  [⟨some (.hostObject 0), "Nested"⟩, .unbound, ⟨some (.hostObject 0), "Other"⟩,
    ⟨some (.hostObject 0), "Nested"⟩]

theorem settled_listeners : ∀ d ∈ listeners, d.Settled listening.state.host := by
  have hroot : Host.empty.Knows [] [] := .nil
  have hbase := Host.knows_defineClass ⟨"T", "G.T", "G", .native, false⟩ none hroot
  have hderived := Host.knows_defineClass ⟨"U", "G.U", "G", .native, false⟩ (some _) hbase
  have hobject : ∃ chain, listener.Descends (.hostObject 0) chain :=
    ⟨_, Host.descends_spawn hderived none "Listener"⟩
  have hsame : ∀ d ∈ listeners, d.object = none ∨ d.object = some (.hostObject 0) := by decide
  intro d hd object ho
  obtain hnone | hsome := hsame d hd
  · cases hnone.symm.trans ho
  · cases hsome.symm.trans ho
    exact hobject

theorem run_listeners :
    (match listeners.broadcast [] (callAt 1) listening with
      | .ok k _ => k == 2
      | .error _ _ => false) = true := by
  decide +kernel

end Sample

/-- `broadcast_in_turns` of an object whose class inherits what is called: of its three bindings two
run. -/
theorem Multicast.broadcast_in_turns_of_listeners :
    (∀ d ∈ Sample.listeners, d.Settled Sample.listening.state.host) ∧
      ∃ v, Turns 1 Sample.listeners [] Sample.listening 2 v := by
  refine ⟨Sample.settled_listeners, ?_⟩
  have hturns := (broadcast_in_turns Sample.settled_listeners 1 []).1
  have hrun := Sample.run_listeners
  cases hr : Sample.listeners.broadcast [] (callAt 1) Sample.listening with
  | error f v =>
    rw [hr] at hrun
    cases hrun
  | ok k v =>
    rw [hr] at hrun
    obtain rfl : k = 2 := of_decide_eq_true hrun
    exact ⟨v, (hturns 2 v).1 hr⟩

end TwinHeap
