import TwinHeap.Proofs.Making
import TwinHeap.Proofs.Memos
import TwinHeap.Proofs.Apart
import TwinHeap.Proofs.Severing

/-!
# Equipping — what changes while host objects are given proxies

Every change of the bridge and of foreign code keeps entries to what was given to an object
(`Change.anchored`). `State.Equips` is what becomes of the state while exactly the host objects of a
list are given proxies: these have one in the end and had none before, the others keep what they had,
and what a constructor that is still running relies on stays as it is.
-/

namespace TwinHeap

variable {σ : Type}

/-! ## Entries lead to objects -/

theorem Request.Outcome.anchored {r : Request} {s s' : State} (ho : r.Outcome s s') {gs : List Grip}
    (hb : s.Balanced gs) (h : s.Anchored) : s'.Anchored := by
  cases ho with
  | allocate => exact h.of_same rfl rfl (Nat.le_succ _)
  | instantiate => exact h.of_same rfl rfl (Nat.le_succ _)
  | setNative object native => exact h.setNative object native
  | collect full => exact State.Balanced.anchored_collect h full
  | hold target strength =>
    exact (hb.anchored_makeGrip h target strength).of_same rfl rfl (Nat.le_refl _)
  | @regrip i _ hold strength =>
    have herase : (s.eraseGrip i).Anchored := h.of_same rfl rfl (Nat.le_refl _)
    exact ((hb.eraseGrip hold).anchored_setStrength herase strength).of_same rfl rfl (Nat.le_refl _)
  | @letGo i _ hold =>
    have herase : (s.eraseGrip i).Anchored := h.of_same rfl rfl (Nat.le_refl _)
    exact ((hb.eraseGrip hold).anchored_releaseGrip herase).of_same rfl rfl (Nat.le_refl _)
  | setRooted hold => exact hb.anchored_tighten h hold _
  | _ => exact h.of_same rfl rfl (Nat.le_refl _)

theorem Change.anchored {T : Terms} {o o' : List Owed} {s s' : State} (hc : Change T o s o' s')
    (hb : s.Balanced (o.filterMap Owed.grip?)) (h : s.Anchored) : s'.Anchored := by
  cases hc with
  | @write _ _ a =>
    exact h.of_same (by cases a <;> rfl) (by cases a <;> rfl) (Nat.le_of_eq (by cases a <;> rfl))
  | @store _ _ a =>
    exact h.of_same (by cases a <;> rfl) (by cases a <;> rfl) (Nat.le_of_eq (by cases a <;> rfl))
  | string => exact h.of_same rfl rfl (Nat.le_succ _)
  | collect _ full => exact State.Balanced.anchored_collect h full
  | clear => exact hb.anchored_dropEntry h _
  | make _ _ _ ht => exact hb.anchored_addProxy h _ ht
  | made => exact h
  | unmake => exact hb.anchored_dropEntry h _
  | sever => exact State.Balanced.anchored_eraseEntry h _
  | severed => exact hb.anchored_releaseGrip h
  | leave => exact hb.anchored_leave h _
  | root a => exact hb.anchored_root h a
  | alone _ _ hf => exact (Request.outcome hf s).anchored hb h
  | _ => exact h.of_same rfl rfl (Nat.le_refl _)

/-! ## Equipping -/

namespace State

/-- Handles are accounted for, and entries lead to objects. -/
def Sound (s : State) : Prop :=
  (∃ o : List Owed, s.Balanced (o.filterMap Owed.grip?)) ∧ s.Anchored

/-- How often a method was called. -/
def callsOf (s : State) (m : Nat) : Nat := (s.foreign.methods[m]?).elim 0 MethodInfo.calls

/-- The host objects `made` were given proxies, of which `k` were counted; meanwhile the methods `ran`
were called. -/
structure Equips (made : List Address) (ran : List Nat) (k : Nat) (s s' : State) : Prop where
  evolves : s.Evolves s'
  grows : s.Grows s'
  classes : ∀ a c, s.host.classOf a = .ok c → s'.host.classOf a = .ok c
  sound : s'.Sound
  nodup : made.Nodup
  fresh : ∀ a ∈ made, s.findProxy a = none
  found : ∀ a ∈ made, s'.findProxy a ≠ none
  same : ∀ a ∉ made, s'.findProxy a = s.findProxy a
  /-- A proxy still stands for what it stood for. -/
  stands : ∀ p a, a ≠ .null → s.heap.nativeOf p = some a → s'.heap.nativeOf p = some a
  cells : s.Keeps (· < s.memory.next) s'
  calls : ∀ m < s.foreign.methods.length, s'.callsOf m = s.callsOf m + ran.count m
  counter : s'.bridge.metrics.counter Counter.proxiesCreated =
    s.bridge.metrics.counter Counter.proxiesCreated + k

namespace Equips

variable {s s' s'' : State} {made made' : List Address} {ran ran' : List Nat} {k k' : Nat}

theorem refl (h : s.Sound) : s.Equips [] [] 0 s where
  evolves := .refl s
  grows := .refl s
  classes _ _ h := h
  sound := h
  nodup := .nil
  fresh := nofun
  found := nofun
  same _ _ := rfl
  stands _ _ _ h := h
  cells := .refl s
  calls _ _ := rfl
  counter := rfl

/-- An object keeps the proxy that it has. -/
theorem stays (h : s.Equips made ran k s') {a q : Address} (ha : s.findProxy a = some q) :
    s'.findProxy a = some q := by
  rw [h.same a fun hm => ?_, ha]
  rw [h.fresh a hm] at ha
  cases ha

/-- And has no proxy afterwards only if it had none. -/
theorem lacked (h : s.Equips made ran k s') {a : Address} (ha : s'.findProxy a = none) :
    s.findProxy a = none := by
  cases hs : s.findProxy a with
  | none => rfl
  | some q => cases (h.stays hs).symm.trans ha

theorem methods_le (h : s.Equips made ran k s') {m : Nat} (hm : m < s.foreign.methods.length) :
    m < s'.foreign.methods.length := by
  obtain ⟨calls, hcalls⟩ := h.evolves.foreign.methods m _ (List.getElem?_eq_getElem hm)
  exact (List.getElem?_eq_some_iff.1 hcalls).1

theorem trans (h : s.Equips made ran k s') (h' : s'.Equips made' ran' k' s'') :
    s.Equips (made ++ made') (ran ++ ran') (k + k') s'' where
  evolves := h.evolves.trans h'.evolves
  grows := h.grows.trans h'.grows
  classes a c hc := h'.classes a c (h.classes a c hc)
  sound := h'.sound
  nodup := by
    -- What was given a proxy in the first part does not lack one in the second.
    refine List.nodup_append.2 ⟨h.nodup, h'.nodup, ?_⟩
    rintro a ha _ ha' rfl
    exact h.found a ha (h'.fresh a ha')
  fresh a ha := by
    obtain ha | ha := List.mem_append.1 ha
    · exact h.fresh a ha
    · exact h.lacked (h'.fresh a ha)
  found a ha := by
    obtain ha | ha := List.mem_append.1 ha
    · exact fun hn => h.found a ha (h'.lacked hn)
    · exact h'.found a ha
  same a ha := by
    rw [List.mem_append, not_or] at ha
    rw [h'.same a ha.2, h.same a ha.1]
  stands p a hne hp := h'.stands p a hne (h.stands p a hne hp)
  cells := h.cells.trans (h'.cells.mono fun _ hc => Nat.lt_of_lt_of_le hc h.grows.next)
  calls m hm := by
    rw [h'.calls m (h.methods_le hm), h.calls m hm, List.count_append, Nat.add_assoc]
  counter := by rw [h'.counter, h.counter, Nat.add_assoc]

theorem congr (h : s.Equips made ran k s') (hran : ran.Perm ran') : s.Equips made ran' k s' :=
  { h with calls := fun m hm => by rw [h.calls m hm, hran.count_eq] }

/-- A change of the bridge or of foreign code that concerns no proxy. -/
theorem of_change {T : Terms} {o o' : List Owed} (hc : Change T o s o' s')
    (hb : s.Balanced (o.filterMap Owed.grip?)) (ha : s.Anchored)
    (hclasses : ∀ a c, s.host.classOf a = .ok c → s'.host.classOf a = .ok c)
    (hfind : ∀ a, s'.findProxy a = s.findProxy a)
    (hstands : ∀ p a, a ≠ .null → s.heap.nativeOf p = some a → s'.heap.nativeOf p = some a)
    (hcells : s.Keeps (· < s.memory.next) s') (hmethods : s'.foreign.methods = s.foreign.methods)
    (hcounter : s'.bridge.metrics.counter Counter.proxiesCreated =
      s.bridge.metrics.counter Counter.proxiesCreated + k) : s.Equips [] [] k s' where
  evolves := hc.evolves
  grows := hc.grows
  classes := hclasses
  sound := ⟨⟨o', hc.balanced hb⟩, hc.anchored hb ha⟩
  nodup := .nil
  fresh := nofun
  found := nofun
  same a _ := hfind a
  stands := hstands
  cells := hcells
  calls m _ := by unfold callsOf; rw [hmethods]; rfl
  counter := hcounter

/-- What is noted in the journal and the metrics. -/
theorem note (h : s.Sound) (journal : List Log.Event) {metrics : Metrics}
    (hm : metrics.counter Counter.proxiesCreated =
      s.bridge.metrics.counter Counter.proxiesCreated + k) :
    s.Equips [] [] k
      { s with journal := journal, bridge := { s.bridge with metrics := metrics } } := by
  obtain ⟨⟨o, hb⟩, ha⟩ := h
  exact of_change (T := .asking (fun _ => True) fun _ => True) (.note journal metrics) hb ha
    (fun _ _ h => h) (fun _ => rfl) (fun _ _ _ h => h) (.refl _) rfl hm

theorem allot (h : s.Sound) (v : Value) : s.Equips [] [] 0 (s.allot v).2 := by
  obtain ⟨⟨o, hb⟩, ha⟩ := h
  exact of_change (T := .asking (fun _ => True) fun _ => True) (.openCell v) hb ha
    (fun _ _ h => h) (fun _ => rfl) (fun _ _ _ h => h) (keeps_allot (fun _ hc => hc) rfl) rfl rfl

/-- A cell was lent meanwhile. -/
theorem lent (hs : s.Sound) {v : Value} (h : (s.allot v).2.Equips made ran k s') :
    s.Equips made ran k (s'.discard s.memory.next) := by
  have hall := (allot hs v).trans h
  rw [Nat.zero_add] at hall
  -- The cell that is taken back lies past all that is kept.
  obtain ⟨⟨o, hb⟩, ha⟩ := h.sound
  exact {
    evolves := hall.evolves.trans (evolves_of_same rfl ⟨rfl, rfl⟩ ⟨rfl, rfl, rfl, rfl⟩)
    grows := hall.grows.trans (.of_bridge ⟨rfl, rfl, rfl, rfl, rfl, rfl⟩ (Nat.le_refl _))
    classes := hall.classes
    sound := ⟨⟨o, hb.of_heap rfl ⟨rfl, rfl, rfl, rfl⟩⟩, ha.of_same rfl rfl (Nat.le_refl _)⟩
    nodup := hall.nodup
    fresh := hall.fresh
    found := hall.found
    same := hall.same
    stands := hall.stands
    cells := hall.cells.trans (keeps_discard (Nat.lt_irrefl _))
    calls := hall.calls
    counter := hall.counter }

theorem countCall (h : s.Sound) (m : Nat) : s.Equips [] [m] 0 (s.countCall m) := by
  obtain ⟨⟨o, hb⟩, ha⟩ := h
  refine {
    evolves := World.evolves_countCall (⟨s, [], ()⟩ : World Unit) m
    grows := .of_bridge ⟨rfl, rfl, rfl, rfl, rfl, rfl⟩ (Nat.le_refl _)
    classes := fun _ _ h => h
    sound := ⟨⟨o, hb.of_heap rfl ⟨rfl, rfl, rfl, rfl⟩⟩, ha.of_same rfl rfl (Nat.le_refl _)⟩
    nodup := .nil
    fresh := nofun
    found := nofun
    same := fun _ _ => rfl
    stands := fun _ _ _ h => h
    cells := .refl _
    calls := fun m' hm' => ?_
    counter := rfl }
  unfold callsOf State.countCall
  dsimp only
  rw [List.getElem?_modify, List.getElem?_eq_getElem hm', List.count_singleton]
  by_cases hm : m = m'
  · subst hm
    simp
  · simp [hm]

/-- The entry of an object without a proxy is dropped. -/
theorem dropEntry (h : s.Sound) {host : Address} (hn : s.findProxy host = none) :
    s.Equips [] [] 0 (s.dropEntry host) := by
  obtain ⟨⟨o, hb⟩, ha⟩ := h
  have hobjects : (s.dropEntry host).heap.objects = s.heap.objects := by
    unfold State.dropEntry
    split
    · rfl
    · exact (Heap.objects_release _ _).1
  have hother : (s.dropEntry host).host = s.host ∧
      (s.dropEntry host).foreign.methods = s.foreign.methods ∧
      (s.dropEntry host).bridge.metrics = s.bridge.metrics := by
    unfold State.dropEntry
    split <;> exact ⟨rfl, rfl, rfl⟩
  refine of_change (T := .asking (fun _ => True) fun _ => True) (.clear hn) hb ha
    (fun _ _ hc => hother.1 ▸ hc) (hb.findProxy_dropEntry hn) (fun p b _ hp => ?_)
    (keeps_of_memory (s.memory_dropEntry host)) hother.2.1 (by rw [hother.2.2]; rfl)
  rw [Heap.nativeOf_congr hobjects, hp]

/-- How the proxies of a class are made is found and remembered. -/
theorem resolve (h : s.Sound) {c : Address} {b : ProxyBinding}
    (hb : s.resolveBinding c = .ok (.ok b)) (hn : s.bridge.bindings.get? c = none) :
    s.Equips [] [] 0 { s with
      bridge := { s.bridge with bindings := s.bridge.bindings.insert c b } } := by
  obtain ⟨⟨o, hbalanced⟩, ha⟩ := h
  exact of_change (T := .asking (fun _ => True) fun _ => True) (.resolve hb hn) hbalanced ha
    (fun _ _ h => h) (fun _ => rfl) (fun _ _ _ h => h) (.refl _) rfl rfl

/-- An object gets a new proxy, which stands for nothing yet. -/
theorem addProxy (h : s.Sound) {host c : Address} {type : Nat}
    (hn : s.bridge.entries.get? host = none) (hc : s.host.classOf host = .ok c)
    (ht : s.foreign.isType type = true) : s.Equips [host] [] 0 (s.addProxy host type) := by
  obtain ⟨⟨o, hb⟩, ha⟩ := h
  have hmake : Change (.asking (fun _ => True) fun _ => True) o s _ (s.addProxy host type) :=
    .make trivial hn hc ht
  have hsame : s.addProxy host type = (s.withHeap (s.heap.allocate (.object type .null)).2).addEntry
      host (.foreign s.heap.nextObject) := addProxy_of_isType ht host
  refine {
    evolves := hmake.evolves
    grows := hmake.grows
    classes := fun _ _ hc => ?_
    sound := ⟨⟨_, hmake.balanced hb⟩, hmake.anchored hb ha⟩
    nodup := List.pairwise_singleton _ host
    fresh := ?_
    found := ?_
    same := fun a hne => ?_
    stands := fun p a hne hp => ?_
    cells := ?_
    calls := fun m _ => ?_
    counter := ?_ }
  · rw [hsame]
    exact hc
  · -- It had no entry before, and has one now.
    simp [findProxy, hn]
  · simp [(Identity.findProxy_addProxy s host ht).1]
  · exact hb.findProxy_addProxy_of_ne ha ht fun he => hne (List.mem_singleton.2 he.symm)
  · rw [nativeOf_addProxy ht, if_neg (hb.numbered.ne_next (Heap.isAlive_of_nativeOf hp)), hp]
  · rw [hsame]
    exact keeps_of_memory rfl
  · rw [hsame]
    rfl
  · rw [hsame]
    rfl

/-- A proxy that stood for nothing is told what it stands for; being told again changes nothing. -/
theorem setNative (h : s.Sound) {p host : Address}
    (hp : s.heap.nativeOf p = some .null ∨ s.heap.nativeOf p = some host) :
    s.Equips [] [] 0 (s.withHeap (s.heap.setNative p host)) := by
  obtain ⟨⟨o, hb⟩, ha⟩ := h
  refine of_change (T := .asking (fun _ => True) fun _ => True)
    (.alone (r := .setNative p host) trivial trivial rfl) hb ha (fun _ _ hc => hc)
    (fun a => Paired.findProxy_setNative s p host a) (fun q a hne hq => ?_) (.refl _) rfl rfl
  refine (Heap.nativeOf_setNative s.heap p host q).trans ?_
  by_cases he : p = q
  · subst he
    rw [if_pos rfl, hq]
    obtain hp | hp := hp
    · exact absurd (Option.some.inj (hq.symm.trans hp)) hne
    · exact hp.symm.trans hq
  · rw [if_neg he, hq]

/-- Foreign code defines a method. -/
theorem define {w : World σ} (h : w.state.Sound) (info : MethodInfo)
    (body : Invocation → Program σ) : w.state.Equips [] [] 0 (w.define info body).state := by
  obtain ⟨⟨o, hb⟩, ha⟩ := h
  refine {
    evolves := w.evolves_define info body
    grows := .of_bridge ⟨rfl, rfl, rfl, rfl, rfl, rfl⟩ (Nat.le_refl _)
    classes := fun _ _ h => h
    sound := ⟨⟨o, hb.of_heap rfl ⟨rfl, rfl, rfl, rfl⟩⟩, ha.of_same rfl rfl (Nat.le_refl _)⟩
    nodup := .nil
    fresh := nofun
    found := nofun
    same := fun _ _ => rfl
    stands := fun _ _ _ h => h
    cells := .refl _
    calls := fun m hm => ?_
    counter := rfl }
  show ((w.state.foreign.methods ++ [info])[m]?).elim 0 _ = _
  rw [List.getElem?_append_left hm]
  rfl

end Equips

end State

/-! ## Requests that concern no proxy -/

/-- A request that makes, moves and ends no proxy, and writes to no storage. -/
def Request.Quiet : Request → Prop
  | .defineClass .. | .spawn .. | .setReachable .. | .intern .. | .allot .. | .defineType ..
  | .allocate .. | .instantiate .. | .hold .. | .regrip .. | .letGo .. | .redirect .. => True
  | _ => False

namespace Host

variable {h : Host} {a c : Address}

theorem classOf_eq_ok : h.classOf a = .ok c ↔ ∃ o, h.objectAt a = some o ∧ o.classRef = c := by
  unfold classOf
  cases h.objectAt a with
  | none => simp
  | some o => simp

theorem classOf_spawn (ha : h.classOf a = .ok c) (classRef : Address) (outer : Option Address)
    (name : String) : (h.spawn classRef outer name).2.classOf a = .ok c := by
  obtain ⟨o, ho, hc⟩ := classOf_eq_ok.1 ha
  refine classOf_eq_ok.2 ⟨o, ?_, hc⟩
  cases a with
  | hostObject i =>
    show (h.objects ++ [_])[i]? = some o
    rw [List.getElem?_append_left (List.getElem?_eq_some_iff.1 ho).1]
    exact ho
  | _ => cases ho

theorem classOf_setReachable (ha : h.classOf a = .ok c) (b : Address) (reachable : Bool) :
    (h.setReachable b reachable).classOf a = .ok c := by
  obtain ⟨o, ho, hc⟩ := classOf_eq_ok.1 ha
  cases a with
  | hostObject i =>
    cases b with
    | hostObject j =>
      have ho : h.objects[i]? = some o := ho
      refine classOf_eq_ok.2
        ⟨if j = i then { o with reachable := reachable } else o, ?_, by split <;> exact hc⟩
      show (h.objects.modify j _)[i]? = _
      rw [List.getElem?_modify, ho]
      rfl
    | _ => exact ha
  | _ => cases ho

end Host

/-- What is asked for alone calls no method and counts nothing. -/
theorem Request.Outcome.uncounted {r : Request} {s s' : State} (h : r.Outcome s s') :
    s'.foreign.methods = s.foreign.methods ∧ s'.bridge.metrics = s.bridge.metrics := by
  cases h <;> exact ⟨rfl, rfl⟩

/-- It leaves every object in its class. -/
theorem Request.Outcome.classOf {r : Request} {s s' : State} (h : r.Outcome s s') {a c : Address}
    (ha : s.host.classOf a = .ok c) : s'.host.classOf a = .ok c := by
  cases h with
  | spawn classRef owner name => exact Host.classOf_spawn ha classRef owner name
  | setReachable object reachable => exact Host.classOf_setReachable ha object reachable
  | intern text =>
    show (s.host.intern text).2.classOf a = .ok c
    unfold Host.intern
    split <;> exact ha
  | _ => exact ha

namespace Request.Quiet

variable {r : Request} {f : State → State} {s s' : State}

theorem alone (hr : r.Quiet) : ∃ f, r.alone? = some f := by
  cases r <;> first | exact ⟨_, rfl⟩ | exact hr.elim

theorem findProxy (hr : r.Quiet) (ho : r.Outcome s s') {gs : List Grip} (hb : s.Balanced gs)
    (h : s.Anchored) (a : Address) : s'.findProxy a = s.findProxy a := by
  cases ho with
  | allocate m => exact h.findProxy_allocate m a
  | instantiate => exact h.findProxy_allocate _ a
  | hold target strength => exact hb.findProxy_makeGrip target strength a
  | regrip hold strength => exact (hb.eraseGrip hold).findProxy_setStrength strength a
  | letGo hold => exact (hb.eraseGrip hold).findProxy_releaseGrip a
  | payload | setNative | collect | setRooted => exact hr.elim
  | _ => rfl

theorem nativeOf (hr : r.Quiet) (ho : r.Outcome s s') {gs : List Grip} (hb : s.Balanced gs)
    {p a : Address} (hp : s.heap.nativeOf p = some a) : s'.heap.nativeOf p = some a := by
  have hnew (m : Managed) : (s.heap.allocate m).2.nativeOf p = some a := by
    rw [Heap.nativeOf_allocate, if_neg (hb.numbered.ne_next (Heap.isAlive_of_nativeOf hp)), hp]
  have hkept {h' : Heap} (ho : h'.objects = s.heap.objects) : h'.nativeOf p = some a :=
    (Heap.nativeOf_congr ho p).trans hp
  cases ho with
  | allocate m => exact hnew m
  | instantiate => exact hnew _
  | hold target strength => exact hkept (Heap.objects_make s.heap target strength).1
  | @regrip _ old _ strength => exact hkept (Heap.objects_setStrength old s.heap strength).1
  | @letGo _ old => exact hkept (Heap.objects_release old s.heap).1
  | payload | setNative | collect | setRooted => exact hr.elim
  | _ => exact hp

theorem equips (hr : r.Quiet) (hf : r.alone? = some f) (h : s.Sound) : s.Equips [] [] 0 (f s) := by
  obtain ⟨⟨o, hb⟩, ha⟩ := h
  have ho := Request.outcome hf s
  have hsilent : r.Avoids (· < s.memory.next) := by
    intro a hw
    cases r <;> first | exact hr.elim | exact hw.elim
  exact .of_change (T := .asking (fun _ => True) fun _ => True) (.alone trivial trivial hf) hb ha
    (fun _ _ hc => ho.classOf hc) (fun a => hr.findProxy ho hb ha a)
    (fun _ _ _ hp => hr.nativeOf ho hb hp) (ho.keeps hsilent fun _ hc => hc)
    ho.uncounted.1 (by rw [ho.uncounted.2]; rfl)

end Request.Quiet

end TwinHeap
