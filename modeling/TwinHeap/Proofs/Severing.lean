import TwinHeap.Proofs.Identities

/-!
# Severing — a pass, a teardown and a shutdown remove exactly what they select

With the stock method that disconnects proxies, a removal is a fixed change of the state, and removals
of different host objects do not get in each other's way: `State.Severed` says what is left after some
of them, and depends on which host objects they were but not on their order. `severing_exact` carries
this over to the three operations in every state that code can see, however the table enumerates its
entries.
-/

namespace TwinHeap

variable {σ : Type}

/-! ## Removals -/

/-- What becomes of an instance that is disconnected. -/
def Managed.forgotten : Managed → Managed
  | .object type _ => .object type .null
  | m => m

theorem Managed.forgotten_forgotten (m : Managed) : m.forgotten.forgotten = m.forgotten := by
  cases m <;> rfl

theorem Heap.foreign_of_isAlive {h : Heap} {a : Address} (ha : h.isAlive a = true) :
    ∃ i, a = .foreign i := by
  cases a with
  | foreign i => exact ⟨i, rfl⟩
  | _ => cases ha

namespace State

/-- The live proxies of some host objects. -/
def proxiesOf (s : State) (hosts : List Address) : List Address := hosts.filterMap s.findProxy

/-- The handles of their entries. -/
def handlesOf (s : State) (hosts : List Address) : List Nat :=
  hosts.filterMap fun host => (s.bridge.entries.get? host).bind Grip.handle

/-- `s'` is `s` without the entries of some host objects: their handles are freed and their proxies
disconnected. Nothing else differs but the journal and how often foreign methods were called. -/
structure Severed (s : State) (hosts : List Address) (s' : State) : Prop where
  bridge : s'.bridge =
    { s.bridge with entries := s.bridge.entries.filter fun host _ => decide (host ∉ hosts) }
  handles : s'.heap.handles = s.heap.handles.filter fun k _ => decide (k ∉ s.handlesOf hosts)
  objects : s'.heap.objects = s.heap.objects.mapValues fun i m =>
    if .foreign i ∈ s.proxiesOf hosts then m.forgotten else m
  host : s'.host = s.host
  memory : s'.memory = s.memory
  grips : s'.grips = s.grips

/-- The state after the stock method has disconnected a proxy, if there is one. -/
def disconnected (s : State) : Option Address → State
  | some proxy =>
    (s.countCall s.bridge.helpers.disconnect).withHeap (s.heap.setNative proxy .null)
  | none => s

/-- The state after the entry of a host object was removed, which had the hold `g`. -/
def severEntry (s : State) (reason : String) (host : Address) (g : Grip) : State :=
  (((s.eraseEntry host).disconnected (g.target? s.heap)).releaseGrip g).report
    (.proxySevered host reason)

section severEntry

variable (s : State) (reason : String) (host : Address) (g : Grip)

theorem bridge_severEntry : (s.severEntry reason host g).bridge =
    { s.bridge with entries := s.bridge.entries.erase host } := by
  unfold severEntry
  cases g.target? s.heap <;> rfl

theorem handles_severEntry : (s.severEntry reason host g).heap.handles =
    g.handle.elim s.heap.handles s.heap.handles.erase := by
  have hrelease (s : State) : ((s.releaseGrip g).report (.proxySevered host reason)).heap.handles =
      g.handle.elim s.heap.handles s.heap.handles.erase := Heap.handles_release g s.heap
  unfold severEntry
  rw [hrelease]
  cases g.target? s.heap with
  | none => rfl
  | some p => cases p <;> rfl

/-- The proxy of the entry stands for nothing any more. -/
theorem objects_severEntry : (s.severEntry reason host g).heap.objects =
    (g.target? s.heap).elim s.heap.objects fun p => (s.heap.modify p Managed.forgotten).objects := by
  have hrelease (s : State) : ((s.releaseGrip g).report (.proxySevered host reason)).heap.objects =
      s.heap.objects := by
    obtain ⟨_ | k, st⟩ := g <;> rfl
  unfold severEntry
  rw [hrelease]
  cases g.target? s.heap with
  | none => rfl
  | some p =>
    show (s.heap.setNative p .null).objects = (s.heap.modify p Managed.forgotten).objects
    unfold Heap.setNative
    congr 2

theorem host_severEntry : (s.severEntry reason host g).host = s.host := by
  unfold severEntry
  cases g.target? s.heap <;> rfl

theorem memory_severEntry : (s.severEntry reason host g).memory = s.memory := by
  unfold severEntry
  cases g.target? s.heap <;> rfl

theorem grips_severEntry : (s.severEntry reason host g).grips = s.grips := by
  unfold severEntry
  cases g.target? s.heap <;> rfl

end severEntry

theorem isAlive_of_severed {s s' : State} {hosts : List Address} (h : s.Severed hosts s')
    (a : Address) : s'.heap.isAlive a = s.heap.isAlive a := by
  unfold Heap.isAlive Heap.get?
  cases a with
  | foreign i =>
    show (s'.heap.objects.get? i).isSome = (s.heap.objects.get? i).isSome
    rw [h.objects, Table.get?_mapValues, Option.isSome_map]
  | _ => rfl

/-- No two entries share a handle. -/
theorem Balanced.handle_ne {s : State} {gs : List Grip} (hs : s.Balanced gs) {host host' : Address}
    {g g' : Grip} (hg : s.bridge.entries.get? host = some g)
    (hg' : s.bridge.entries.get? host' = some g') (hne : host ≠ host') {k : Nat}
    (hk : g.handle = some k) : g'.handle ≠ some k := by
  have herase := hs.eraseEntry hg
  have hget : (s.bridge.entries.erase host).get? host' = some g' := by
    rw [Table.get?_erase, if_neg hne, hg']
  have hmem : g' ∈ (s.eraseEntry host).holding :=
    Balanced.mem_holding_of_entry (Table.mem_values_of_get? hget)
  have haccounts := herase.accounts.congr List.perm_middle
  exact haccounts.handle_ne (List.mem_append_left gs hmem) hk

namespace Severed

variable {s s' : State} {hosts : List Address} {gs : List Grip}

theorem refl (s : State) : s.Severed [] s := by
  refine ⟨?_, ?_, ?_, rfl, rfl, rfl⟩
  · rw [Table.filter_eq_self fun host _ => decide_eq_true List.not_mem_nil]
  · exact (Table.filter_eq_self fun k _ => decide_eq_true List.not_mem_nil).symm
  · unfold Table.mapValues proxiesOf
    simp

/-- Which host objects they are is all that matters. -/
theorem congr {hosts' : List Address} (h : s.Severed hosts s') (hm : ∀ a, a ∈ hosts ↔ a ∈ hosts') :
    s.Severed hosts' s' := by
  have hhandles (k : Nat) : k ∈ s.handlesOf hosts ↔ k ∈ s.handlesOf hosts' := by
    unfold handlesOf
    simp only [List.mem_filterMap, hm]
  have hproxies (p : Address) : p ∈ s.proxiesOf hosts ↔ p ∈ s.proxiesOf hosts' := by
    unfold proxiesOf
    simp only [List.mem_filterMap, hm]
  refine ⟨?_, ?_, ?_, h.host, h.memory, h.grips⟩
  · simp only [← hm]
    exact h.bridge
  · simp only [← hhandles]
    exact h.handles
  · simp only [← hproxies]
    exact h.objects

/-- The hold of an entry that is left keeps its handle. -/
theorem gcHandle? (h : s.Severed hosts s') (hs : s.Balanced gs) {host : Address} {g : Grip}
    (hg : s.bridge.entries.get? host = some g) (hhost : host ∉ hosts) :
    g.gcHandle? s'.heap = g.gcHandle? s.heap := by
  unfold Grip.gcHandle?
  cases hk : g.handle with
  | none => rfl
  | some k =>
    have hkept : k ∉ s.handlesOf hosts := by
      intro hmem
      obtain ⟨host', hhost', hk'⟩ := List.mem_filterMap.1 hmem
      obtain ⟨g', hg', hk'⟩ := Option.bind_eq_some_iff.1 hk'
      have hne : host ≠ host' := by
        rintro rfl
        exact hhost hhost'
      exact hs.handle_ne hg hg' hne hk hk'
    show s'.heap.handles.get? k = s.heap.handles.get? k
    rw [h.handles, Table.get?_filter hs.accounts.nodup]
    cases s.heap.handles.get? k with
    | none => rfl
    | some gc => exact Option.filter_some_pos (decide_eq_true hkept)

/-- It holds what it held. -/
theorem target? (h : s.Severed hosts s') (hs : s.Balanced gs) {host : Address} {g : Grip}
    (hg : s.bridge.entries.get? host = some g) (hhost : host ∉ hosts) :
    g.target? s'.heap = g.target? s.heap :=
  Grip.target?_congr (h.gcHandle? hs hg hhost) (isAlive_of_severed h)

/-- Where an entry is left, its proxy is. -/
theorem findProxy (h : s.Severed hosts s') (hs : s.Balanced gs) {host : Address}
    (hhost : host ∉ hosts) : s'.findProxy host = s.findProxy host := by
  unfold State.findProxy
  rw [h.bridge]
  dsimp only
  rw [Table.get?_filter hs.entries]
  cases hg : s.bridge.entries.get? host with
  | none => rfl
  | some g =>
    have hkept : (some g).filter (fun _ => decide (host ∉ hosts)) = some g :=
      Option.filter_some_pos (decide_eq_true hhost)
    rw [hkept]
    exact h.target? hs hg hhost

/-- One more removal. -/
theorem cons (h : s.Severed hosts s') (hs : s.Balanced gs) {host : Address} {g : Grip}
    (hg : s.bridge.entries.get? host = some g) (hhost : host ∉ hosts) (reason : String) :
    s.Severed (host :: hosts) (s'.severEntry reason host g) := by
  have htarget := h.target? hs hg hhost
  have hfind : s.findProxy host = g.target? s.heap := by
    unfold State.findProxy
    rw [hg]
    rfl
  refine ⟨?_, ?_, ?_, ?_, ?_, ?_⟩
  · rw [bridge_severEntry, h.bridge]
    dsimp only
    rw [Table.erase_filter]
    simp only [List.mem_cons, not_or, Bool.decide_and]
  -- The handle of the entry is freed, if it has one.
  · rw [handles_severEntry, h.handles]
    unfold handlesOf
    cases hk : g.handle with
    | none =>
      rw [List.filterMap_cons_none (by rw [hg]; exact hk)]
      rfl
    | some k =>
      rw [List.filterMap_cons_some (by rw [hg]; exact hk)]
      simp only [Option.elim_some, List.mem_cons, not_or, Bool.decide_and]
      exact Table.erase_filter _ _ k
  -- Its proxy forgets its host object; a proxy that was forgotten before stays so.
  · rw [objects_severEntry, htarget]
    unfold proxiesOf
    cases ht : g.target? s.heap with
    | none =>
      rw [List.filterMap_cons_none (hfind.trans ht)]
      exact h.objects
    | some p =>
      obtain ⟨i, rfl⟩ := Heap.foreign_of_isAlive (g.isAlive_of_target? ht)
      rw [List.filterMap_cons_some (hfind.trans ht)]
      show s'.heap.objects.modify i Managed.forgotten = _
      rw [h.objects, Table.modify_mapValues]
      congr 1
      funext j m
      simp only [List.mem_cons, Address.foreign.injEq]
      by_cases hj : j = i
      · simp only [hj, true_or, if_true]
        split
        · exact m.forgotten_forgotten
        · rfl
      · rw [if_neg hj]
        simp only [hj, false_or]
        rfl
  · rw [host_severEntry, h.host]
  · rw [memory_severEntry, h.memory]
  · rw [grips_severEntry, h.grips]

end Severed

theorem Balanced.severEntry {s : State} {gs : List Grip} (h : s.Balanced gs) {host : Address}
    {g : Grip} (hg : s.bridge.entries.get? host = some g) (reason : String) :
    (s.severEntry reason host g).Balanced gs := by
  have hdisconnected : ((s.eraseEntry host).disconnected (g.target? s.heap)).Balanced (g :: gs) := by
    cases g.target? s.heap with
    | none => exact h.eraseEntry hg
    | some p =>
      exact (h.eraseEntry hg).of_same (by cases p <;> exact ⟨rfl, rfl⟩) ⟨rfl, rfl, rfl, rfl⟩
        (h.numbered.modify p _) fun b hb => (Heap.isAlive_modify p _ b).trans hb
  exact hdisconnected.releaseGrip.of_heap rfl ⟨rfl, rfl, rfl, rfl⟩

end State

/-! ## Running the operations -/

/-- The method that disconnects proxies has the stock body. -/
def World.Disconnects (w : World σ) : Prop :=
  w.bodies[w.state.bridge.helpers.disconnect]? = some fun inv => (Library.disconnect inv).toProgram

/-- It keeps it. -/
theorem World.Disconnects.lasting {w v : World σ} (h : w.Disconnects) (hb : w.bodies <+: v.bodies)
    (hg : w.state.Grows v.state) : v.Disconnects := by
  unfold Disconnects
  rw [hg.helpers]
  exact getElem?_of_extends hb h

/-- The method that says whom a proxy stands for has the stock body. -/
def World.Answers (w : World σ) : Prop :=
  w.bodies[w.state.bridge.helpers.nativePtr]? = some fun inv => (Library.nativePtr inv).toProgram

/-- The world with another state. -/
def World.withState (w : World σ) (s : State) : World σ := { w with state := s }

section Operations

variable {w : World σ} {n : Nat}

theorem Engine.disconnect_eq (hw : w.Disconnects) (proxy : Address) :
    disconnect proxy (callAt (n + 1)) w = .ok () (w.withState (w.state.disconnected (some proxy))) := by
  have hcall : Act.callMethod w.state.bridge.helpers.disconnect (some proxy) [] (callAt (n + 1)) w =
      .ok (.ok none) (w.withState (w.state.disconnected (some proxy))) := by
    show callAt (n + 1) _ _ w = _
    rw [callAt_succ, hw]
    exact run_disconnect _ _ proxy
  unfold disconnect
  rw [Act.state_bind, Act.bind_of_ok hcall]
  rfl

namespace Identity

theorem severOne_eq (hw : w.Disconnects) (reason : String) {host : Address} {g : Grip}
    (hg : w.state.bridge.entries.get? host = some g) :
    severOne reason host (callAt (n + 1)) w =
      .ok 1 (w.withState (w.state.severEntry reason host g)) := by
  -- The proxy is disconnected while the hold of its entry is kept.
  have hend (act : Act σ Unit) (hact : act (callAt (n + 1)) (w.withState (w.state.eraseEntry host)) =
      .ok () (w.withState ((w.state.eraseEntry host).disconnected (g.target? w.state.heap)))) :
      (do
        Act.edit (·.eraseEntry host)
        Act.ensuring (·.releaseGrip g) act
        Act.report (.proxySevered host reason)
        return 1 : Act σ Nat) (callAt (n + 1)) w =
      .ok 1 (w.withState (w.state.severEntry reason host g)) := by
    have hedit : (Act.edit (·.eraseEntry host) : Act σ Unit) (callAt (n + 1)) w =
        .ok () (w.withState (w.state.eraseEntry host)) := rfl
    rw [Act.bind_of_ok hedit, Act.bind_of_ok (Act.ensuring_of_ok hact)]
    rfl
  unfold severOne
  rw [Act.state_bind, hg]
  dsimp only
  cases ht : g.target? w.state.heap with
  | none =>
    refine hend (pure ()) ?_
    rw [ht]
    rfl
  | some p =>
    refine hend (Engine.disconnect p) ?_
    rw [ht]
    exact Engine.disconnect_eq (w := w.withState (w.state.eraseEntry host)) hw p

/-- Several removals in a row. -/
theorem mapM_severOne (reason : String) {s : State} {gs : List Grip} {done hosts : List Address}
    (hw : w.Disconnects) (hs : s.Severed done w.state) (hbalanced : s.Balanced gs)
    (hb : w.state.Balanced gs) (hnodup : hosts.Nodup)
    (hhosts : ∀ a ∈ hosts, a ∉ done ∧ (s.bridge.entries.get? a).isSome) :
    ∃ s', hosts.mapM (severOne reason) (callAt (n + 1)) w =
        .ok (List.replicate hosts.length 1) (w.withState s') ∧
      s.Severed (hosts ++ done) s' ∧ s'.Balanced gs := by
  induction hosts generalizing w done with
  | nil => exact ⟨w.state, rfl, hs, hb⟩
  | cons host hosts ih =>
    obtain ⟨⟨hdone, hsome⟩, hrest⟩ := List.forall_mem_cons.1 hhosts
    obtain ⟨hnotMem, hnodup⟩ := List.nodup_cons.1 hnodup
    obtain ⟨g, hg⟩ := Option.isSome_iff_exists.1 hsome
    -- The entry is still there, as it is none of those that were removed.
    have hg' : w.state.bridge.entries.get? host = some g := by
      rw [hs.bridge]
      dsimp only
      rw [Table.get?_filter hbalanced.entries, hg]
      exact Option.filter_some_pos (decide_eq_true hdone)
    have hstep := hs.cons hbalanced hg hdone reason
    have hw' : (w.withState (w.state.severEntry reason host g)).Disconnects := by
      unfold World.Disconnects
      have hbridge := State.bridge_severEntry w.state reason host g
      show w.bodies[(w.state.severEntry reason host g).bridge.helpers.disconnect]? = _
      rw [hbridge]
      exact hw
    have hfresh : ∀ a ∈ hosts, a ∉ host :: done ∧ (s.bridge.entries.get? a).isSome := by
      intro a ha
      rw [List.mem_cons, not_or]
      exact ⟨⟨fun h => hnotMem (h ▸ ha), (hrest a ha).1⟩, (hrest a ha).2⟩
    obtain ⟨s', hrun, hs', hb'⟩ := ih hw' hstep (hb.severEntry hg' reason) hnodup hfresh
    refine ⟨s', ?_, hs'.congr fun a => ?_, hb'⟩
    · rw [List.mapM_cons, Act.bind_of_ok (severOne_eq hw reason hg'), Act.bind_of_ok hrun]
      rfl
    · simp only [List.mem_append, List.mem_cons]
      rw [or_left_comm, or_assoc]

end Identity

end Operations

/-! ## The collection of a pass -/

/-- A collection takes the proxies that it frees. -/
theorem State.findProxy_collect (s : State) (full : Bool) (a : Address) :
    (s.withHeap (s.heap.collect full)).findProxy a =
      (s.findProxy a).filter (s.heap.collect full).isAlive := by
  show ((s.bridge.entries.get? a).bind fun g => g.target? (s.heap.collect full)) =
    ((s.bridge.entries.get? a).bind fun g => g.target? s.heap).filter _
  cases s.bridge.entries.get? a with
  | none => rfl
  | some g =>
    obtain ⟨_ | k, st⟩ := g
    · rfl
    · exact s.heap.target?_collect_eq_filter full k

namespace State.Balanced

variable {s : State} {gs : List Grip}

/-- Only a weak entry loses its proxy. -/
theorem findProxy_collect_of_ne_weak (h : s.Balanced gs) (full : Bool) {a : Address} {g : Grip}
    (hg : s.bridge.entries.get? a = some g) (hne : g.strength ≠ .weak) :
    (s.withHeap (s.heap.collect full)).findProxy a = s.findProxy a := by
  have hmem := Table.mem_values_of_get? hg
  have hfind : s.findProxy a = g.target? s.heap := by
    unfold findProxy
    rw [hg]
    rfl
  cases hp : s.findProxy a with
  | none =>
    rw [findProxy_collect, hp]
    rfl
  | some p =>
    -- An entry with a proxy is not released, so it is strong where it is not weak.
    have hstrong : g.strength = .strong := by
      have hheld := h.accounts.held g (List.mem_append_left gs (mem_holding_of_entry hmem))
      obtain ⟨_ | k, st⟩ := g
      · rw [hp] at hfind
        cases hfind
      · cases st with
        | strong => rfl
        | weak => exact absurd rfl hne
        | released => exact absurd rfl hheld.1
    obtain ⟨q, hq⟩ := Option.isSome_iff_exists.1 ((h.collect full).alive g hmem hstrong)
    have hq : (s.withHeap (s.heap.collect full)).findProxy a = some q := by
      unfold findProxy
      show (s.bridge.entries.get? a).bind _ = _
      rw [hg]
      exact hq
    rw [findProxy_collect, hp] at hq ⊢
    obtain ⟨heq, halive⟩ := Option.filter_eq_some_iff.1 hq
    cases heq
    exact Option.filter_some_pos halive

end State.Balanced

/-! ## What is left -/

/-- What a world `u` has lost of `w`: the entries of some host objects, whose handles are freed and
whose proxies stand for nothing any more. The other entries keep their handles. -/
structure World.Lost (w : World σ) (hosts : List Address) (u : World σ) : Prop where
  keys : u.state.bridge.entries.keys.Perm
    (w.state.bridge.entries.keys.filter fun a => decide (a ∉ hosts))
  kept : ∀ a ∉ hosts, u.state.bridge.entries.get? a = w.state.bridge.entries.get? a
  held : ∀ a ∉ hosts, ∀ g k, w.state.bridge.entries.get? a = some g → g.handle = some k →
    (u.state.heap.handles.get? k).map GcHandle.weak =
      (w.state.heap.handles.get? k).map GcHandle.weak
  freed : ∀ a ∈ hosts, ∀ g k, w.state.bridge.entries.get? a = some g → g.handle = some k →
    u.state.heap.handles.get? k = none
  forgotten : ∀ a ∈ hosts, ∀ p, w.state.findProxy a = some p →
    (u.state.heap.nativeOf p).getD .null = .null
  library : u.bodies = w.bodies ∧ u.state.bridge.helpers = w.state.bridge.helpers

theorem State.Severed.lost {w : World σ} {gs : List Grip} {hosts : List Address} {s : State}
    (h : w.state.Severed hosts s) (hb : w.state.Balanced gs) : w.Lost hosts (w.withState s) := by
  have hentries : (w.withState s).state.bridge.entries =
      w.state.bridge.entries.filter fun a _ => decide (a ∉ hosts) := by
    show s.bridge.entries = _
    rw [h.bridge]
  refine ⟨?_, ?_, ?_, ?_, ?_, rfl, congrArg Bridge.helpers h.bridge |>.trans rfl⟩
  · rw [hentries]
    unfold Table.keys Table.filter
    rw [List.filter_map]
    exact .refl _
  · intro a ha
    rw [hentries, Table.get?_filter hb.entries]
    cases w.state.bridge.entries.get? a with
    | none => rfl
    | some g => exact Option.filter_some_pos (decide_eq_true ha)
  · intro a ha g k hg hk
    show (s.heap.handles.get? k).map _ = _
    have hgc := h.gcHandle? hb hg ha
    unfold Grip.gcHandle? at hgc
    rw [hk] at hgc
    exact congrArg _ hgc
  · intro a ha g k hg hk
    show s.heap.handles.get? k = none
    rw [h.handles, Table.get?_filter hb.accounts.nodup]
    -- Handles of removed entries are among those that were freed,
    have hmem : k ∈ w.state.handlesOf hosts :=
      List.mem_filterMap.2 ⟨a, ha, by rw [hg]; exact hk⟩
    cases w.state.heap.handles.get? k with
    | none => rfl
    | some gc => exact Option.filter_some_neg (by simpa using hmem)
  · intro a ha p hp
    obtain ⟨i, rfl⟩ := Heap.foreign_of_isAlive (State.isAlive_of_findProxy hp)
    -- and their proxies among those that were disconnected.
    have hmem : .foreign i ∈ w.state.proxiesOf hosts := List.mem_filterMap.2 ⟨a, ha, hp⟩
    have hget : s.heap.get? (.foreign i) =
        (w.state.heap.objects.get? i).map Managed.forgotten := by
      show s.heap.objects.get? i = _
      rw [h.objects, Table.get?_mapValues]
      simp only [hmem, if_true]
    show (s.heap.nativeOf (.foreign i)).getD .null = .null
    rw [Heap.nativeOf_eq, hget]
    cases w.state.heap.objects.get? i with
    | none => rfl
    | some m => cases m <;> rfl

namespace World.Lost

variable {w u : World σ} {hosts : List Address}

/-- What was lost stays lost when the heap is collected and other parts of the world change. -/
theorem mono {u' : World σ} (h : w.Lost hosts u)
    (hentries : u'.state.bridge.entries = u.state.bridge.entries)
    (hhandles : ∀ k, (u'.state.heap.handles.get? k).map GcHandle.weak =
      (u.state.heap.handles.get? k).map GcHandle.weak)
    (hnative : ∀ p a, u'.state.heap.nativeOf p = some a → u.state.heap.nativeOf p = some a)
    (hlibrary : u'.bodies = u.bodies ∧ u'.state.bridge.helpers = u.state.bridge.helpers) :
    w.Lost hosts u' := by
  refine ⟨hentries ▸ h.keys, hentries ▸ h.kept, ?_, ?_, ?_, hlibrary.1.trans h.library.1,
    hlibrary.2.trans h.library.2⟩
  · exact fun a ha g k hg hk => (hhandles k).trans (h.held a ha g k hg hk)
  · intro a ha g k hg hk
    have hnone := hhandles k
    rw [h.freed a ha g k hg hk] at hnone
    exact Option.map_eq_none_iff.1 hnone
  · intro a ha p hp
    have hnull := h.forgotten a ha p hp
    cases hn : u'.state.heap.nativeOf p with
    | none => rfl
    | some native =>
      rw [hnative p native hn] at hnull
      exact hnull

/-- Whom a former proxy stands for is asked in vain. -/
theorem hostOf (h : w.Lost hosts u) (hw : w.Answers) {a p : Address} (ha : a ∈ hosts)
    (hp : w.state.findProxy a = some p) (n : Nat) :
    ∃ u', Identity.hostOf p (callAt (n + 1)) u = .ok none u' := by
  have hnull := h.forgotten a ha p hp
  have hu : u.bodies[u.state.bridge.helpers.nativePtr]? =
      some fun inv => (Library.nativePtr inv).toProgram := by
    rw [h.library.1, h.library.2]
    exact hw
  have hask := Identity.hostOf_of_stock p hu n
  rw [hnull, Address.ofOctets_octets _ [] (by rintro v ⟨⟩; decide)] at hask
  exact ⟨_, hask⟩

/-- The collection of a pass takes proxies of weak entries only, and what was lost stays lost. -/
theorem collect {v : World σ} {gs : List Grip} {full : Bool} (h : w.Lost hosts u)
    (hb : u.state.Balanced gs)
    (hfind : ∀ a ∉ hosts, u.state.findProxy a = w.state.findProxy a)
    (hentries : v.state.bridge.entries = u.state.bridge.entries)
    (hheap : v.state.heap = u.state.heap.collect full)
    (hlibrary : v.bodies = u.bodies ∧ v.state.bridge.helpers = u.state.bridge.helpers) :
    w.Lost hosts v ∧ ∀ a ∉ hosts,
      v.state.findProxy a = (w.state.findProxy a).filter v.state.heap.isAlive ∧
      ∀ g, w.state.bridge.entries.get? a = some g → g.strength ≠ .weak →
        v.state.findProxy a = w.state.findProxy a := by
  have hv (a : Address) : v.state.findProxy a =
      (u.state.withHeap (u.state.heap.collect full)).findProxy a := by
    unfold State.findProxy
    rw [hentries, hheap]
    rfl
  refine ⟨h.mono hentries ?_ ?_ hlibrary, fun a ha => ⟨?_, fun g hg hne => ?_⟩⟩
  · intro k
    rw [hheap]
    rw [Heap.handles_collect, Table.get?_mapValues, Option.map_map]
    exact congrArg (Option.map · _) (funext fun gc => Heap.weak_settled _ gc)
  · intro p a hn
    rw [hheap, Heap.nativeOf_collect] at hn
    split at hn
    · exact hn
    · cases hn
  · rw [hv, State.findProxy_collect, hfind a ha, hheap]
  · rw [← h.kept a ha] at hg
    rw [hv, hb.findProxy_collect_of_ne_weak full hg hne, hfind a ha]

end World.Lost

/-! ## The three operations -/

theorem Metrics.counter_of_add {m m' : Metrics} {name : String} {n : Nat}
    (h : m.add name n = .ok m') (name' : String) :
    m'.counter name' = if name = name' then m.counter name + n else m.counter name' := by
  unfold add at h
  cases hsum : checkedAdd (m.counter name) n with
  | error e =>
    rw [hsum] at h
    cases h
  | ok sum =>
    rw [hsum] at h
    cases h
    obtain ⟨-, rfl⟩ := checkedAdd_eq_ok_iff.1 hsum
    unfold counter
    dsimp only
    rw [Table.get?_insert]
    split <;> rfl

def World.counter (w : World σ) (name : String) : Nat := w.state.bridge.metrics.counter name

/-- A counter that would not fit in its word ends the run, and nothing else does. -/
theorem Act.count_ends (name : String) (n : Nat) (call : Invoker σ) (w : World σ) :
    Ends (Act.count name n call w)
      (fun _ u => ∃ m, w.state.bridge.metrics.add name n = .ok m ∧
        u = w.withState { w.state with bridge := { w.state.bridge with metrics := m } })
      fun f _ => f = .panic (.overflow .addition) ∧
        wordModulus ≤ w.state.bridge.metrics.counter name + n := by
  unfold Act.count
  rw [Act.state_bind]
  cases hm : w.state.bridge.metrics.add name n with
  | ok m => exact ⟨m, rfl, rfl⟩
  | error o =>
    unfold Metrics.add checkedAdd at hm
    split at hm
    · cases hm
    · cases hm
      exact ⟨rfl, Nat.le_of_not_lt ‹_›⟩

namespace Identity

variable {w : World σ} {gs : List Grip} {n : Nat}

theorem foldl_replicate_one (k n : Nat) : (List.replicate n 1).foldl (· + ·) k = k + n := by
  induction n generalizing k with
  | zero => rfl
  | succ n ih => rw [List.replicate_succ, List.foldl_cons, ih, Nat.add_assoc, Nat.add_comm 1]

theorem sever_ends (hw : w.Disconnects) (hb : w.state.Balanced gs) (reason : String)
    {hosts : List Address} (hnodup : hosts.Nodup) (hhosts : hosts ⊆ w.state.bridge.entries.keys) :
    Ends (sever reason hosts (callAt (n + 1)) w)
      (fun severed u => severed = hosts.length ∧ w.Lost hosts u ∧ u.state.Balanced gs ∧
        (∀ a ∉ hosts, u.state.findProxy a = w.state.findProxy a) ∧
        ∀ name, u.counter name =
          w.counter name + if Counter.proxiesSevered = name then hosts.length else 0)
      fun f _ => f = .panic (.overflow .addition) ∧
        wordModulus ≤ w.counter Counter.proxiesSevered + hosts.length := by
  have hentries (a : Address) (ha : a ∈ hosts) : (w.state.bridge.entries.get? a).isSome := by
    rw [Option.isSome_iff_ne_none, Ne, Table.get?_eq_none, Classical.not_not]
    exact hhosts ha
  obtain ⟨s, hrun, hs, hbs⟩ := mapM_severOne (n := n) reason hw (.refl w.state) hb hb hnodup
    fun a ha => ⟨List.not_mem_nil, hentries a ha⟩
  rw [List.append_nil] at hs
  have hmetrics : s.bridge.metrics = w.state.bridge.metrics := by rw [hs.bridge]
  -- The number of the severed is what `mapM` gives, one for each host.
  unfold sever
  rw [Act.bind_of_ok hrun, foldl_replicate_one, Nat.zero_add]
  unfold World.counter
  rw [← hmetrics]
  refine Act.ends_bind (Act.count_ends Counter.proxiesSevered hosts.length _ (w.withState s)) ?_
  rintro _ u ⟨m, hm, rfl⟩
  refine ⟨rfl, ?_, ?_, fun a ha => hs.findProxy hb ha, fun name => ?_⟩
  · exact (hs.lost hb).mono rfl (fun _ => rfl) (fun _ _ h => h) ⟨rfl, rfl⟩
  · exact hbs.of_heap rfl ⟨rfl, rfl, rfl, rfl⟩
  · show m.counter name = s.bridge.metrics.counter name + _
    have hm : s.bridge.metrics.add Counter.proxiesSevered hosts.length = .ok m := hm
    rw [Metrics.counter_of_add hm]
    split
    · rename_i heq
      rw [heq]
    · rfl

theorem teardown_ends (hw : w.Disconnects) (hb : w.state.Balanced gs) (root : Address) :
    Ends (teardown root (callAt (n + 1)) w)
      (fun severed u => severed = (w.state.owned root).length ∧ w.Lost (w.state.owned root) u ∧
        (∀ a ∉ w.state.owned root, u.state.findProxy a = w.state.findProxy a) ∧
        u.counter Counter.proxiesSevered =
          w.counter Counter.proxiesSevered + (w.state.owned root).length)
      fun f _ => f = .panic (.overflow .addition) ∧
        wordModulus ≤ w.counter Counter.proxiesSevered + (w.state.owned root).length := by
  unfold teardown
  rw [Act.state_bind]
  refine Act.ends_bind (sever_ends hw hb _ (hb.entries.filter _) List.filter_sublist.subset) ?_
  rintro severed u ⟨rfl, hlost, -, hfind, hcounter⟩
  refine ⟨rfl, ?_, hfind, ?_⟩
  · exact hlost.mono rfl (fun _ => rfl) (fun _ _ h => h) ⟨rfl, rfl⟩
  · have hcount := hcounter Counter.proxiesSevered
    rw [if_pos rfl] at hcount
    exact hcount

theorem shutdown_ends (hw : w.Disconnects) (hb : w.state.Balanced gs) :
    Ends (shutdown (callAt (n + 1)) w)
      (fun severed u => severed = w.state.bridge.entries.keys.length ∧
        w.Lost w.state.bridge.entries.keys u ∧
        u.counter Counter.proxiesSevered =
          w.counter Counter.proxiesSevered + w.state.bridge.entries.keys.length)
      fun f _ => f = .panic (.overflow .addition) ∧
        wordModulus ≤ w.counter Counter.proxiesSevered + w.state.bridge.entries.keys.length := by
  unfold shutdown
  rw [Act.state_bind]
  refine Act.ends_bind (sever_ends hw hb _ hb.entries (List.Subset.refl _)) ?_
  rintro severed u ⟨rfl, hlost, -, -, hcounter⟩
  refine ⟨rfl, ?_, ?_⟩
  · exact hlost.mono rfl (fun _ => rfl) (fun _ _ h => h) ⟨rfl, rfl⟩
  · have hcount := hcounter Counter.proxiesSevered
    rw [if_pos rfl] at hcount
    exact hcount

/-- What a pass does after the removals keeps the entries, and how many were severed. -/
theorem sweep_ends (hw : w.Disconnects) (hb : w.state.Balanced gs) :
    Ends (sweep (callAt (n + 1)) w)
      (fun report u => report = ⟨w.state.unreached.length, u.state.bridge.entries.size⟩ ∧
        w.Lost w.state.unreached u ∧
        (∀ a ∉ w.state.unreached,
          u.state.findProxy a = (w.state.findProxy a).filter u.state.heap.isAlive ∧
          ∀ g, w.state.bridge.entries.get? a = some g → g.strength ≠ .weak →
            u.state.findProxy a = w.state.findProxy a) ∧
        u.counter Counter.proxiesSevered =
          w.counter Counter.proxiesSevered + w.state.unreached.length)
      fun f _ => f = .panic (.overflow .addition) ∧
        (wordModulus ≤ w.counter Counter.proxiesSevered + w.state.unreached.length ∨
          wordModulus ≤ w.counter Counter.sweeps + 1) := by
  unfold sweep
  refine Act.ends_ensuring ?_
  rw [Act.state_bind]
  -- First the removals, each by itself.
  refine Act.ends_bind ((sever_ends hw hb "unreachable" (hb.entries.filter _)
    List.filter_sublist.subset).mono (fun _ _ h => h) fun _ _ h => ⟨h.1, .inl h.2⟩) ?_
  rintro severed u ⟨rfl, hlost, hbu, hfind, hcounter⟩
  have hcount := hcounter Counter.proxiesSevered
  have hsweeps := hcounter Counter.sweeps
  rw [if_pos rfl] at hcount
  rw [if_neg (by decide), Nat.add_zero] at hsweeps
  rw [Act.state_bind, ← hsweeps]
  -- Then the collection of the foreign heap, which takes no entry away.
  generalize hfull : u.state.bridge.config.fullCollection = full
  refine Act.ends_bind (Q := fun _ v => v =
    u.withState (u.state.withHeap (u.state.heap.collect full))) rfl ?_
  rintro _ _ rfl
  refine Act.ends_bind (Q := fun _ v => v = u.withState
    ((u.state.withHeap (u.state.heap.collect full)).report (.foreignCollection full 0))) rfl ?_
  rintro _ _ rfl
  rw [Act.state_bind]
  -- Only the last count can fail, and it concerns another counter.
  refine Act.ends_bind ((Act.count_ends Counter.sweeps 1 _ _).mono (fun _ _ h => h)
    fun _ _ h => ⟨h.1, .inr h.2⟩) ?_
  rintro _ v ⟨m, hm, rfl⟩
  have hcounter : m.counter Counter.proxiesSevered = u.counter Counter.proxiesSevered := by
    rw [Metrics.counter_of_add hm, if_neg (by decide)]
    rfl
  refine ⟨rfl, ?_⟩
  rw [← and_assoc]
  exact ⟨hlost.collect hbu hfind rfl rfl ⟨rfl, rfl⟩, hcounter.trans hcount⟩

end Identity

/-! ## However the table enumerates its entries -/

/-- The world in which the identity table enumerates its entries in another order. -/
def World.enumerating (w : World σ) (es : List (Address × Grip)) : World σ :=
  w.withState { w.state with bridge := { w.state.bridge with entries := ⟨es⟩ } }

section Enumeration

variable {v u : World σ} {es : List (Address × Grip)} {gs : List Grip}

theorem World.get?_enumerating (hv : v.state.Balanced gs)
    (hes : es.Perm v.state.bridge.entries.entries) (a : Address) :
    (v.enumerating es).state.bridge.entries.get? a = v.state.bridge.entries.get? a :=
  Table.get?_of_perm hv.entries hes a

theorem World.findProxy_enumerating (hv : v.state.Balanced gs)
    (hes : es.Perm v.state.bridge.entries.entries) (a : Address) :
    (v.enumerating es).state.findProxy a = v.state.findProxy a := by
  unfold State.findProxy
  rw [get?_enumerating hv hes]
  rfl

theorem State.Balanced.enumerating (hv : v.state.Balanced gs)
    (hes : es.Perm v.state.bridge.entries.entries) : (v.enumerating es).state.Balanced gs := by
  have hvalues : (es.map Prod.snd).Perm v.state.bridge.entries.values := hes.map Prod.snd
  refine { hv with
    accounts := hv.accounts.congr ?_
    entries := (hes.map Prod.fst).nodup_iff.2 hv.entries
    alive := ?_ }
  · exact (hvalues.symm.append_right _).append_right gs
  · exact fun g hg => hv.alive g (hvalues.mem_iff.1 hg)

/-- What was lost does not depend on the order of the entries. -/
theorem World.Lost.of_enumerating (hv : v.state.Balanced gs)
    (hes : es.Perm v.state.bridge.entries.entries) {hosts hosts' : List Address}
    (hp : hosts.Perm hosts') (h : (v.enumerating es).Lost hosts u) : v.Lost hosts' u := by
  have hkeys : (v.enumerating es).state.bridge.entries.keys.Perm v.state.bridge.entries.keys :=
    hes.map Prod.fst
  refine ⟨?_, ?_, ?_, ?_, ?_, h.library⟩
  · have hperm := h.keys.trans (hkeys.filter _)
    simp only [hp.mem_iff] at hperm
    exact hperm
  · intro a ha
    rw [h.kept a fun hmem => ha (hp.mem_iff.1 hmem), get?_enumerating hv hes]
  · intro a ha g k hg hk
    exact h.held a (fun hmem => ha (hp.mem_iff.1 hmem)) g k ((get?_enumerating hv hes a).trans hg) hk
  · intro a ha g k hg hk
    exact h.freed a (hp.mem_iff.2 ha) g k ((get?_enumerating hv hes a).trans hg) hk
  · intro a ha p hf
    exact h.forgotten a (hp.mem_iff.2 ha) p ((findProxy_enumerating hv hes a).trans hf)

end Enumeration

/-- Of the entries that are left, none was selected. -/
theorem World.Lost.size {w u : World σ} {p : Address → Bool}
    (h : w.Lost (w.state.bridge.entries.keys.filter p) u) :
    (w.state.bridge.entries.keys.filter p).length + u.state.bridge.entries.size =
      w.state.bridge.entries.size := by
  have hsize (t : Table Address Grip) : t.size = t.keys.length := by
    unfold Table.size Table.keys
    rw [List.length_map]
  have hrest : (w.state.bridge.entries.keys.filter fun a =>
      decide (a ∉ w.state.bridge.entries.keys.filter p)) =
      w.state.bridge.entries.keys.filter fun a => decide ¬p a = true := by
    refine List.filter_congr fun a ha => decide_eq_decide.2 (not_congr ?_)
    rw [List.mem_filter, and_iff_right ha]
  rw [hsize, hsize, h.keys.length_eq, hrest, ← List.countP_eq_length_filter,
    ← List.countP_eq_length_filter]
  exact (List.length_eq_countP_add_countP p).symm

/-- What a removal of some host objects leaves behind: beside what was lost, nobody answers for them
any more, and the removals are counted. -/
structure World.Severance (v : World σ) (hosts : List Address) (u : World σ) : Prop
    extends v.Lost hosts u where
  unanswered : v.Answers → ∀ a ∈ hosts, ∀ p, v.state.findProxy a = some p → ∀ n,
    ∃ u', Identity.hostOf p (callAt (n + 1)) u = .ok none u'
  counted : u.counter Counter.proxiesSevered = v.counter Counter.proxiesSevered + hosts.length

/-- With the stock method that disconnects proxies, in every state that the host or foreign code sees
and however the table enumerates its entries: a pass removes the entries of the objects that the host
no longer reaches, a teardown those of the objects that its root owns, a shutdown all of them, and no
other. Every entry that is left keeps its hold and its proxy, unless it is weak and the collection of
the pass took the proxy. The handles of the removed entries are freed, and their proxies answer that
they stand for nothing. What is reported and counted is how many were removed. The operations end
otherwise only where a counter would not fit in its word. -/
theorem severing_exact {config : Config} {registry : Registry} {side : ForeignSide σ}
    {memory : σ} {start v : World σ} {rs : List Request} (hside : side.foreign.heap = .empty)
    (hstart : World.connect config registry side memory = .ok start)
    (hstock : start.Disconnects)
    (hv : Session.Sees (fun _ _ => True) (fun _ => True) start rs v)
    {es : List (Address × Grip)} (hes : es.Perm v.state.bridge.entries.entries) (n : Nat) :
    Ends (Identity.sweep (callAt (n + 1)) (v.enumerating es))
      (fun report u => v.Severance v.state.unreached u ∧
        report.severed = v.state.unreached.length ∧
        report.severed + report.remaining = v.state.bridge.entries.size ∧
        ∀ a ∉ v.state.unreached,
          u.state.findProxy a = (v.state.findProxy a).filter u.state.heap.isAlive ∧
          ∀ g, v.state.bridge.entries.get? a = some g → g.strength ≠ .weak →
            u.state.findProxy a = v.state.findProxy a)
      (fun f _ => f = .panic (.overflow .addition) ∧
        (wordModulus ≤ v.counter Counter.proxiesSevered + v.state.unreached.length ∨
          wordModulus ≤ v.counter Counter.sweeps + 1)) ∧
    (∀ root, Ends (Identity.teardown root (callAt (n + 1)) (v.enumerating es))
      (fun severed u => v.Severance (v.state.owned root) u ∧
        severed = (v.state.owned root).length ∧
        ∀ a ∉ v.state.owned root, u.state.findProxy a = v.state.findProxy a)
      (fun f _ => f = .panic (.overflow .addition) ∧
        wordModulus ≤ v.counter Counter.proxiesSevered + (v.state.owned root).length)) ∧
    Ends (Identity.shutdown (callAt (n + 1)) (v.enumerating es))
      (fun severed u => v.Severance v.state.bridge.entries.keys u ∧
        severed = v.state.bridge.entries.keys.length)
      (fun f _ => f = .panic (.overflow .addition) ∧
        wordModulus ≤ v.counter Counter.proxiesSevered + v.state.bridge.entries.keys.length) := by
  obtain ⟨o, ho⟩ := hv.tallied hside hstart
  have hlasting := hv.lasting
  have hv' : v.Disconnects := hstock.lasting hlasting.1 hlasting.2
  have hw : (v.enumerating es).Disconnects := hv'
  have hb := ho.balanced
  have hbes := hb.enumerating hes
  have hkeys : (v.enumerating es).state.bridge.entries.keys.Perm v.state.bridge.entries.keys :=
    hes.map Prod.fst
  have hunreached : (v.enumerating es).state.unreached.Perm v.state.unreached := hkeys.filter _
  -- What was lost of the entries in one order was lost of them in any.
  have hseverance {hosts hosts' : List Address} {u : World σ} (hp : hosts.Perm hosts')
      (hlost : (v.enumerating es).Lost hosts u)
      (hcount : u.counter Counter.proxiesSevered =
        v.counter Counter.proxiesSevered + hosts.length) : v.Severance hosts' u := by
    have hlost := hlost.of_enumerating hb hes hp
    exact ⟨hlost, fun hv a ha p hf n => hlost.hostOf hv ha hf n, hp.length_eq ▸ hcount⟩
  -- Each operation is a row of removals, in the order in which the table is enumerated.
  refine ⟨(Identity.sweep_ends hw hbes).mono ?_ ?_,
    fun root => (Identity.teardown_ends hw hbes root).mono ?_ ?_,
    (Identity.shutdown_ends hw hbes).mono ?_ ?_⟩
  · rintro report u ⟨rfl, hlost, hfind, hcount⟩
    have hseverance := hseverance hunreached hlost hcount
    refine ⟨hseverance, hunreached.length_eq, ?_, fun a ha => ?_⟩
    · rw [hunreached.length_eq]
      exact hseverance.toLost.size
    · rw [← hunreached.mem_iff] at ha
      obtain ⟨hcollected, hkept⟩ := hfind a ha
      rw [World.findProxy_enumerating hb hes] at hcollected hkept
      rw [World.get?_enumerating hb hes] at hkept
      exact ⟨hcollected, hkept⟩
  · rintro f - ⟨rfl, hover⟩
    rw [hunreached.length_eq] at hover
    exact ⟨rfl, hover⟩
  · rintro severed u ⟨rfl, hlost, hfind, hcount⟩
    have howned : ((v.enumerating es).state.owned root).Perm (v.state.owned root) := hkeys.filter _
    refine ⟨hseverance howned hlost hcount, howned.length_eq, fun a ha => ?_⟩
    rw [hfind a fun hmem => ha (howned.mem_iff.1 hmem), World.findProxy_enumerating hb hes]
  · rintro f - ⟨rfl, hover⟩
    have howned : ((v.enumerating es).state.owned root).Perm (v.state.owned root) := hkeys.filter _
    rw [howned.length_eq] at hover
    exact ⟨rfl, hover⟩
  · rintro severed u ⟨rfl, hlost, hcount⟩
    exact ⟨hseverance hkeys hlost hcount, hkeys.length_eq⟩
  · rintro f - ⟨rfl, hover⟩
    rw [hkeys.length_eq] at hover
    exact ⟨rfl, hover⟩

namespace Sample

/-- Makes the proxies of two objects, one of which the host then no longer reaches. -/
def parting : Program Unit :=
  .ask (.defineType "G" "P") fun _ =>
  .define ⟨"G", ⟨"", "P", ".ctor", some ["intptr"]⟩, 1, 0⟩
    (fun inv => (Library.connect inv).toProgram) fun _ =>
  .ask (.defineClass ⟨"P", "P", "G", .native, false⟩ none) fun c =>
  .ask (.spawn c none "o") fun o =>
  .ask (.spawn c none "p") fun p =>
  .ask (.proxy o) fun _ =>
  .ask (.proxy p) fun _ =>
  .ask (.setReachable p false) fun _ => .done none

/-- The second of two entries is that of an object which the host no longer reaches. -/
def isParted (w : World Unit) : Bool :=
  w.state.bridge.entries.keys == [.hostObject 0, .hostObject 1] &&
    w.state.unreached == [.hostObject 1] && w.counter Counter.proxiesSevered == 0 &&
    w.counter Counter.sweeps == 0

theorem run_parting : endsInStock 2 parting isParted = true := by
  decide +kernel

end Sample

/-- `severing_exact` for a pass that removes one of two entries. -/
theorem severing_exact_parted :
    ∃ (side : ForeignSide Unit) (start v u : World Unit),
      side.foreign.heap = .empty ∧ World.connect Sample.config .default side () = .ok start ∧
      start.Disconnects ∧ Session.Sees (fun _ _ => True) (fun _ => True) start [] v ∧
      v.state.bridge.entries.keys = [.hostObject 0, .hostObject 1] ∧
      Identity.sweep (callAt 1) v = .ok ⟨1, 1⟩ u ∧ v.Severance [.hostObject 1] u := by
  obtain ⟨side, start, v, a, hside, hstart, -, hv, hrun⟩ :=
    Sample.sees_of_endsInStock Sample.run_parting
  simp only [Sample.isParted, Bool.and_eq_true, beq_iff_eq] at hrun
  obtain ⟨⟨⟨hkeys, hunreached⟩, hsevered⟩, hsweeps⟩ := hrun
  have hheap := (ForeignSide.installs_of_install hside).heap
  have hstock : start.Disconnects := (World.stocked_connect hside hstart).disconnect
  -- The pass is one that was run, so the counters do not overflow.
  have hsweep := (severing_exact hheap hstart hstock hv (.refl _) 0).1
  rw [hunreached, hsevered, hsweeps] at hsweep
  have hsweep : Ends (Identity.sweep (callAt 1) v) _ _ := hsweep
  cases hu : Identity.sweep (callAt 1) v with
  | error f u =>
    rw [hu] at hsweep
    obtain ⟨-, hover | hover⟩ := hsweep
    · exact absurd hover (by decide)
    · exact absurd hover (by decide)
  | ok report u =>
    rw [hu] at hsweep
    obtain ⟨hlost, hcount, hsize, -⟩ := hsweep
    have hsize' : v.state.bridge.entries.size = 2 := by
      have hlength := congrArg List.length hkeys
      rwa [Table.keys, List.length_map] at hlength
    obtain ⟨severed, remaining⟩ := report
    obtain rfl : severed = 1 := hcount
    obtain rfl : remaining = 1 := by
      have hsize : 1 + remaining = v.state.bridge.entries.size := hsize
      omega
    exact ⟨side, start, v, u, hheap, hstart, hstock, hv, hkeys, hu, hlost⟩

end TwinHeap
