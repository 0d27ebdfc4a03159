import TwinHeap.Proofs.Anchors

/-!
# Pairing — the entries and the proxies point at each other

The identity table leads from a host object to its proxy, and the proxy itself leads back.
`State.Paired` says that the two directions agree, apart from proxies that are just being connected
or disconnected. Every change of the bridge keeps it.
-/

namespace TwinHeap

/-! ## The two directions -/

namespace State

/-- The two directions of identity agree, apart from a proxy that is not yet told its host object and
from proxies that still have to forget theirs. -/
structure Paired (s : State) (o : List Owed) : Prop where
  forward : ∀ {host p : Address}, s.findProxy host = some p →
    s.heap.nativeOf p = some host ∨ .making host p .raw ∈ o
  backward : ∀ {p host : Address}, s.heap.nativeOf p = some host → host ≠ .null →
    s.findProxy host = some p ∨ ∃ g, .severing g (some p) false ∈ o
  unique : ∀ {host host' p : Address}, s.findProxy host = some p → s.findProxy host' = some p →
    host = host'
  apart : ∀ {g : Grip} {p : Address}, .severing g (some p) false ∈ o →
    s.heap.Given p ∧ ∀ host, s.findProxy host ≠ some p
  told : ∀ {host p : Address}, .making host p .told ∈ o →
    s.findProxy host = some p ∧ s.heap.nativeOf p = some host
  proper : ∀ {host : Address} {g : Grip}, s.bridge.entries.get? host = some g →
    ∃ i, host = .hostObject i
  given : ∀ {host : Address} {g : Grip} {c : GcHandle} {p : Address},
    s.bridge.entries.get? host = some g → g.gcHandle? s.heap = some c → c.target = some p →
    s.heap.Given p

namespace Paired

variable {s s' : State} {o o' : List Owed} {gs : List Grip}

/-- What is owed beside proxies in the making or in removal does not matter. -/
theorem congr (h : s.Paired o)
    (hm : ∀ host p, .making host p .raw ∈ o → .making host p .raw ∈ o')
    (hs : ∀ g p, .severing g (some p) false ∈ o ↔ .severing g (some p) false ∈ o')
    (ht : ∀ host p, .making host p .told ∈ o' → .making host p .told ∈ o) : s.Paired o' :=
  { h with
    forward := fun hf => (h.forward hf).imp_right (hm _ _)
    backward := fun hn hne => (h.backward hn hne).imp_right fun ⟨g, hg⟩ => ⟨g, (hs g _).1 hg⟩
    apart := fun hg => h.apart ((hs _ _).2 hg)
    told := fun hm => h.told (ht _ _ hm) }

theorem ne_null (h : s.Paired o) {host p : Address} (hf : s.findProxy host = some p) :
    host ≠ .null := by
  rintro rfl
  obtain ⟨g, hg, -⟩ := findProxy_eq_some.1 hf
  obtain ⟨i, hi⟩ := h.proper hg
  cases hi

theorem anchored (h : s.Paired o) : s.Anchored := fun _ _ _ _ => h.given

/-- A change that keeps what the entries hold and what the instances stand for. -/
theorem of_same (h : s.Paired o) (hf : ∀ host, s'.findProxy host = s.findProxy host)
    (hn : ∀ p host, host ≠ .null →
      (s'.heap.nativeOf p = some host ↔ s.heap.nativeOf p = some host))
    (hx : s.heap.nextObject ≤ s'.heap.nextObject)
    (hp : ∀ {host : Address} {g : Grip}, s'.bridge.entries.get? host = some g →
      ∃ i, host = .hostObject i)
    (hg : s'.Anchored) : s'.Paired o where
  forward {host p} hfind := by
    rw [hf] at hfind
    exact (h.forward hfind).imp_left (hn p host (h.ne_null hfind)).2
  backward {p host} hnative hne := by
    rw [hf]
    exact h.backward ((hn p host hne).1 hnative) hne
  unique {host host' p} hfind hfind' := by
    rw [hf] at hfind hfind'
    exact h.unique hfind hfind'
  apart {g p} hm := by
    obtain ⟨hgiven, hapart⟩ := h.apart hm
    refine ⟨hgiven.mono hx, fun host => ?_⟩
    rw [hf]
    exact hapart host
  told {host p} hm := by
    obtain ⟨hfind, hnative⟩ := h.told hm
    exact ⟨(hf host).trans hfind, (hn p host (h.ne_null hfind)).2 hnative⟩
  proper := hp
  given := hg _ _ _ _

/-- A change that leaves objects and entries alone, and the handles of the entries. -/
theorem of_handles (h : s.Paired o) (he : s'.bridge.entries = s.bridge.entries)
    (ho : s'.heap.objects = s.heap.objects ∧ s'.heap.nextObject = s.heap.nextObject)
    (hg : ∀ g ∈ s.bridge.entries.values, g.gcHandle? s'.heap = g.gcHandle? s.heap) :
    s'.Paired o := by
  have hlive := Heap.isAlive_congr ho.1
  refine h.of_same ?_ ?_ (Nat.le_of_eq ho.2.symm) (he ▸ h.proper) ?_
  · intro host
    refine findProxy_congr (by rw [he]) fun g hget => ?_
    exact Grip.target?_congr (hg g (Table.mem_values_of_get? hget)) hlive
  · intro p host _
    rw [Heap.nativeOf_congr ho.1]
  · refine h.anchored.of_handles (Nat.le_of_eq ho.2.symm) fun hget => ?_
    rw [he] at hget
    exact ⟨hget, hg _ (Table.mem_values_of_get? hget)⟩

/-- A change outside of the foreign heap and of the entries. -/
theorem of_heap (h : s.Paired o) (hh : s'.heap = s.heap)
    (he : s'.bridge.entries = s.bridge.entries) : s'.Paired o :=
  h.of_handles he ⟨congrArg _ hh, congrArg _ hh⟩ fun _ _ => by rw [hh]

/-! ## The heap -/

/-- A new object that stands for nothing. -/
theorem allocate (h : s.Paired o) (hb : s.Balanced gs) {m : Managed}
    (hm : ∀ host, m.native? = some host → host = .null) :
    (s.withHeap (s.heap.allocate m).2).Paired o := by
  refine h.of_same (h.anchored.findProxy_allocate m) (fun p host hne => ?_) (Nat.le_succ _) h.proper
    (h.anchored.of_same rfl rfl (Nat.le_succ _))
  show (s.heap.allocate m).2.nativeOf p = some host ↔ _
  rw [Heap.nativeOf_allocate]
  split
  · rename_i hp
    refine ⟨fun hn => absurd (hm host hn) hne, fun hn => ?_⟩
    exact absurd hp (hb.numbered.ne_next (Heap.isAlive_of_nativeOf hn))
  · exact Iff.rfl

/-- Other objects than instances change. -/
theorem modify (h : s.Paired o) (a : Address) {f : Managed → Managed}
    (hf : ∀ m, (f m).native? = m.native?) : (s.withHeap (s.heap.modify a f)).Paired o := by
  have hhandles : (s.heap.modify a f).handles = s.heap.handles := by cases a <;> rfl
  have hnext : (s.heap.modify a f).nextObject = s.heap.nextObject := by cases a <;> rfl
  have hgc (g : Grip) : g.gcHandle? (s.heap.modify a f) = g.gcHandle? s.heap := by
    unfold Grip.gcHandle?
    rw [hhandles]
  refine h.of_same ?_ ?_ (Nat.le_of_eq hnext.symm) h.proper
    (h.anchored.of_same rfl hhandles (Nat.le_of_eq hnext.symm))
  · intro host
    exact findProxy_congr rfl fun g _ => Grip.target?_congr (hgc g) (Heap.isAlive_modify a f)
  · intro p host _
    show (s.heap.modify a f).nativeOf p = some host ↔ _
    rw [Heap.nativeOf_modify s.heap a hf]

/-- A collection takes a proxy and the way to it together. -/
theorem collect (h : s.Paired o) (ht : ∀ host p, .making host p .told ∉ o) (full : Bool) :
    (s.withHeap (s.heap.collect full)).Paired o := by
  -- Of the proxies that entries find only those stay that are rooted.
  have hfind (host : Address) : (s.withHeap (s.heap.collect full)).findProxy host =
      (s.findProxy host).filter fun a => s.heap.roots.contains a := by
    show ((s.bridge.entries.get? host).bind fun g => g.target? (s.heap.collect full)) =
      ((s.bridge.entries.get? host).bind fun g => g.target? s.heap).filter _
    cases s.bridge.entries.get? host with
    | none => rfl
    | some g =>
      obtain ⟨_ | k, st⟩ := g
      · rfl
      · exact s.heap.target?_collect full k
  refine {
    forward := ?forward
    backward := ?backward
    unique := ?unique
    apart := ?apart
    told := fun hm => absurd hm (ht _ _)
    proper := h.proper
    given := Balanced.anchored_collect h.anchored full _ _ _ _ }
  case forward =>
    intro host p hf
    rw [hfind, Option.filter_eq_some_iff] at hf
    refine (h.forward hf.1).imp_left fun hn => ?_
    show (s.heap.collect full).nativeOf p = _
    rw [Heap.nativeOf_collect, if_pos hf.2, hn]
  case backward =>
    intro p host hn hne
    have hn : (s.heap.collect full).nativeOf p = some host := hn
    rw [Heap.nativeOf_collect] at hn
    split at hn
    · rename_i hroot
      refine (h.backward hn hne).imp_left fun hf => ?_
      rw [hfind, hf, Option.filter_some_pos hroot]
    · cases hn
  case unique =>
    intro host host' p hf hf'
    rw [hfind, Option.filter_eq_some_iff] at hf hf'
    exact h.unique hf.1 hf'.1
  case apart =>
    intro g p hm
    refine ⟨(h.apart hm).1, fun host hf => ?_⟩
    rw [hfind, Option.filter_eq_some_iff] at hf
    exact (h.apart hm).2 host hf.1

/-! ## Holds -/

theorem releaseGrip {g : Grip} (h : s.Paired o) (hb : s.Balanced (g :: gs)) :
    (s.releaseGrip g).Paired o := by
  have ha : s.heap.Accounts (g :: (s.holding ++ gs)) := hb.accounts.congr List.perm_middle
  refine h.of_handles rfl (Heap.objects_release g s.heap) fun g' hg' => ?_
  exact Heap.gcHandle?_release ha
    (List.mem_append_left gs (Balanced.mem_holding_of_entry hg'))

theorem makeGrip (h : s.Paired o) (hb : s.Balanced gs) (target : Address) (st : Strength) :
    (s.withHeap (Grip.make s.heap target st).2).Paired o := by
  refine h.of_handles rfl (Heap.objects_make s.heap target st) fun g' hg' => ?_
  exact Heap.gcHandle?_make hb.accounts
    (List.mem_append_left gs (Balanced.mem_holding_of_entry hg')) target st

theorem root (h : s.Paired o) (hb : s.Balanced gs) (a : Address) : (s.root a).Paired o := by
  unfold State.root
  split
  · exact h
  · exact (h.makeGrip hb a .strong).of_heap rfl rfl

theorem hold (h : s.Paired o) (hb : s.Balanced gs) (target : Address) (st : Strength) :
    (s.hold target st).2.Paired o :=
  (h.makeGrip hb target st).of_heap rfl rfl

theorem tightenGrip (h : s.Paired o) (hb : s.Balanced gs) {i : Nat} {old : Grip}
    (hold : s.grips.get? i = some old) (st : Strength) : (s.tightenGrip i old st).Paired o := by
  have hb' := hb.eraseGrip hold
  have ha : s.heap.Accounts (old :: ((s.eraseGrip i).holding ++ gs)) :=
    hb'.accounts.congr List.perm_middle
  refine h.of_handles rfl (Heap.objects_setStrength old s.heap st) fun g' hg' => ?_
  exact Heap.gcHandle?_setStrength ha
    (List.mem_append_left gs (Balanced.mem_holding_of_entry hg')) st

theorem dropGrip (h : s.Paired o) (hb : s.Balanced gs) {i : Nat} {old : Grip}
    (hold : s.grips.get? i = some old) : (s.dropGrip i old).Paired o := by
  have h' : (s.eraseGrip i).Paired o := h.of_heap rfl rfl
  exact h'.releaseGrip (hb.eraseGrip hold)

theorem leave (h : s.Paired o) (hb : s.Balanced gs) (key : Redirector.Key) :
    (s.leave key).Paired o := by
  unfold State.leave
  dsimp only
  have hmod : (s.modifyRedirector key fun r => { r with depth := r.depth - 1 }).Paired o :=
    h.of_heap rfl rfl
  split
  · exact hmod
  · rename_i f fs hf
    have hf : s.bridge.frames = f :: fs := hf
    have ha : s.heap.Accounts (f.roots ++
        (s.bridge.entries.values ++ (fs.flatMap CallFrame.roots ++ s.grips.values) ++ gs)) :=
      hb.accounts_leave hf
    refine h.of_handles rfl (Heap.objects_releaseAll f.roots s.heap) fun g hg => ?_
    exact Heap.gcHandle?_releaseAll ha
      (List.mem_append_left gs (List.mem_append_left _ hg))

/-! ## Entries -/

/-- An entry that is taken out leaves its proxy to be disconnected. -/
theorem eraseEntry (h : s.Paired o) (hb : s.Balanced gs) {host : Address} {g : Grip}
    (hg : s.bridge.entries.get? host = some g) (ht : ∀ p, .making host p .told ∉ o) :
    (s.eraseEntry host).Paired
      (.severing g (g.target? s.heap) (g.target? s.heap).isNone :: o) := by
  have hfind (host' : Address) : (s.eraseEntry host).findProxy host' =
      if host = host' then none else s.findProxy host' := by
    unfold findProxy State.eraseEntry
    rw [Table.get?_erase]
    split <;> rfl
  have hold {host' p : Address} (hf : (s.eraseEntry host).findProxy host' = some p) :
      host ≠ host' ∧ s.findProxy host' = some p := by
    rw [hfind] at hf
    split at hf
    · cases hf
    · exact ⟨‹_›, hf⟩
  refine {
    forward := ?forward
    backward := ?backward
    unique := ?unique
    apart := ?apart
    told := ?told
    proper := ?proper
    given := Balanced.anchored_eraseEntry h.anchored host _ _ _ _ }
  case forward =>
    intro host' p hf
    exact (h.forward (hold hf).2).imp_right (List.mem_cons_of_mem _)
  case backward =>
    intro p host' hn hne
    rw [hfind]
    rcases h.backward hn hne with hf | ⟨g', hg'⟩
    · split
      · rename_i he
        subst he
        obtain ⟨g', hg', ht⟩ := findProxy_eq_some.1 hf
        rw [hg] at hg'
        cases hg'
        -- The proxy still leads to its object; that it is to forget it is what is owed now.
        refine .inr ⟨g, ?_⟩
        rw [ht]
        exact List.mem_cons_self
      · exact .inl hf
    · exact .inr ⟨g', List.mem_cons_of_mem _ hg'⟩
  case unique =>
    exact fun hf hf' => h.unique (hold hf).2 (hold hf').2
  case apart =>
    intro g' p hm
    rcases List.mem_cons.1 hm with heq | hm
    · rw [Owed.severing.injEq] at heq
      obtain ⟨rfl, heq, -⟩ := heq
      have hf : s.findProxy host = some p := findProxy_eq_some.2 ⟨g', hg, heq.symm⟩
      refine ⟨hb.numbered.given ?_, fun host' hf' => ?_⟩
      · rw [Grip.target?_eq] at heq
        exact (Option.filter_eq_some_iff.1 heq.symm).2
      · exact (hold hf').1 (h.unique hf (hold hf').2)
    · exact ⟨(h.apart hm).1, fun host' hf => (h.apart hm).2 host' (hold hf).2⟩
  case told =>
    intro host' p hm
    have hm := (List.mem_cons.1 hm).resolve_left (by rintro ⟨⟩)
    obtain ⟨hf, hn⟩ := h.told hm
    refine ⟨?_, hn⟩
    rw [hfind, if_neg, hf]
    rintro rfl
    exact ht p hm
  case proper =>
    intro host' g' hget
    have hget : (s.bridge.entries.erase host).get? host' = some g' := hget
    rw [Table.get?_erase] at hget
    split at hget
    · cases hget
    · exact h.proper hget

/-- An entry without a live proxy can go. -/
theorem dropEntry (h : s.Paired o) (hb : s.Balanced gs) {host : Address}
    (hn : s.findProxy host = none) : (s.dropEntry host).Paired o := by
  unfold State.dropEntry
  split
  · exact h
  · rename_i g hg
    have ht : g.target? s.heap = none := by
      unfold findProxy at hn
      rw [hg] at hn
      exact hn
    have htold (p : Address) : .making host p .told ∉ o := by
      intro hm
      rw [(h.told hm).1] at hn
      cases hn
    have he := h.eraseEntry hb hg htold
    rw [ht] at he
    have he : (s.eraseEntry host).Paired o := by
      refine he.congr ?_ ?_ ?_
      · intro host p hm
        simpa using hm
      · intro g p
        simp
      · intro host p hm
        simpa using hm
    exact he.releaseGrip (hb.eraseEntry hg)

/-- A new proxy is found by its host object before it is told of it. -/
theorem addProxy (h : s.Paired o) (hb : s.Balanced gs) {host : Address} {type : Nat}
    (hn : s.bridge.entries.get? host = none) (hhost : ∃ i, host = .hostObject i)
    (ht : s.foreign.isType type = true) :
    (s.addProxy host type).Paired (.making host (.foreign s.heap.nextObject) .raw :: o) := by
  obtain ⟨hself, -⟩ := Identity.findProxy_addProxy s host ht
  have hother {a : Address} (hne : host ≠ a) : (s.addProxy host type).findProxy a = s.findProxy a :=
    hb.findProxy_addProxy_of_ne h.anchored ht hne
  have hnew {p a : Address} (hp : s.heap.nativeOf p = some a) :
      (s.addProxy host type).heap.nativeOf p = some a := by
    rw [nativeOf_addProxy ht, if_neg (hb.numbered.ne_next (Heap.isAlive_of_nativeOf hp)), hp]
  have hnone {a p : Address} (hf : s.findProxy a = some p) : host ≠ a := by
    rintro rfl
    obtain ⟨g, hg, -⟩ := findProxy_eq_some.1 hf
    cases hn.symm.trans hg
  -- The new proxy is no one else's.
  have hfresh {a : Address} (hne : host ≠ a) :
      (s.addProxy host type).findProxy a ≠ some (.foreign s.heap.nextObject) := by
    rw [hother hne]
    intro hf
    obtain ⟨g, -, ht⟩ := findProxy_eq_some.1 hf
    rw [Grip.target?_eq, Option.filter_eq_some_iff] at ht
    exact hb.numbered.ne_next ht.2 rfl
  refine {
    forward := fun {a p} hf => ?forward
    backward := fun {p a} hnative hne => ?backward
    unique := fun {a b p} hf hf' => ?unique
    apart := fun {g p} hg => ?apart
    told := fun {a p} hm => ?told
    proper := fun {a g} hg => ?proper
    given := hb.anchored_addProxy h.anchored host ht _ _ _ _ }
  case forward =>
    by_cases he : host = a
    · subst he
      cases hself.symm.trans hf
      exact .inr List.mem_cons_self
    · exact (h.forward ((hother he).symm.trans hf)).imp hnew (List.mem_cons_of_mem _)
  case backward =>
    rw [nativeOf_addProxy ht] at hnative
    split at hnative
    · cases hnative
      exact absurd rfl hne
    · obtain hf | ⟨g, hg⟩ := h.backward hnative hne
      · exact .inl ((hother (hnone hf)).trans hf)
      · exact .inr ⟨g, List.mem_cons_of_mem _ hg⟩
  case unique =>
    by_cases he : host = a <;> by_cases he' : host = b
    · exact he.symm.trans he'
    · subst he
      cases hself.symm.trans hf
      exact absurd hf' (hfresh he')
    · subst he'
      cases hself.symm.trans hf'
      exact absurd hf (hfresh he)
    · exact h.unique ((hother he).symm.trans hf) ((hother he').symm.trans hf')
  case apart =>
    obtain ⟨⟨i, rfl, hlt⟩, hapart⟩ := h.apart ((List.mem_cons.1 hg).resolve_left (by rintro ⟨⟩))
    refine ⟨⟨i, rfl, ?_⟩, fun a hf => ?_⟩
    · rw [addProxy_of_isType ht]
      exact Nat.lt_succ_of_lt hlt
    · by_cases he : host = a
      · subst he
        cases hself.symm.trans hf
        exact Nat.lt_irrefl _ hlt
      · exact hapart a ((hother he).symm.trans hf)
  case told =>
    obtain ⟨hf, hnative⟩ := h.told ((List.mem_cons.1 hm).resolve_left (by rintro ⟨⟩))
    exact ⟨(hother (hnone hf)).trans hf, hnew hnative⟩
  case proper =>
    rw [addProxy_of_isType ht] at hg
    have hg : (s.bridge.entries.insert host _).get? a = some g := hg
    rw [Table.get?_insert] at hg
    split at hg
    · rename_i he
      exact he ▸ hhost
    · exact h.proper hg

/-- Rooting keeps what the entry holds. -/
theorem tighten (h : s.Paired o) (hb : s.Balanced gs) {host : Address} {old : Grip}
    (hg : s.bridge.entries.get? host = some old) {st : Strength} (hst : st ≠ .released) :
    (s.tighten host old st).Paired o := by
  obtain ⟨hobjects, hnext⟩ := Heap.objects_setStrength old s.heap st
  refine h.of_same (hb.findProxy_tighten hg hst) ?_ (Nat.le_of_eq hnext.symm) ?_
    (hb.anchored_tighten h.anchored hg st)
  · intro p host' _
    show (old.setStrength s.heap st).2.nativeOf p = some host' ↔ _
    rw [Heap.nativeOf_congr hobjects]
  · intro host' g hget
    have hget : (s.bridge.entries.insert host _).get? host' = some g := hget
    rw [Table.get?_insert] at hget
    split at hget
    · rename_i he
      exact he ▸ h.proper hg
    · exact h.proper hget

/-! ## Connecting -/

theorem findProxy_setNative (s : State) (p native host : Address) :
    (s.withHeap (s.heap.setNative p native)).findProxy host = s.findProxy host := by
  refine findProxy_congr rfl fun g _ => Grip.target?_congr ?_ (Heap.isAlive_modify p _)
  cases p <;> rfl

/-- A proxy is told again what it stands for. -/
theorem setNative_self {p native : Address} (h : s.Paired o)
    (hn : s.heap.nativeOf p = some native) :
    (s.withHeap (s.heap.setNative p native)).Paired o := by
  refine h.of_same (findProxy_setNative s p native) (fun q host _ => ?_)
    (by cases p <;> exact Nat.le_refl _) h.proper (h.anchored.setNative p native)
  show (s.heap.setNative p native).nativeOf q = some host ↔ _
  rw [Heap.nativeOf_setNative]
  split
  · rename_i he
    rw [← he, hn]
    rfl
  · rfl

/-- A new proxy is told its host object. -/
theorem connect {host p : Address} (h : s.Paired (.making host p .raw :: o))
    (hf : s.findProxy host = some p) (hn : s.heap.nativeOf p = some .null) :
    (s.withHeap (s.heap.setNative p host)).Paired (.making host p .told :: o) := by
  have hnative (q : Address) : (s.withHeap (s.heap.setNative p host)).heap.nativeOf q =
      if p = q then some host else s.heap.nativeOf q := by
    refine (Heap.nativeOf_setNative s.heap p host q).trans ?_
    split
    · rename_i he
      rw [← he, hn]
      rfl
    · rfl
  refine {
    forward := ?forward
    backward := ?backward
    unique := ?unique
    apart := ?apart
    told := ?told
    proper := h.proper
    given := h.anchored.setNative p host _ _ _ _ }
  case forward =>
    intro host' q hf'
    rw [findProxy_setNative] at hf'
    rw [hnative]
    split
    · rename_i he
      subst he
      exact .inl (by rw [h.unique hf hf'])
    · refine (h.forward hf').imp_right fun hm => ?_
      rcases List.mem_cons.1 hm with heq | hm
      · cases heq
        exact absurd rfl ‹_›
      · exact List.mem_cons_of_mem _ hm
  case backward =>
    intro q host' hn' hne
    rw [hnative] at hn'
    rw [findProxy_setNative]
    split at hn'
    · rename_i he
      subst he
      cases hn'
      exact .inl hf
    · refine (h.backward hn' hne).imp_right fun ⟨g, hg⟩ => ⟨g, ?_⟩
      exact List.mem_cons_of_mem _ ((List.mem_cons.1 hg).resolve_left (by rintro ⟨⟩))
  case unique =>
    intro host₁ host₂ q hf₁ hf₂
    rw [findProxy_setNative] at hf₁ hf₂
    exact h.unique hf₁ hf₂
  case apart =>
    intro g q hg
    have hg := (List.mem_cons.1 hg).resolve_left (by rintro ⟨⟩)
    obtain ⟨hgiven, hapart⟩ := h.apart (List.mem_cons_of_mem _ hg)
    refine ⟨by cases p <;> exact hgiven, fun host' hf' => ?_⟩
    rw [findProxy_setNative] at hf'
    exact hapart host' hf'
  case told =>
    intro host' q hm
    rw [findProxy_setNative, hnative]
    rcases List.mem_cons.1 hm with heq | hm
    · cases heq
      exact ⟨hf, if_pos rfl⟩
    · obtain ⟨hf', hn'⟩ := h.told (List.mem_cons_of_mem _ hm)
      refine ⟨hf', ?_⟩
      -- Another proxy that was told its object is not this one, which stood for nothing.
      rw [if_neg, hn']
      rintro rfl
      rw [hn] at hn'
      cases hn'
      exact h.ne_null hf' rfl

/-- A proxy forgets its host object, the entry of which is gone. -/
theorem disconnect {g : Grip} {p : Address} (h : s.Paired (.severing g (some p) false :: o)) :
    (s.withHeap (s.heap.setNative p .null)).Paired o := by
  obtain ⟨-, hapart⟩ := h.apart (List.mem_cons_self (l := o))
  have hnative {q : Address} (hne : p ≠ q) :
      (s.withHeap (s.heap.setNative p .null)).heap.nativeOf q = s.heap.nativeOf q := by
    refine (Heap.nativeOf_setNative s.heap p .null q).trans ?_
    rw [if_neg hne]
  refine {
    forward := ?forward
    backward := ?backward
    unique := ?unique
    apart := ?apart
    told := ?told
    proper := h.proper
    given := h.anchored.setNative p .null _ _ _ _ }
  case forward =>
    intro host q hf
    rw [findProxy_setNative] at hf
    have hne : p ≠ q := by
      rintro rfl
      exact hapart host hf
    rw [hnative hne]
    exact (h.forward hf).imp_right fun hm => (List.mem_cons.1 hm).resolve_left (by rintro ⟨⟩)
  case backward =>
    intro q host hn hnull
    rw [findProxy_setNative]
    by_cases he : p = q
    · subst he
      have hn : (s.heap.setNative p .null).nativeOf p = some host := hn
      rw [Heap.nativeOf_setNative, if_pos rfl, Option.map_eq_some_iff] at hn
      obtain ⟨-, -, rfl⟩ := hn
      exact absurd rfl hnull
    · rw [hnative he] at hn
      refine (h.backward hn hnull).imp_right fun ⟨g', hg'⟩ => ⟨g', ?_⟩
      rcases List.mem_cons.1 hg' with heq | hg'
      · cases heq
        exact absurd rfl he
      · exact hg'
  case unique =>
    intro host₁ host₂ q hf₁ hf₂
    rw [findProxy_setNative] at hf₁ hf₂
    exact h.unique hf₁ hf₂
  case apart =>
    intro g' q hg'
    obtain ⟨hgiven, hapart'⟩ := h.apart (List.mem_cons_of_mem _ hg')
    refine ⟨by cases p <;> exact hgiven, fun host hf => ?_⟩
    rw [findProxy_setNative] at hf
    exact hapart' host hf
  case told =>
    intro host q hm
    obtain ⟨hf, hn⟩ := h.told (List.mem_cons_of_mem _ hm)
    rw [findProxy_setNative]
    refine ⟨hf, (hnative ?_).trans hn⟩
    rintro rfl
    exact hapart host hf

end Paired

end State

end TwinHeap
