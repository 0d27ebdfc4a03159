import TwinHeap.Proofs.Firm

/-!
# Anchors — what instances stand for, and what entries lead to

An instance on the foreign heap stands for a host object, and an entry of the identity table leads from
a host object to an instance. An entry never leads to an address that is still to be given
(`State.Anchored`), so an object that has no proxy does not come by one unless the bridge makes it, and
each change of the bridge leaves the proxies of other objects alone.
-/

namespace TwinHeap

/-! ## Instances -/

/-- The host address that an object of the foreign heap stands for, if it is an instance. -/
def Managed.native? : Managed → Option Address
  | .object _ native => some native
  | _ => none

namespace Heap

variable {h h' : Heap}

theorem nativeOf_eq (h : Heap) (a : Address) : h.nativeOf a = (h.get? a).bind Managed.native? := by
  unfold nativeOf
  cases h.get? a with
  | none => rfl
  | some m => cases m <;> rfl

theorem nativeOf_congr (ho : h'.objects = h.objects) (a : Address) :
    h'.nativeOf a = h.nativeOf a := by
  rw [nativeOf_eq, nativeOf_eq]
  cases a with
  | foreign i =>
    show (h'.objects.get? i).bind _ = (h.objects.get? i).bind _
    rw [ho]
  | _ => rfl

/-- The objects of a heap are all that it takes to be alive. -/
theorem isAlive_congr (ho : h'.objects = h.objects) (a : Address) : h'.isAlive a = h.isAlive a := by
  cases a with
  | foreign i =>
    show (h'.objects.get? i).isSome = (h.objects.get? i).isSome
    rw [ho]
  | _ => rfl

theorem isAlive_of_nativeOf {a native : Address} (ha : h.nativeOf a = some native) :
    h.isAlive a = true := by
  rw [nativeOf_eq, Option.bind_eq_some_iff] at ha
  obtain ⟨m, hm, -⟩ := ha
  exact Option.isSome_iff_exists.2 ⟨m, hm⟩

theorem nativeOf_allocate (h : Heap) (m : Managed) (a : Address) :
    (h.allocate m).2.nativeOf a =
      if a = .foreign h.nextObject then m.native? else h.nativeOf a := by
  rw [nativeOf_eq, nativeOf_eq]
  cases a with
  | foreign i =>
    show ((h.objects.insert h.nextObject m).get? i).bind _ = _
    rw [Table.get?_insert]
    by_cases hi : h.nextObject = i
    · subst hi
      rw [if_pos rfl, if_pos rfl]
      rfl
    · rw [if_neg hi, if_neg fun he => hi (Address.foreign.inj he).symm]
      rfl
  | _ => rw [if_neg (by rintro ⟨⟩)]; rfl

/-- A change that leaves alone what instances stand for. -/
theorem nativeOf_modify (h : Heap) (a : Address) {f : Managed → Managed}
    (hf : ∀ m, (f m).native? = m.native?) (b : Address) : (h.modify a f).nativeOf b = h.nativeOf b := by
  rw [nativeOf_eq, nativeOf_eq]
  cases a with
  | foreign i =>
    cases b with
    | foreign j =>
      show ((h.objects.modify i f).get? j).bind _ = (h.objects.get? j).bind _
      rw [Table.get?_modify]
      split
      · cases h.objects.get? j with
        | none => rfl
        | some m => exact hf m
      · rfl
    | _ => rfl
  | _ => rfl

theorem nativeOf_setNative (h : Heap) (a native b : Address) :
    (h.setNative a native).nativeOf b =
      if a = b then (h.nativeOf b).map fun _ => native else h.nativeOf b := by
  unfold setNative
  rw [nativeOf_eq, nativeOf_eq]
  cases a with
  | foreign i =>
    cases b with
    | foreign j =>
      show ((h.objects.modify i _).get? j).bind _ = _
      rw [Table.get?_modify]
      by_cases hij : i = j
      · subst hij
        rw [if_pos rfl, if_pos rfl]
        show _ = ((h.objects.get? i).bind _).map _
        cases h.objects.get? i with
        | none => rfl
        | some m => cases m <;> rfl
      · rw [if_neg hij, if_neg fun he => hij (Address.foreign.inj he)]
        rfl
    | _ => rfl
  | _ =>
    split
    · rename_i he
      subst he
      rfl
    · rfl

theorem nativeOf_collect (h : Heap) (full : Bool) (a : Address) :
    (h.collect full).nativeOf a = if h.roots.contains a then h.nativeOf a else none := by
  unfold nativeOf
  rw [get?_collect]
  cases h.roots.contains a <;> rfl

theorem objects_make (h : Heap) (target : Address) (st : Strength) :
    (Grip.make h target st).2.objects = h.objects ∧
      (Grip.make h target st).2.nextObject = h.nextObject := by
  cases st <;> exact ⟨rfl, rfl⟩

theorem objects_release (g : Grip) (h : Heap) :
    (g.release h).2.objects = h.objects ∧ (g.release h).2.nextObject = h.nextObject := by
  obtain ⟨_ | k, st⟩ := g <;> exact ⟨rfl, rfl⟩

theorem objects_setStrength (g : Grip) (h : Heap) (st : Strength) :
    (g.setStrength h st).2.objects = h.objects ∧
      (g.setStrength h st).2.nextObject = h.nextObject := by
  obtain he | ⟨he, -⟩ | ⟨target, -, he⟩ := setStrength_cases g h st
  · rw [he]
    exact ⟨rfl, rfl⟩
  · rw [he]
    exact objects_release g h
  · rw [he, (objects_make _ _ _).1, (objects_make _ _ _).2]
    exact objects_release g h

theorem objects_releaseAll (rs : List Grip) (h : Heap) :
    (rs.foldl (fun h (g : Grip) => (g.release h).2) h).objects = h.objects ∧
      (rs.foldl (fun h (g : Grip) => (g.release h).2) h).nextObject = h.nextObject := by
  induction rs generalizing h with
  | nil => exact ⟨rfl, rfl⟩
  | cons r rs ih =>
    rw [List.foldl_cons, (ih _).1, (ih _).2]
    exact objects_release r h

/-- An address that was given to an object, alive or not. -/
def Given (h : Heap) (a : Address) : Prop := ∃ i, a = .foreign i ∧ i < h.nextObject

theorem Given.mono {a : Address} (ha : h.Given a) (hx : h.nextObject ≤ h'.nextObject) :
    h'.Given a := by
  obtain ⟨i, rfl, hi⟩ := ha
  exact ⟨i, rfl, Nat.lt_of_lt_of_le hi hx⟩

theorem Numbered.given (hn : h.Numbered) {a : Address} (ha : h.isAlive a = true) : h.Given a := by
  cases a with
  | foreign i =>
    obtain ⟨m, hm⟩ := Option.isSome_iff_exists.1 ha
    exact ⟨i, rfl, hn.below i (Table.mem_keys_of_get? hm)⟩
  | _ => cases ha

/-- What is alive is not where the next object comes. -/
theorem Numbered.ne_next (hn : h.Numbered) {a : Address} (ha : h.isAlive a = true) :
    a ≠ .foreign h.nextObject := by
  obtain ⟨i, rfl, hi⟩ := hn.given ha
  exact fun he => Nat.ne_of_lt hi (Address.foreign.inj he)

theorem isAlive_allocate_of_given (m : Managed) {a : Address} (ha : h.Given a) :
    (h.allocate m).2.isAlive a = h.isAlive a := by
  obtain ⟨i, rfl, hi⟩ := ha
  show ((h.objects.insert h.nextObject m).get? i).isSome = (h.objects.get? i).isSome
  rw [Table.get?_insert, if_neg (Nat.ne_of_gt hi)]

end Heap

/-! ## Entries -/

namespace State

theorem findProxy_congr {s s' : State} {host : Address}
    (he : s'.bridge.entries.get? host = s.bridge.entries.get? host)
    (hg : ∀ g, s.bridge.entries.get? host = some g → g.target? s'.heap = g.target? s.heap) :
    s'.findProxy host = s.findProxy host := by
  unfold findProxy
  rw [he]
  cases h : s.bridge.entries.get? host with
  | none => rfl
  | some g => exact hg g h

theorem findProxy_eq_some {s : State} {host p : Address} :
    s.findProxy host = some p ↔
      ∃ g, s.bridge.entries.get? host = some g ∧ g.target? s.heap = some p :=
  Option.bind_eq_some_iff

/-- A proxy that is found is alive. -/
theorem isAlive_of_findProxy {s : State} {host p : Address} (h : s.findProxy host = some p) :
    s.heap.isAlive p = true := by
  obtain ⟨g, -, hg⟩ := findProxy_eq_some.1 h
  exact Grip.isAlive_of_target? hg

/-- A new proxy stands for nothing. -/
theorem nativeOf_addProxy {s : State} {type : Nat} (h : s.foreign.isType type = true)
    (host p : Address) : (s.addProxy host type).heap.nativeOf p =
      if p = .foreign s.heap.nextObject then some .null else s.heap.nativeOf p := by
  rw [addProxy_of_isType h]
  exact (Heap.nativeOf_congr rfl p).trans (Heap.nativeOf_allocate s.heap _ p)

end State

/-! ## Entries lead to objects -/

namespace State

/-- What the handle of an entry leads to was given to an object. -/
def Anchored (s : State) : Prop :=
  ∀ (host : Address) (g : Grip) (c : GcHandle) (p : Address),
    s.bridge.entries.get? host = some g → g.gcHandle? s.heap = some c → c.target = some p →
    s.heap.Given p

variable {s s' : State} {gs : List Grip}

/-- No handle of an entry leads to where none of this object's led before. -/
theorem Anchored.of_kept (h : s.Anchored) (hx : s.heap.nextObject ≤ s'.heap.nextObject)
    (he : ∀ {host : Address} {g : Grip} {c : GcHandle} {p : Address},
      s'.bridge.entries.get? host = some g → g.gcHandle? s'.heap = some c → c.target = some p →
      ∃ g' c', s.bridge.entries.get? host = some g' ∧ g'.gcHandle? s.heap = some c' ∧
        c'.target = some p) : s'.Anchored := by
  intro host g c p hg hc hp
  obtain ⟨g', c', hg', hc', hp'⟩ := he hg hc hp
  obtain ⟨i, rfl, hi⟩ := h _ _ _ _ hg' hc' hp'
  exact ⟨i, rfl, Nat.lt_of_lt_of_le hi hx⟩

/-- The entries that are left keep their handles. -/
theorem Anchored.of_handles (h : s.Anchored) (hx : s.heap.nextObject ≤ s'.heap.nextObject)
    (he : ∀ {host : Address} {g : Grip}, s'.bridge.entries.get? host = some g →
      s.bridge.entries.get? host = some g ∧ g.gcHandle? s'.heap = g.gcHandle? s.heap) :
    s'.Anchored :=
  h.of_kept hx fun hg hc hp => ⟨_, _, (he hg).1, (he hg).2.symm.trans hc, hp⟩

/-- A change that leaves entries and handles alone. -/
theorem Anchored.of_same (h : s.Anchored) (he : s'.bridge.entries = s.bridge.entries)
    (hh : s'.heap.handles = s.heap.handles) (hx : s.heap.nextObject ≤ s'.heap.nextObject) :
    s'.Anchored := by
  refine h.of_handles hx fun hg => ⟨he ▸ hg, ?_⟩
  unfold Grip.gcHandle?
  rw [hh]

/-- What an instance stands for is nothing to the entries. -/
theorem Anchored.setNative (h : s.Anchored) (p native : Address) :
    (s.withHeap (s.heap.setNative p native)).Anchored :=
  h.of_same rfl (by cases p <;> rfl) (Nat.le_of_eq (by cases p <;> rfl))

/-- No entry leads to a new object. -/
theorem Anchored.findProxy_allocate (h : s.Anchored) (m : Managed) (host : Address) :
    (s.withHeap (s.heap.allocate m).2).findProxy host = s.findProxy host := by
  refine findProxy_congr rfl fun g hget => ?_
  rw [Grip.target?_eq, Grip.target?_eq]
  show ((g.gcHandle? s.heap).bind GcHandle.target).filter (s.heap.allocate m).2.isAlive = _
  cases hc : g.gcHandle? s.heap with
  | none => rfl
  | some c =>
    show c.target.filter _ = c.target.filter _
    cases ht : c.target with
    | none => rfl
    | some p =>
      have halive := Heap.isAlive_allocate_of_given m (h host g c p hget hc ht)
      simp only [Option.filter, halive]

namespace Balanced

variable {old : Grip}

theorem anchored_releaseGrip (hb : s.Balanced (old :: gs)) (h : s.Anchored) :
    (s.releaseGrip old).Anchored := by
  have ha : s.heap.Accounts (old :: (s.holding ++ gs)) := hb.accounts.congr List.perm_middle
  exact h.of_handles (Nat.le_of_eq (Heap.objects_release old s.heap).2.symm)
    fun hg => ⟨hg, Heap.gcHandle?_release ha (mem_entries hg)⟩

theorem anchored_makeGrip (hb : s.Balanced gs) (h : s.Anchored) (target : Address) (st : Strength) :
    (s.withHeap (Grip.make s.heap target st).2).Anchored :=
  h.of_handles (Nat.le_of_eq (Heap.objects_make s.heap target st).2.symm)
    fun hg => ⟨hg, Heap.gcHandle?_make hb.accounts (mem_entries hg) target st⟩

theorem anchored_setStrength (hb : s.Balanced (old :: gs)) (h : s.Anchored) (st : Strength) :
    (s.withHeap (old.setStrength s.heap st).2).Anchored := by
  have ha : s.heap.Accounts (old :: (s.holding ++ gs)) := hb.accounts.congr List.perm_middle
  exact h.of_handles (Nat.le_of_eq (Heap.objects_setStrength old s.heap st).2.symm)
    fun hg => ⟨hg, Heap.gcHandle?_setStrength ha (mem_entries hg) st⟩

theorem anchored_eraseEntry (h : s.Anchored) (host : Address) : (s.eraseEntry host).Anchored := by
  refine h.of_handles (Nat.le_refl _) fun {other g} hg => ⟨?_, rfl⟩
  have hg : (s.bridge.entries.erase host).get? other = some g := hg
  rw [Table.get?_erase] at hg
  split at hg
  · cases hg
  · exact hg

theorem anchored_dropEntry (hb : s.Balanced gs) (h : s.Anchored) (host : Address) :
    (s.dropEntry host).Anchored := by
  unfold State.dropEntry
  split
  · exact h
  · rename_i g hg
    exact (hb.eraseEntry hg).anchored_releaseGrip (anchored_eraseEntry h host)

/-- A new proxy is an object. -/
theorem anchored_addProxy (hb : s.Balanced gs) (h : s.Anchored) (host : Address) {type : Nat}
    (ht : s.foreign.isType type = true) : (s.addProxy host type).Anchored := by
  rw [State.addProxy_of_isType ht]
  let u := s.withHeap (s.heap.allocate (.object type .null)).2
  have hu : u.Anchored := h.of_same rfl rfl (Nat.le_succ _)
  have hub : u.Balanced gs := hb.allocate _
  show (u.addEntry host (.foreign s.heap.nextObject)).Anchored
  intro other g c p hg hc hp
  have hg : (u.bridge.entries.insert host _).get? other = some g := hg
  rw [Table.get?_insert] at hg
  split at hg
  · cases hg
    have hc : (u.heap.handles.insert u.heap.nextHandle _).get? u.heap.nextHandle = some c := hc
    rw [Table.get?_insert, if_pos rfl] at hc
    cases hc
    cases hp
    exact ⟨_, rfl, Nat.lt_succ_self _⟩
  · have hmade := hub.anchored_makeGrip hu (.foreign s.heap.nextObject) .strong
    exact hmade _ _ _ _ hg hc hp

theorem anchored_collect (h : s.Anchored) (full : Bool) :
    (s.withHeap (s.heap.collect full)).Anchored := by
  refine h.of_kept (Nat.le_refl _) fun {host g c p} hg hc hp => ?_
  obtain ⟨_ | k, st⟩ := g
  · cases hc
  have hc : (s.heap.collect full).handles.get? k = some c := hc
  rw [Heap.handles_collect, Table.get?_mapValues, Option.map_eq_some_iff] at hc
  obtain ⟨c', hc', rfl⟩ := hc
  exact ⟨_, c', hg, hc', Heap.target_of_settled hp⟩

/-- An entry that is made tighter or looser leads where it led, or nowhere. -/
theorem anchored_tighten (hb : s.Balanced gs) (h : s.Anchored) {host : Address}
    (hold : s.bridge.entries.get? host = some old) (st : Strength) :
    (s.tighten host old st).Anchored := by
  have hset := (hb.eraseEntry hold).anchored_setStrength (anchored_eraseEntry h host) st
  have hx := Nat.le_of_eq (Heap.objects_setStrength old s.heap st).2.symm
  intro other g c p hg hc hp
  change (s.bridge.entries.insert host (old.setStrength s.heap st).1).get? other = some g at hg
  change g.gcHandle? (old.setStrength s.heap st).2 = some c at hc
  rw [Table.get?_insert] at hg
  split at hg
  · cases hg
    show (old.setStrength s.heap st).2.Given p
    obtain he | ⟨he, -⟩ | ⟨target, htarget, he⟩ := Heap.setStrength_cases old s.heap st
    · rw [he] at hc ⊢
      exact h _ _ _ _ hold hc hp
    · rw [he] at hc
      cases hc
    · -- The new handle leads to what the old one led to, which is alive.
      have halive : s.heap.isAlive target = true := by
        rw [Grip.target?_eq] at htarget
        exact (Option.filter_eq_some_iff.1 htarget).2
      rw [he] at hc
      by_cases hst : st = .released
      · rw [hst] at hc
        cases hc
      rw [Heap.make_eq _ target hst] at hc
      have hc : (((old.release s.heap).2).handles.insert (old.release s.heap).2.nextHandle _).get?
        (old.release s.heap).2.nextHandle = some c := hc
      rw [Table.get?_insert, if_pos rfl] at hc
      cases hc
      cases hp
      obtain ⟨i, rfl, hi⟩ := hb.numbered.given halive
      exact ⟨i, rfl, Nat.lt_of_lt_of_le hi hx⟩
  -- The other entries are those of the table that this one was taken from.
  · refine hset other g c p ?_ hc hp
    show (s.bridge.entries.erase host).get? other = some g
    rw [Table.get?_erase, if_neg ‹_›, hg]

theorem anchored_root (hb : s.Balanced gs) (h : s.Anchored) (a : Address) : (s.root a).Anchored := by
  unfold State.root
  split
  · exact h
  · exact (hb.anchored_makeGrip h a .strong).of_same rfl rfl (Nat.le_refl _)

theorem anchored_leave (hb : s.Balanced gs) (h : s.Anchored) (key : Redirector.Key) :
    (s.leave key).Anchored := by
  unfold State.leave
  dsimp only
  split
  · exact h.of_same rfl rfl (Nat.le_refl _)
  · rename_i f fs hf
    refine h.of_handles (Nat.le_of_eq (Heap.objects_releaseAll f.roots s.heap).2.symm)
      fun hg => ⟨hg, Heap.gcHandle?_releaseAll (hb.accounts_leave hf) ?_⟩
    exact List.mem_append_left gs (List.mem_append_left _ (Table.mem_values_of_get? hg))

end Balanced

end State

/-! ## The proxies of others -/

namespace State.Balanced

variable {s : State} {gs : List Grip} {old : Grip} {host a : Address}

theorem findProxy_releaseGrip (hb : s.Balanced (old :: gs)) (a : Address) :
    (s.releaseGrip old).findProxy a = s.findProxy a := by
  have ha : s.heap.Accounts (old :: (s.holding ++ gs)) := hb.accounts.congr List.perm_middle
  exact findProxy_congr rfl fun _ hg => Heap.target?_release ha (mem_entries hg)

theorem findProxy_makeGrip (hb : s.Balanced gs) (target : Address) (st : Strength) (a : Address) :
    (s.withHeap (Grip.make s.heap target st).2).findProxy a = s.findProxy a :=
  findProxy_congr rfl fun _ hg => Heap.target?_make hb.accounts (mem_entries hg) target st

theorem findProxy_setStrength (hb : s.Balanced (old :: gs)) (st : Strength) (a : Address) :
    (s.withHeap (old.setStrength s.heap st).2).findProxy a = s.findProxy a := by
  have ha : s.heap.Accounts (old :: (s.holding ++ gs)) := hb.accounts.congr List.perm_middle
  exact findProxy_congr rfl fun _ hg => Heap.target?_setStrength ha (mem_entries hg) st

/-- The entry that is dropped led nowhere. -/
theorem findProxy_dropEntry (hb : s.Balanced gs) (hn : s.findProxy host = none) (a : Address) :
    (s.dropEntry host).findProxy a = s.findProxy a := by
  unfold State.dropEntry
  split
  · rfl
  · rename_i g hg
    refine ((hb.eraseEntry hg).findProxy_releaseGrip a).trans ?_
    by_cases ha : host = a
    · rw [← ha, hn]
      unfold findProxy State.eraseEntry
      rw [Table.get?_erase, if_pos rfl]
      rfl
    · refine findProxy_congr ?_ fun _ _ => rfl
      show (s.bridge.entries.erase host).get? a = _
      rw [Table.get?_erase, if_neg ha]

/-- Another object gets a proxy. -/
theorem findProxy_addProxy_of_ne (hb : s.Balanced gs) (h : s.Anchored) {type : Nat}
    (ht : s.foreign.isType type = true) (hne : host ≠ a) :
    (s.addProxy host type).findProxy a = s.findProxy a := by
  rw [State.addProxy_of_isType ht]
  have hmade := (hb.allocate (.object type .null)).findProxy_makeGrip
    (.foreign s.heap.nextObject) .strong a
  rw [h.findProxy_allocate] at hmade
  rw [← hmade]
  refine findProxy_congr ?_ fun _ _ => rfl
  show (s.bridge.entries.insert host _).get? a = _
  rw [Table.get?_insert, if_neg hne]
  rfl

/-- The entries of others keep their handles when one is made tighter or looser. -/
theorem gcHandle?_tighten (hb : s.Balanced gs) (hold : s.bridge.entries.get? host = some old)
    (st : Strength) (hne : host ≠ a) {g : Grip} (hg : s.bridge.entries.get? a = some g) :
    g.gcHandle? (s.tighten host old st).heap = g.gcHandle? s.heap := by
  have ha : s.heap.Accounts (old :: ((s.eraseEntry host).holding ++ gs)) :=
    (hb.eraseEntry hold).accounts.congr List.perm_middle
  have hleft : (s.eraseEntry host).bridge.entries.get? a = some g := by
    show (s.bridge.entries.erase host).get? a = some g
    rw [Table.get?_erase, if_neg hne, hg]
  exact Heap.gcHandle?_setStrength ha (mem_entries hleft) st

/-- An entry that is made tighter or looser leads where it led, and so do the others. -/
theorem findProxy_tighten (hb : s.Balanced gs) (hold : s.bridge.entries.get? host = some old)
    {st : Strength} (hst : st ≠ .released) (a : Address) :
    (s.tighten host old st).findProxy a = s.findProxy a := by
  by_cases hne : host = a
  · subst hne
    unfold findProxy State.tighten
    rw [Table.get?_insert, if_pos rfl, hold]
    exact Heap.target?_setStrength_self old s.heap hst
  · have hget : (s.tighten host old st).bridge.entries.get? a = s.bridge.entries.get? a := by
      show (s.bridge.entries.insert host _).get? a = _
      rw [Table.get?_insert, if_neg hne]
    exact findProxy_congr hget fun g hg => Grip.target?_congr (hb.gcHandle?_tighten hold st hne hg)
      (Heap.isAlive_setStrength old s.heap st)

end State.Balanced

end TwinHeap
