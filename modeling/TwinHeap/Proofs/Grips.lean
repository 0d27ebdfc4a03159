import TwinHeap.Heap
import TwinHeap.Proofs.Tables

/-!
# Grips — every handle belongs to exactly one hold

`Heap.Accounts` balances the handles of the foreign heap against a list of holds: each handle is that
of exactly one of them, and is as weak as the hold says. Taking, changing and releasing a hold keep
the balance, and do not touch what the other holds hold; a collection keeps it too.
-/

namespace TwinHeap

namespace Grip

/-- A hold that was not released has a handle of its strength, which keeps its target if it is
strong; a released one has none. -/
def Held (g : Grip) (h : Heap) : Prop :=
  match g.handle with
  | some k =>
    g.strength ≠ .released ∧ ∃ t, h.handles.get? k = some ⟨t, g.strength == .weak⟩ ∧
      (g.strength = .strong → t ≠ none)
  | none => g.strength = .released

end Grip

/-- The handles of a heap are those of the holds in `gs`, one each. -/
structure Heap.Accounts (h : Heap) (gs : List Grip) : Prop where
  perm : h.handles.keys.Perm (gs.filterMap Grip.handle)
  nodup : h.handles.keys.Nodup
  below : ∀ k ∈ h.handles.keys, k < h.nextHandle
  held : ∀ g ∈ gs, g.Held h

namespace Heap

variable {h : Heap} {gs gs' : List Grip} {g : Grip}

namespace Accounts

theorem congr (ha : h.Accounts gs) (hp : gs.Perm gs') : h.Accounts gs' where
  perm := ha.perm.trans (hp.filterMap _)
  nodup := ha.nodup
  below := ha.below
  held g hg := ha.held g (hp.mem_iff.2 hg)

/-- A heap with the same handles has the same accounts. -/
theorem of_handles {h' : Heap} (ha : h.Accounts gs) (hh : h'.handles = h.handles)
    (hn : h'.nextHandle = h.nextHandle) : h'.Accounts gs where
  perm := hh ▸ ha.perm
  nodup := hh ▸ ha.nodup
  below := hh ▸ hn ▸ ha.below
  held g hg := by
    have hheld := ha.held g hg
    unfold Grip.Held at hheld ⊢
    rwa [hh]

theorem handle_lt {k : Nat} (ha : h.Accounts gs) (hg : g ∈ gs) (hk : g.handle = some k) :
    k < h.nextHandle :=
  ha.below k (ha.perm.mem_iff.2 (List.mem_filterMap.2 ⟨g, hg, hk⟩))

/-- Two holds never share a handle. -/
theorem handle_ne {k : Nat} (ha : h.Accounts (g :: gs)) {g' : Grip} (hg' : g' ∈ gs)
    (hk : g.handle = some k) : g'.handle ≠ some k := by
  intro hk'
  have hnodup := ha.perm.nodup_iff.1 ha.nodup
  rw [List.filterMap_cons_some hk, List.nodup_cons] at hnodup
  exact hnodup.1 (List.mem_filterMap.2 ⟨g', hg', hk'⟩)

end Accounts

/-! ## Taking a hold -/

theorem next_notMem_handles (ha : h.Accounts gs) : h.nextHandle ∉ h.handles.keys :=
  fun hk => Nat.lt_irrefl _ (ha.below _ hk)

/-- A new hold has a new handle. -/
theorem make_eq (h : Heap) (target : Address) {st : Strength} (hst : st ≠ .released) :
    Grip.make h target st = (⟨some h.nextHandle, st⟩,
      { h with
        handles := h.handles.insert h.nextHandle ⟨some target, st == .weak⟩
        nextHandle := h.nextHandle + 1 }) := by
  cases st with
  | released => exact absurd rfl hst
  | strong => rfl
  | weak => rfl

theorem Accounts.make (ha : h.Accounts gs) (target : Address) (st : Strength) :
    (Grip.make h target st).2.Accounts ((Grip.make h target st).1 :: gs) := by
  by_cases hst : st = .released
  · subst hst
    refine ⟨ha.perm, ha.nodup, ha.below, ?_⟩
    intro g hg
    rcases List.mem_cons.1 hg with rfl | hg
    · rfl
    · exact ha.held g hg
  · rw [make_eq h target hst]
    -- The new handle is none of those in use.
    have hkeys : (h.handles.insert h.nextHandle ⟨some target, st == .weak⟩).keys =
        h.handles.keys ++ [h.nextHandle] := by
      rw [Table.keys_insert, if_neg (next_notMem_handles ha)]
    refine ⟨?_, Table.nodup_keys_insert ha.nodup _ _, ?_, ?_⟩
    · show (h.handles.insert _ _).keys.Perm (h.nextHandle :: gs.filterMap Grip.handle)
      rw [hkeys]
      exact (List.perm_append_singleton _ _).trans (ha.perm.cons _)
    · show ∀ k ∈ (h.handles.insert _ _).keys, k < h.nextHandle + 1
      intro k hk
      rw [hkeys, List.mem_append, List.mem_singleton] at hk
      rcases hk with hk | rfl
      · exact Nat.lt_succ_of_lt (ha.below k hk)
      · exact Nat.lt_succ_self _
    · intro g hg
      rcases List.mem_cons.1 hg with rfl | hg
      · exact ⟨hst, some target, by simp, nofun⟩
      · have hheld := ha.held g hg
        obtain ⟨_ | k, st'⟩ := g
        · exact hheld
        · have hne : h.nextHandle ≠ k := Nat.ne_of_gt (ha.handle_lt hg rfl)
          obtain ⟨hst', t, ht, hsome⟩ := hheld
          refine ⟨hst', t, ?_, hsome⟩
          show (h.handles.insert _ _).get? k = _
          rw [Table.get?_insert, if_neg hne, ht]

/-! ## Releasing a hold -/

theorem handles_release (g : Grip) (h : Heap) :
    (g.release h).2.handles = g.handle.elim h.handles h.handles.erase := by
  obtain ⟨_ | k, st⟩ := g <;> rfl

theorem Accounts.release (ha : h.Accounts (g :: gs)) : (g.release h).2.Accounts gs := by
  obtain ⟨_ | k, st⟩ := g
  · exact ⟨ha.perm, ha.nodup, ha.below, fun g hg => ha.held g (List.mem_cons_of_mem _ hg)⟩
  · refine ⟨?_, Table.nodup_keys_erase ha.nodup k, ?_, ?_⟩
    · show (h.handles.erase k).keys.Perm _
      rw [Table.keys_erase]
      -- No other grip has this handle.
      have hnot : k ∉ gs.filterMap Grip.handle := by
        have hnodup := ha.perm.nodup_iff.1 ha.nodup
        exact (List.nodup_cons.1 hnodup).1
      have hself : (gs.filterMap Grip.handle).filter (fun a => a ≠ k) =
          gs.filterMap Grip.handle := by
        rw [List.filter_eq_self]
        intro a hak
        exact decide_eq_true (by rintro rfl; exact hnot hak)
      have hperm := ha.perm.filter fun a => decide (a ≠ k)
      have hcons : (⟨some k, st⟩ :: gs : List Grip).filterMap Grip.handle =
          k :: gs.filterMap Grip.handle := rfl
      rw [hcons, List.filter_cons_of_neg (by simp), hself] at hperm
      exact hperm
    · intro a hak
      have hmem : a ∈ (h.handles.erase k).keys := hak
      rw [Table.keys_erase] at hmem
      exact ha.below a (List.mem_filter.1 hmem).1
    · intro g hg
      have hne := ha.handle_ne hg (k := k) rfl
      have hheld := ha.held g (List.mem_cons_of_mem _ hg)
      obtain ⟨_ | k', st'⟩ := g
      · exact hheld
      · have hkk : k ≠ k' := by
          rintro rfl
          exact hne rfl
        obtain ⟨hst, t, ht, hsome⟩ := hheld
        refine ⟨hst, t, ?_, hsome⟩
        show (h.handles.erase k).get? k' = _
        rw [Table.get?_erase, if_neg hkk, ht]

/-- Holds are released one after the other. -/
theorem Accounts.releaseAll {rs : List Grip} (ha : h.Accounts (rs ++ gs)) :
    (rs.foldl (fun h (g : Grip) => (g.release h).2) h).Accounts gs := by
  induction rs generalizing h with
  | nil => exact ha
  | cons r rs ih => exact ih ha.release

/-! ## Changing a hold -/

/-- A hold is changed in nothing, is released, or is taken anew on the target it had. -/
theorem setStrength_cases (g : Grip) (h : Heap) (st : Strength) :
    (g.setStrength h st = (g, h)) ∨
      (g.setStrength h st = g.release h ∧ (st = .released ∨ g.target? h = none)) ∨
      ∃ target, g.target? h = some target ∧
        g.setStrength h st = Grip.make (g.release h).2 target st := by
  unfold Grip.setStrength
  split
  · exact .inl rfl
  · split
    · rename_i hst
      exact .inr (.inl ⟨rfl, .inl hst⟩)
    · dsimp only
      split
      · rename_i target ht
        exact .inr (.inr ⟨target, ht, rfl⟩)
      · rename_i ht
        exact .inr (.inl ⟨rfl, .inr ht⟩)

/-- A hold that was released stays so. -/
theorem setStrength_of_released {g : Grip} (hg : g.strength = .released) (h : Heap) (st : Strength) :
    g.setStrength h st = (g, h) := by
  unfold Grip.setStrength
  rw [hg]
  simp

/-- A hold becomes as tight as asked for, or is released. -/
theorem strength_setStrength (g : Grip) (h : Heap) (st : Strength) :
    (g.setStrength h st).1.strength = st ∨ (g.setStrength h st).1.strength = .released := by
  unfold Grip.setStrength
  split
  · rename_i hsame
    obtain hst | hreleased := Bool.or_eq_true_iff.1 hsame
    · exact .inl (of_decide_eq_true hst).symm
    · exact .inr (of_decide_eq_true hreleased)
  · split
    · exact .inr rfl
    · dsimp only
      split
      · exact .inl (by rw [make_eq _ _ ‹_›])
      · exact .inr rfl

theorem Accounts.setStrength (ha : h.Accounts (g :: gs)) (st : Strength) :
    (g.setStrength h st).2.Accounts ((g.setStrength h st).1 :: gs) := by
  obtain he | ⟨he, -⟩ | ⟨target, -, he⟩ := setStrength_cases g h st
  · rw [he]
    exact ha
  · rw [he]
    have hr := ha.release
    refine ⟨hr.perm, hr.nodup, hr.below, ?_⟩
    intro g' hg'
    rcases List.mem_cons.1 hg' with rfl | hg'
    · rfl
    · exact hr.held g' hg'
  · rw [he]
    exact ha.release.make target st

/-! ## Collections -/

/-- Nothing is taken out where nothing is to be freed. -/
theorem sweep_of_isEmpty (hd : h.doomed.isEmpty = true) : h.sweep = h := by
  have hkept : ∀ e ∈ h.objects.entries, h.roots.contains (.foreign e.1) = true := by
    intro e he
    have hkey := List.filter_eq_nil_iff.1 (List.isEmpty_iff.1 hd) e.1 (List.mem_map.2 ⟨e, he, rfl⟩)
    simpa only [Bool.not_eq_true', Bool.not_eq_false] using hkey
  have hobjects : h.objects.filter (fun i _ => h.roots.contains (.foreign i)) = h.objects :=
    congrArg Table.mk (List.filter_eq_self.2 hkept)
  exact congrArg (fun os => { h with objects := os }) hobjects

/-- What a collection leaves of a handle. -/
def settled (h : Heap) (e : GcHandle) : GcHandle :=
  if h.doomed.isEmpty then e else e.clear h.sweep.isAlive

theorem handles_collect (h : Heap) (full : Bool) :
    (h.collect full).handles = h.handles.mapValues fun _ => h.settled := by
  unfold collect settled
  dsimp only
  split
  · exact (Table.mapValues_self _).symm
  · rfl

@[simp] theorem weak_settled (h : Heap) (e : GcHandle) : (h.settled e).weak = e.weak := by
  unfold settled GcHandle.clear
  split
  · rfl
  · split <;> rfl

theorem settled_of_strong (h : Heap) {e : GcHandle} (he : e.weak = false) : h.settled e = e := by
  have hclear : e.clear h.sweep.isAlive = e := by
    rw [GcHandle.clear, if_neg (by simp [he])]
  unfold settled
  split
  · rfl
  · exact hclear

theorem handle_collect_of_strong {k : Nat} {e : GcHandle} (hk : h.handles.get? k = some e)
    (he : e.weak = false) (full : Bool) : (h.collect full).handles.get? k = some e := by
  rw [handles_collect, Table.get?_mapValues, hk, Option.map_some, settled_of_strong h he]

/-- Only a target that the collection frees is lost. -/
theorem filter_target_settled (h : Heap) (e : GcHandle) :
    (h.settled e).target.filter h.sweep.isAlive = e.target.filter h.sweep.isAlive := by
  unfold settled GcHandle.clear
  split
  · rfl
  · split
    · rw [Option.filter_filter]
      simp only [Bool.and_self]
    · rfl

/-- A weak handle on something alive loses exactly what is freed, looked at or not. -/
theorem target_settled {e : GcHandle} (hweak : e.weak = true)
    (halive : e.target.filter h.isAlive = e.target) :
    (h.settled e).target = e.target.filter h.sweep.isAlive := by
  rw [settled, GcHandle.clear, if_pos hweak]
  split
  · rename_i hd
    rw [sweep_of_isEmpty hd, halive]
  · rfl

theorem target_of_settled {e : GcHandle} {a : Address} (ha : (h.settled e).target = some a) :
    e.target = some a := by
  unfold settled GcHandle.clear at ha
  split at ha
  · exact ha
  · split at ha
    · exact (Option.filter_eq_some_iff.1 ha).1
    · exact ha

theorem Accounts.collect (ha : h.Accounts gs) (full : Bool) : (h.collect full).Accounts gs := by
  have hkeys : (h.collect full).handles.keys = h.handles.keys := by
    rw [handles_collect, Table.keys_mapValues]
  refine ⟨hkeys ▸ ha.perm, hkeys ▸ ha.nodup, hkeys ▸ ha.below, ?_⟩
  intro g hg
  have hheld := ha.held g hg
  obtain ⟨_ | k, st⟩ := g
  · exact hheld
  · obtain ⟨hst, t, ht, hsome⟩ := hheld
    refine ⟨hst, (h.settled ⟨t, st == .weak⟩).target, ?_, ?_⟩
    · rw [handles_collect, Table.get?_mapValues, ht, Option.map_some]
      exact congrArg some (congrArg (GcHandle.mk _) (weak_settled h _))
    · rintro rfl
      rw [settled_of_strong h rfl]
      exact hsome rfl

/-! ## Targets -/

/-- The objects of a heap are numbered, each once, below the next number. -/
structure Numbered (h : Heap) : Prop where
  nodup : h.objects.keys.Nodup
  below : ∀ i ∈ h.objects.keys, i < h.nextObject

namespace Numbered

/-- The objects of a heap are all that matters. -/
theorem of_objects {h' : Heap} (hn : h.Numbered) (ho : h'.objects = h.objects)
    (hx : h'.nextObject = h.nextObject) : h'.Numbered := ⟨ho ▸ hn.nodup, ho ▸ hx ▸ hn.below⟩

theorem next_notMem (hn : h.Numbered) : h.nextObject ∉ h.objects.keys :=
  fun hk => Nat.lt_irrefl _ (hn.below _ hk)

theorem allocate (hn : h.Numbered) (m : Managed) : (h.allocate m).2.Numbered := by
  refine ⟨Table.nodup_keys_insert hn.nodup _ _, ?_⟩
  show ∀ i ∈ (h.objects.insert h.nextObject m).keys, i < h.nextObject + 1
  intro i hi
  rw [Table.keys_insert, if_neg hn.next_notMem, List.mem_append, List.mem_singleton] at hi
  rcases hi with hi | rfl
  · exact Nat.lt_succ_of_lt (hn.below i hi)
  · exact Nat.lt_succ_self _

theorem modify (hn : h.Numbered) (a : Address) (f : Managed → Managed) :
    (h.modify a f).Numbered := by
  cases a with
  | foreign i =>
    refine ⟨?_, ?_⟩
    · show (h.objects.modify i f).keys.Nodup
      rw [Table.keys_modify]
      exact hn.nodup
    · show ∀ j ∈ (h.objects.modify i f).keys, j < h.nextObject
      rw [Table.keys_modify]
      exact hn.below
  | _ => exact hn

theorem collect (hn : h.Numbered) (full : Bool) : (h.collect full).Numbered := by
  refine ⟨Table.nodup_keys_filter hn.nodup _, ?_⟩
  show ∀ i ∈ (h.objects.filter _).keys, i < h.nextObject
  intro i hi
  obtain ⟨e, he, rfl⟩ := List.mem_map.1 hi
  exact hn.below _ (List.mem_map.2 ⟨e, (List.mem_filter.1 he).1, rfl⟩)

theorem release (hn : h.Numbered) (g : Grip) : (g.release h).2.Numbered := by
  obtain ⟨_ | k, st⟩ := g <;> exact ⟨hn.nodup, hn.below⟩

theorem make (hn : h.Numbered) (target : Address) (st : Strength) :
    (Grip.make h target st).2.Numbered := by
  cases st <;> exact ⟨hn.nodup, hn.below⟩

theorem setStrength (hn : h.Numbered) (g : Grip) (st : Strength) :
    (g.setStrength h st).2.Numbered := by
  obtain he | ⟨he, -⟩ | ⟨target, -, he⟩ := setStrength_cases g h st
  · rw [he]
    exact hn
  · rw [he]
    exact hn.release g
  · rw [he]
    exact (hn.release g).make target st

end Numbered

theorem isAlive_allocate (m : Managed) {a : Address} (ha : h.isAlive a = true) :
    (h.allocate m).2.isAlive a = true := by
  cases a with
  | foreign i =>
    show ((h.objects.insert h.nextObject m).get? i).isSome = true
    rw [Table.get?_insert]
    split
    · rfl
    · exact ha
  | _ => exact ha

theorem isAlive_modify (b : Address) (f : Managed → Managed) (a : Address) :
    (h.modify b f).isAlive a = h.isAlive a := by
  cases b with
  | foreign j =>
    cases a with
    | foreign i =>
      show ((h.objects.modify j f).get? i).isSome = (h.objects.get? i).isSome
      rw [Table.get?_modify]
      split
      · rw [Option.isSome_map]
      · rfl
    | _ => rfl
  | _ => rfl

theorem isAlive_release (g : Grip) (h : Heap) (a : Address) :
    (g.release h).2.isAlive a = h.isAlive a := by
  obtain ⟨_ | k, st⟩ := g <;> rfl

theorem isAlive_make (h : Heap) (target : Address) (st : Strength) (a : Address) :
    (Grip.make h target st).2.isAlive a = h.isAlive a := by
  cases st <;> rfl

theorem isAlive_setStrength (g : Grip) (h : Heap) (st : Strength) (a : Address) :
    (g.setStrength h st).2.isAlive a = h.isAlive a := by
  obtain he | ⟨he, -⟩ | ⟨target, -, he⟩ := setStrength_cases g h st
  · rw [he]
  · rw [he, isAlive_release]
  · rw [he, isAlive_make, isAlive_release]

/-! ## The handles of other holds -/

end Heap

/-- The handle of a hold. -/
def Grip.gcHandle? (g : Grip) (h : Heap) : Option GcHandle := g.handle.bind h.handles.get?

theorem Grip.target?_eq (g : Grip) (h : Heap) :
    g.target? h = ((g.gcHandle? h).bind GcHandle.target).filter h.isAlive := by
  obtain ⟨_ | k, st⟩ := g
  · rfl
  · show h.target? k = ((h.handles.get? k).bind GcHandle.target).filter h.isAlive
    unfold Heap.target?
    cases h.handles.get? k <;> rfl

/-- What a hold holds depends on its own handle only. -/
theorem Grip.target?_congr {g : Grip} {h h' : Heap} (hg : g.gcHandle? h' = g.gcHandle? h)
    (hlive : ∀ a, h'.isAlive a = h.isAlive a) : g.target? h' = g.target? h := by
  rw [target?_eq, target?_eq, hg, funext hlive]

namespace Heap

variable {h : Heap} {gs gs' : List Grip} {g : Grip}

theorem gcHandle?_make (ha : h.Accounts gs) (hg : g ∈ gs) (target : Address) (st : Strength) :
    g.gcHandle? (Grip.make h target st).2 = g.gcHandle? h := by
  obtain ⟨_ | k, st'⟩ := g
  · rfl
  · have hne : h.nextHandle ≠ k := Nat.ne_of_gt (ha.handle_lt hg rfl)
    by_cases hst : st = .released
    · rw [hst]
      rfl
    · rw [make_eq h target hst]
      show (h.handles.insert _ _).get? k = h.handles.get? k
      rw [Table.get?_insert, if_neg hne]

theorem gcHandle?_release (ha : h.Accounts (g :: gs)) {g' : Grip} (hg' : g' ∈ gs) :
    g'.gcHandle? (g.release h).2 = g'.gcHandle? h := by
  obtain ⟨_ | k', st'⟩ := g'
  · rfl
  · obtain ⟨_ | k, st⟩ := g
    · rfl
    · have hkk : k ≠ k' := by
        rintro rfl
        exact ha.handle_ne hg' rfl rfl
      show (h.handles.erase k).get? k' = h.handles.get? k'
      rw [Table.get?_erase, if_neg hkk]

theorem gcHandle?_releaseAll {rs : List Grip} (ha : h.Accounts (rs ++ gs)) {g' : Grip}
    (hg' : g' ∈ gs) :
    g'.gcHandle? (rs.foldl (fun h (g : Grip) => (g.release h).2) h) = g'.gcHandle? h := by
  induction rs generalizing h with
  | nil => rfl
  | cons r rs ih =>
    rw [List.foldl_cons, ih ha.release]
    exact gcHandle?_release ha (List.mem_append_right rs hg')

theorem gcHandle?_setStrength (ha : h.Accounts (g :: gs)) {g' : Grip} (hg' : g' ∈ gs)
    (st : Strength) : g'.gcHandle? (g.setStrength h st).2 = g'.gcHandle? h := by
  obtain he | ⟨he, -⟩ | ⟨target, -, he⟩ := setStrength_cases g h st
  · rw [he]
  · rw [he]
    exact gcHandle?_release ha hg'
  · rw [he, gcHandle?_make ha.release hg', gcHandle?_release ha hg']

theorem isAlive_releaseAll (rs : List Grip) (h : Heap) (a : Address) :
    (rs.foldl (fun h (g : Grip) => (g.release h).2) h).isAlive a = h.isAlive a := by
  induction rs generalizing h with
  | nil => rfl
  | cons r rs ih => rw [List.foldl_cons, ih, isAlive_release]

theorem target?_make (ha : h.Accounts gs) (hg : g ∈ gs) (target : Address) (st : Strength) :
    g.target? (Grip.make h target st).2 = g.target? h :=
  Grip.target?_congr (gcHandle?_make ha hg target st) (isAlive_make h target st)

theorem target?_release (ha : h.Accounts (g :: gs)) {g' : Grip} (hg' : g' ∈ gs) :
    g'.target? (g.release h).2 = g'.target? h :=
  Grip.target?_congr (gcHandle?_release ha hg') (isAlive_release g h)

theorem target?_releaseAll {rs : List Grip} (ha : h.Accounts (rs ++ gs)) {g' : Grip}
    (hg' : g' ∈ gs) :
    g'.target? (rs.foldl (fun h (g : Grip) => (g.release h).2) h) = g'.target? h :=
  Grip.target?_congr (gcHandle?_releaseAll ha hg') (isAlive_releaseAll rs h)

theorem target?_setStrength (ha : h.Accounts (g :: gs)) {g' : Grip} (hg' : g' ∈ gs)
    (st : Strength) : g'.target? (g.setStrength h st).2 = g'.target? h :=
  Grip.target?_congr (gcHandle?_setStrength ha hg' st) (isAlive_setStrength g h st)

theorem Numbered.releaseAll {rs : List Grip} (hn : h.Numbered) :
    (rs.foldl (fun h (g : Grip) => (g.release h).2) h).Numbered := by
  induction rs generalizing h with
  | nil => exact hn
  | cons r rs ih => exact ih (hn.release r)

/-- A new hold holds its target. -/
theorem target?_make_self (h : Heap) {target : Address} (ht : h.isAlive target = true)
    {st : Strength} (hst : st ≠ .released) :
    (Grip.make h target st).1.target? (Grip.make h target st).2 = some target := by
  have halive := isAlive_make h target st target
  rw [ht] at halive
  rw [make_eq h target hst] at halive ⊢
  show target? _ h.nextHandle = some target
  unfold target?
  simp only [Table.get?_insert, if_true]
  exact Option.filter_some_pos halive

theorem isAlive_of_target? {k : Nat} {a : Address} (ht : h.target? k = some a) :
    h.isAlive a = true := by
  unfold target? at ht
  split at ht
  · exact (Option.filter_eq_some_iff.1 ht).2
  · cases ht

/-- A hold that changes its strength keeps its target, or had none alive. -/
theorem target?_setStrength_self (g : Grip) (h : Heap) {st : Strength} (hst : st ≠ .released) :
    (g.setStrength h st).1.target? (g.setStrength h st).2 = g.target? h := by
  obtain he | ⟨he, hnone⟩ | ⟨target, ht, he⟩ := setStrength_cases g h st
  · rw [he]
  · rw [he, hnone.resolve_left hst]
    rfl
  · rw [he, ht]
    apply target?_make_self _ _ hst
    rw [isAlive_release]
    obtain ⟨_ | k, st'⟩ := g
    · cases ht
    · exact isAlive_of_target? ht

/-- A collection keeps the objects that strong handles hold as they are. -/
theorem get?_collect (h : Heap) (full : Bool) (a : Address) :
    (h.collect full).get? a = if h.roots.contains a then h.get? a else none := by
  cases a with
  | foreign i => exact Table.get?_filter_key _ (fun i => h.roots.contains (.foreign i)) i
  | _ => exact (ite_self none).symm

theorem isAlive_collect (h : Heap) (full : Bool) (a : Address) :
    (h.collect full).isAlive a = (h.isAlive a && h.roots.contains a) := by
  unfold isAlive
  rw [get?_collect]
  cases h.roots.contains a with
  | true => exact (Bool.and_true _).symm
  | false => exact (Bool.and_false _).symm

/-- A strong handle's target is a root of every collection. -/
theorem mem_roots {k : Nat} {a : Address} (hk : h.handles.get? k = some ⟨some a, false⟩) :
    a ∈ h.roots := by
  unfold roots
  rw [List.mem_filterMap]
  refine ⟨⟨some a, false⟩, ?_, rfl⟩
  rw [List.mem_filter]
  exact ⟨Table.mem_values_of_get? hk, rfl⟩

/-- The roots of a collection are the targets of strong handles. -/
theorem mem_roots_iff (hn : h.handles.keys.Nodup) {a : Address} :
    a ∈ h.roots ↔ ∃ k, h.handles.get? k = some ⟨some a, false⟩ := by
  refine ⟨fun ha => ?_, fun ⟨k, hk⟩ => mem_roots hk⟩
  unfold roots at ha
  obtain ⟨⟨t, weak⟩, hmem, ht⟩ := List.mem_filterMap.1 ha
  obtain ⟨hvalue, hstrong⟩ := List.mem_filter.1 hmem
  obtain ⟨k, hk⟩ := (Table.mem_values hn).1 hvalue
  have ht : t = some a := ht
  have hweak : weak = false := by simpa using hstrong
  exact ⟨k, by rw [hk, ht, hweak]⟩

/-- A collection leaves a handle the target that strong handles hold too. -/
theorem target?_collect (h : Heap) (full : Bool) (k : Nat) :
    (h.collect full).target? k = (h.target? k).filter fun a => h.roots.contains a := by
  unfold target?
  rw [handles_collect, Table.get?_mapValues]
  cases h.handles.get? k with
  | none => rfl
  | some e =>
    calc (h.settled e).target.filter (h.collect full).isAlive
      _ = e.target.filter (h.collect full).isAlive := filter_target_settled h e
      _ = e.target.filter fun a => h.isAlive a && h.roots.contains a := by
        rw [funext (isAlive_collect h full)]
      _ = (e.target.filter h.isAlive).filter fun a => h.roots.contains a :=
        (Option.filter_filter ..).symm

/-- A collection takes no target but those that it frees. -/
theorem target?_collect_eq_filter (h : Heap) (full : Bool) (k : Nat) :
    (h.collect full).target? k = (h.target? k).filter (h.collect full).isAlive := by
  rw [target?_collect]
  cases ht : h.target? k with
  | none => rfl
  | some a =>
    have halive := h.isAlive_collect full a
    rw [isAlive_of_target? ht, Bool.true_and] at halive
    rw [Option.filter, Option.filter, halive]

end Heap

theorem Grip.isAlive_of_target? {g : Grip} {h : Heap} {a : Address} (ht : g.target? h = some a) :
    h.isAlive a = true := by
  obtain ⟨_ | k, st⟩ := g
  · cases ht
  · exact Heap.isAlive_of_target? ht

end TwinHeap
