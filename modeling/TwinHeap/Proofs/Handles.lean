import TwinHeap.Bridge.Library
import TwinHeap.Proofs.Grips
import TwinHeap.Proofs.Storage

/-!
# Handles — no handle of the collector is leaked, shared or freed early

In every world that foreign code or the host sees, the handles of the foreign runtime are those of
the entries of the identity table, of the objects staged for running calls, of the holds that foreign
code has taken for itself, and of the entries that are just being removed: one handle each, and none
beside them (`live_handles_accounted`). Bodies of methods are arbitrary: they may enter the bridge
again, throw, or break a promise.
-/

namespace TwinHeap

variable {σ : Type}

namespace State

/-- The holds of the entries, of the running calls and of foreign code. -/
def holding (s : State) : List Grip :=
  s.bridge.entries.values ++ (s.bridge.frames.flatMap CallFrame.roots ++ s.grips.values)

/-- Every handle has one owner: a hold that the state knows, or one of `gs`. -/
structure Balanced (s : State) (gs : List Grip) : Prop where
  accounts : s.heap.Accounts (s.holding ++ gs)
  numbered : s.heap.Numbered
  entries : s.bridge.entries.keys.Nodup
  grips : s.grips.keys.Nodup
  fresh : ∀ i ∈ s.grips.keys, i < s.nextGrip
  alive : ∀ g ∈ s.bridge.entries.values, g.strength = .strong → (g.target? s.heap).isSome
  roots : ∀ g ∈ s.bridge.frames.flatMap CallFrame.roots, g.strength = .strong

/-- The state with a hold as the entry of a host object. -/
def putEntry (s : State) (host : Address) (g : Grip) : State :=
  { s with bridge := { s.bridge with entries := s.bridge.entries.insert host g } }

/-- The state without a hold of foreign code, which is not released. -/
def eraseGrip (s : State) (i : Nat) : State := { s with grips := s.grips.erase i }

/-- The state with a hold of foreign code. -/
def putGrip (s : State) (i : Nat) (g : Grip) : State :=
  { s with grips := s.grips.insert i g, nextGrip := max s.nextGrip (i + 1) }

namespace Balanced

variable {s s' : State} {gs : List Grip}

/-- A change that leaves handles and holds alone and frees no object. -/
theorem of_same (h : s.Balanced gs)
    (hh : s'.heap.handles = s.heap.handles ∧ s'.heap.nextHandle = s.heap.nextHandle)
    (hs : s'.bridge.entries = s.bridge.entries ∧
      s'.bridge.frames.flatMap CallFrame.roots = s.bridge.frames.flatMap CallFrame.roots ∧
      s'.grips = s.grips ∧ s'.nextGrip = s.nextGrip)
    (hn : s'.heap.Numbered) (hl : ∀ a, s.heap.isAlive a = true → s'.heap.isAlive a = true) :
    s'.Balanced gs := by
  obtain ⟨he, hf, hg, hng⟩ := hs
  have hholding : s'.holding = s.holding := by
    unfold holding
    rw [he, hf, hg]
  refine ⟨?_, hn, he ▸ h.entries, hg ▸ h.grips, ?_, ?_, hf ▸ h.roots⟩
  · rw [hholding]
    exact h.accounts.of_handles hh.1 hh.2
  · rw [hg, hng]
    exact h.fresh
  · intro g hgv hst
    rw [he] at hgv
    -- A strong entry holds its object by a handle that still leads to it.
    have hsome := h.alive g hgv hst
    obtain ⟨a, hta⟩ := Option.isSome_iff_exists.1 hsome
    obtain ⟨_ | k, st⟩ := g
    · cases hta
    · show (s'.heap.target? k).isSome
      have hta : s.heap.target? k = some a := hta
      unfold Heap.target? at hta ⊢
      rw [hh.1]
      split at hta
      · rw [Option.filter_eq_some_iff] at hta
        rw [Option.isSome_iff_exists]
        exact ⟨a, Option.filter_eq_some_iff.2 ⟨hta.1, hl a hta.2⟩⟩
      · cases hta

/-- A change outside of the foreign heap and of what holds objects in it. -/
theorem of_heap (h : s.Balanced gs) (hh : s'.heap = s.heap)
    (hs : s'.bridge.entries = s.bridge.entries ∧
      s'.bridge.frames.flatMap CallFrame.roots = s.bridge.frames.flatMap CallFrame.roots ∧
      s'.grips = s.grips ∧ s'.nextGrip = s.nextGrip) : s'.Balanced gs :=
  h.of_same ⟨congrArg _ hh, congrArg _ hh⟩ hs (hh ▸ h.numbered) fun _ ha => hh ▸ ha

/-! ## Holds change hands -/

theorem mem_holding_of_entry {g : Grip} (hg : g ∈ s.bridge.entries.values) : g ∈ s.holding :=
  List.mem_append_left _ hg

/-- The hold of an entry that is taken out belongs to whoever took it. -/
theorem eraseEntry (h : s.Balanced gs) {host : Address} {g : Grip}
    (hg : s.bridge.entries.get? host = some g) : (s.eraseEntry host).Balanced (g :: gs) := by
  have hv : s.bridge.entries.values.Perm (g :: (s.bridge.entries.erase host).values) :=
    Table.values_perm_erase h.entries hg
  refine { h with
    accounts := ?_
    entries := Table.nodup_keys_erase h.entries host
    alive := ?_ }
  · refine h.accounts.congr ?_
    refine ((hv.append_right _).append_right gs).trans ?_
    exact List.perm_middle.symm
  · intro g' hg' hst
    exact h.alive g' (hv.mem_iff.2 (List.mem_cons_of_mem g hg')) hst

theorem putEntry {host : Address} {g : Grip} (h : (s.eraseEntry host).Balanced (g :: gs))
    (hn : s.bridge.entries.keys.Nodup)
    (hg : g.strength = .strong → (g.target? s.heap).isSome) : (s.putEntry host g).Balanced gs := by
  have hv : (s.bridge.entries.insert host g).values.Perm
      (g :: (s.bridge.entries.erase host).values) := Table.values_insert_perm hn host g
  refine { h with
    accounts := ?_
    entries := Table.nodup_keys_insert hn host g
    alive := ?_ }
  · refine h.accounts.congr (List.perm_middle.trans ?_)
    exact ((hv.append_right _).append_right gs).symm
  · intro g' hg' hst
    rcases List.mem_cons.1 (hv.mem_iff.1 hg') with rfl | hg'
    · exact hg hst
    · exact h.alive g' hg' hst

theorem eraseGrip (h : s.Balanced gs) {i : Nat} {g : Grip} (hg : s.grips.get? i = some g) :
    (s.eraseGrip i).Balanced (g :: gs) := by
  have hv : s.grips.values.Perm (g :: (s.grips.erase i).values) :=
    Table.values_perm_erase h.grips hg
  refine { h with
    accounts := ?_
    grips := Table.nodup_keys_erase h.grips i
    fresh := ?_ }
  · refine h.accounts.congr ?_
    refine (((hv.append_left _).append_left _).append_right gs).trans ?_
    refine ((List.perm_middle.append_left _).append_right gs).trans ?_
    exact (List.perm_middle.append_right gs).trans List.perm_middle.symm
  · intro j hj
    have hj : j ∈ (s.grips.erase i).keys := hj
    rw [Table.keys_erase] at hj
    exact h.fresh j (List.mem_filter.1 hj).1

theorem putGrip {i : Nat} {g : Grip} (h : (s.eraseGrip i).Balanced (g :: gs))
    (hn : s.grips.keys.Nodup) (hf : ∀ j ∈ s.grips.keys, j < s.nextGrip) :
    (s.putGrip i g).Balanced gs := by
  have hv : (s.grips.insert i g).values.Perm (g :: (s.grips.erase i).values) :=
    Table.values_insert_perm hn i g
  refine { h with
    accounts := ?_
    grips := Table.nodup_keys_insert hn i g
    fresh := ?_ }
  · refine h.accounts.congr (List.perm_middle.trans ?_)
    refine (List.perm_middle.symm.append_right gs).trans ?_
    refine ((List.perm_middle.symm.append_left _).append_right gs).trans ?_
    exact (((hv.symm.append_left _).append_left _).append_right gs)
  · show ∀ j ∈ (s.grips.insert i g).keys, j < max s.nextGrip (i + 1)
    intro j hj
    rw [Table.keys_insert] at hj
    split at hj
    · exact Nat.lt_of_lt_of_le (hf j hj) (Nat.le_max_left _ _)
    · rcases List.mem_append.1 hj with hj | hj
      · exact Nat.lt_of_lt_of_le (hf j hj) (Nat.le_max_left _ _)
      · rw [List.mem_singleton.1 hj]
        exact Nat.lt_of_lt_of_le (Nat.lt_succ_self i) (Nat.le_max_right _ _)

/-! ## Holds are made, changed and released -/

/-- A change of the heap that keeps the accounts and what the known holds hold. -/
theorem of_accounts {gs' : List Grip} {heap : Heap} (h : s.Balanced gs)
    (ha : heap.Accounts (s.holding ++ gs')) (hn : heap.Numbered)
    (ht : ∀ g ∈ s.bridge.entries.values, g.target? heap = g.target? s.heap) :
    (s.withHeap heap).Balanced gs' :=
  { h with
    accounts := ha
    numbered := hn
    alive := by
      intro g hg hst
      show (g.target? heap).isSome
      rw [ht g hg]
      exact h.alive g hg hst }

theorem releaseGrip {g : Grip} (h : s.Balanced (g :: gs)) : (s.releaseGrip g).Balanced gs := by
  have ha : s.heap.Accounts (g :: (s.holding ++ gs)) := h.accounts.congr List.perm_middle
  refine h.of_accounts ha.release (h.numbered.release g) fun g' hg' => ?_
  exact Heap.target?_release ha (List.mem_append_left gs (mem_holding_of_entry hg'))

theorem makeGrip (h : s.Balanced gs) (target : Address) (st : Strength) :
    (s.withHeap (Grip.make s.heap target st).2).Balanced
      ((Grip.make s.heap target st).1 :: gs) := by
  refine h.of_accounts ?_ (h.numbered.make target st) fun g' hg' => ?_
  · exact (h.accounts.make target st).congr List.perm_middle.symm
  · exact Heap.target?_make h.accounts
      (List.mem_append_left gs (mem_holding_of_entry hg')) target st

theorem setStrength {g : Grip} (h : s.Balanced (g :: gs)) (st : Strength) :
    (s.withHeap (g.setStrength s.heap st).2).Balanced ((g.setStrength s.heap st).1 :: gs) := by
  have ha : s.heap.Accounts (g :: (s.holding ++ gs)) := h.accounts.congr List.perm_middle
  refine h.of_accounts ?_ (h.numbered.setStrength g st) fun g' hg' => ?_
  · exact (ha.setStrength st).congr List.perm_middle.symm
  · exact Heap.target?_setStrength ha (List.mem_append_left gs (mem_holding_of_entry hg')) st

/-! ## The operations on entries -/

theorem dropEntry (h : s.Balanced gs) (host : Address) : (s.dropEntry host).Balanced gs := by
  unfold State.dropEntry
  split
  · exact h
  · exact (h.eraseEntry ‹_›).releaseGrip

/-- A host object without an entry gets one that holds a live object. -/
theorem addEntry (h : s.Balanced gs) {host proxy : Address}
    (hn : s.bridge.entries.get? host = none) (hp : s.heap.isAlive proxy = true) :
    (s.addEntry host proxy).Balanced gs := by
  have hm := h.makeGrip proxy .strong
  have he : ((s.withHeap (Grip.make s.heap proxy .strong).2).eraseEntry host) =
      s.withHeap (Grip.make s.heap proxy .strong).2 := by
    show ({ s.withHeap _ with bridge := { s.bridge with entries := s.bridge.entries.erase host } } :
      State) = _
    rw [Table.erase_of_get?_none hn]
    rfl
  refine putEntry (s := s.withHeap (Grip.make s.heap proxy .strong).2) (by rw [he]; exact hm)
    h.entries ?_
  intro _
  show ((Grip.make s.heap proxy .strong).1.target? (Grip.make s.heap proxy .strong).2).isSome
  rw [Heap.target?_make_self s.heap hp (by decide)]
  rfl

theorem tighten (h : s.Balanced gs) {host : Address} {old : Grip}
    (hg : s.bridge.entries.get? host = some old) {st : Strength} (hst : st ≠ .released) :
    (s.tighten host old st).Balanced gs := by
  have hs := (h.eraseEntry hg).setStrength st
  refine of_heap (s := (s.withHeap (old.setStrength s.heap st).2).putEntry host
    (old.setStrength s.heap st).1) ?_ rfl ⟨rfl, rfl, rfl, rfl⟩
  refine putEntry (s := s.withHeap (old.setStrength s.heap st).2) hs h.entries ?_
  intro hstrong
  show ((old.setStrength s.heap st).1.target? (old.setStrength s.heap st).2).isSome
  rw [Heap.target?_setStrength_self old s.heap hst]
  obtain he | ⟨he, -⟩ | ⟨target, ht, he⟩ := Heap.setStrength_cases old s.heap st
  · rw [he] at hstrong
    exact h.alive old (Table.mem_values_of_get? hg) hstrong
  · rw [he] at hstrong
    cases hstrong
  · rw [ht]
    rfl

/-! ## The operations on redirected calls -/

theorem root (h : s.Balanced gs) (a : Address) : (s.root a).Balanced gs := by
  unfold State.root
  split
  · exact h
  · rename_i f fs hf
    have hm := h.makeGrip a .strong
    have hfr : s.bridge.frames.flatMap CallFrame.roots =
        f.roots ++ fs.flatMap CallFrame.roots := by rw [hf, List.flatMap_cons]
    refine { hm with
      accounts := ?_
      roots := ?_ }
    · -- The new handle is now accounted for with those of the innermost frame.
      refine hm.accounts.congr (List.perm_middle.trans ?_)
      rw [← List.cons_append]
      refine List.Perm.append_right gs ?_
      show (_ :: (s.bridge.entries.values ++ (s.bridge.frames.flatMap CallFrame.roots ++ _))).Perm
        (s.bridge.entries.values ++ ((_ :: f.roots) ++ fs.flatMap CallFrame.roots ++ _))
      rw [hfr]
      exact List.perm_middle.symm
    · show ∀ g ∈ (_ :: f.roots) ++ fs.flatMap CallFrame.roots, g.strength = .strong
      intro g hg
      rw [List.cons_append, ← hfr] at hg
      rcases List.mem_cons.1 hg with rfl | hg
      · rfl
      · exact h.roots g hg

/-- What was staged for the innermost call has handles of its own. -/
theorem accounts_leave (h : s.Balanced gs) {f : CallFrame} {fs : List CallFrame}
    (hf : s.bridge.frames = f :: fs) : s.heap.Accounts (f.roots ++
      (s.bridge.entries.values ++ (fs.flatMap CallFrame.roots ++ s.grips.values) ++ gs)) := by
  refine h.accounts.congr ?_
  rw [← List.append_assoc]
  refine List.Perm.append_right gs ?_
  unfold holding
  rw [hf, List.flatMap_cons, List.append_assoc, ← List.append_assoc _ f.roots,
    ← List.append_assoc f.roots]
  exact List.perm_append_comm.append_right _

/-- A call that ends releases all that was staged for it. -/
theorem leave (h : s.Balanced gs) (key : Redirector.Key) : (s.leave key).Balanced gs := by
  unfold State.leave
  dsimp only
  have hmod : (s.modifyRedirector key fun r => { r with depth := r.depth - 1 }).Balanced gs :=
    h.of_heap rfl ⟨rfl, rfl, rfl, rfl⟩
  split
  · exact hmod
  · rename_i f fs hf
    have hf : s.bridge.frames = f :: fs := hf
    have hfr : s.bridge.frames.flatMap CallFrame.roots =
        f.roots ++ fs.flatMap CallFrame.roots := by rw [hf, List.flatMap_cons]
    have ha := h.accounts_leave hf
    -- With the frame its handles go, and no other.
    refine { hmod with
      accounts := ha.releaseAll
      numbered := h.numbered.releaseAll
      alive := ?_
      roots := ?_ }
    · intro g hg hst
      show (g.target? (f.roots.foldl (fun h (g : Grip) => (g.release h).2) s.heap)).isSome
      rw [Heap.target?_releaseAll ha
        (List.mem_append_left gs (List.mem_append_left _ hg))]
      exact h.alive g hg hst
    · intro g hg
      exact h.roots g (hfr ▸ List.mem_append_right _ hg)

/-! ## The heap -/

theorem collect (h : s.Balanced gs) (full : Bool) :
    (s.withHeap (s.heap.collect full)).Balanced gs := by
  refine { h with
    accounts := h.accounts.collect full
    numbered := h.numbered.collect full
    alive := ?_ }
  intro g hg hst
  obtain ⟨a, ha⟩ := Option.isSome_iff_exists.1 (h.alive g hg hst)
  have hheld := h.accounts.held g (List.mem_append_left gs (mem_holding_of_entry hg))
  obtain ⟨_ | k, st⟩ := g
  · cases ha
  · cases hst
    obtain ⟨-, t, ht, -⟩ := hheld
    have hta : s.heap.target? k = some a := ha
    have hroot : s.heap.roots.contains a = true := by
      unfold Heap.target? at hta
      rw [ht] at hta
      obtain ⟨rfl, -⟩ := Option.filter_eq_some_iff.1 hta
      exact List.contains_iff_mem.2 (Heap.mem_roots ht)
    show ((s.heap.collect full).target? k).isSome
    rw [Heap.target?_collect, hta, Option.filter_some_pos hroot]
    rfl

/-! ## Holds of foreign code -/

theorem hold (h : s.Balanced gs) (target : Address) (st : Strength) :
    (s.hold target st).2.Balanced gs := by
  have hm := h.makeGrip target st
  have hn : s.grips.get? s.nextGrip = none :=
    Table.get?_eq_none.2 fun hk => Nat.lt_irrefl _ (h.fresh _ hk)
  have he : ((s.withHeap (Grip.make s.heap target st).2).eraseGrip s.nextGrip) =
      s.withHeap (Grip.make s.heap target st).2 := by
    show ({ s.withHeap _ with grips := s.grips.erase s.nextGrip } : State) = _
    rw [Table.erase_of_get?_none hn]
    rfl
  have hput := putGrip (s := s.withHeap (Grip.make s.heap target st).2) (i := s.nextGrip)
    (by rw [he]; exact hm) h.grips h.fresh
  have hmax : max s.nextGrip (s.nextGrip + 1) = s.nextGrip + 1 := Nat.max_eq_right (Nat.le_succ _)
  unfold State.putGrip at hput
  rw [show (s.withHeap (Grip.make s.heap target st).2).nextGrip = s.nextGrip from rfl, hmax] at hput
  exact hput

theorem tightenGrip (h : s.Balanced gs) {i : Nat} {old : Grip} (hold : s.grips.get? i = some old)
    (st : Strength) : (s.tightenGrip i old st).Balanced gs := by
  have hs := (h.eraseGrip hold).setStrength st
  have hput := putGrip (s := s.withHeap (old.setStrength s.heap st).2) hs h.grips h.fresh
  have hi : i < s.nextGrip := h.fresh i (Table.mem_keys_of_get? hold)
  unfold State.putGrip at hput
  rw [show (s.withHeap (old.setStrength s.heap st).2).nextGrip = s.nextGrip from rfl,
    Nat.max_eq_left hi] at hput
  exact hput

theorem dropGrip (h : s.Balanced gs) {i : Nat} {old : Grip} (hold : s.grips.get? i = some old) :
    (s.dropGrip i old).Balanced gs :=
  (h.eraseGrip hold).releaseGrip

/-! ## Every change -/

/-- A write reaches at most the octets of a boxed value on the heap. -/
theorem writeAt (h : s.Balanced gs) (a : Address) (os : List Octet) :
    (s.writeAt a os).Balanced gs := by
  cases a with
  | payload i =>
    exact h.of_same ⟨rfl, rfl⟩ ⟨rfl, rfl, rfl, rfl⟩ (h.numbered.modify (.foreign i) _)
      fun b hb => (Heap.isAlive_modify (.foreign i) _ b).trans hb
  | _ => exact h.of_heap rfl ⟨rfl, rfl, rfl, rfl⟩

theorem storeAt (h : s.Balanced gs) (a : Address) (v : Value) : (s.storeAt a v).Balanced gs := by
  cases a <;> exact h.of_heap rfl ⟨rfl, rfl, rfl, rfl⟩

theorem allocate (h : s.Balanced gs) (m : Managed) :
    (s.withHeap (s.heap.allocate m).2).Balanced gs :=
  h.of_same ⟨rfl, rfl⟩ ⟨rfl, rfl, rfl, rfl⟩ (h.numbered.allocate m)
    fun _ ha => Heap.isAlive_allocate m ha

theorem addProxy (h : s.Balanced gs) {host : Address} {type : Nat}
    (hn : s.bridge.entries.get? host = none) (ht : s.foreign.isType type = true) :
    (s.addProxy host type).Balanced gs := by
  rw [State.addProxy_of_isType ht]
  refine (h.allocate (.object type .null)).addEntry hn ?_
  show ((s.heap.objects.insert s.heap.nextObject _).get? s.heap.nextObject).isSome = true
  simp

end Balanced

end State

/-- The hold that a removal keeps until its proxy is disconnected. -/
def Owed.grip? : Owed → Option Grip
  | .severing g _ _ => some g
  | _ => none

theorem Request.Outcome.balanced {r : Request} {s s' : State} (ho : r.Outcome s s') {gs : List Grip}
    (h : s.Balanced gs) : s'.Balanced gs := by
  cases ho with
  | payload i octets => exact h.writeAt (.payload i) octets
  | allocate contents => exact h.allocate contents
  | instantiate => exact h.allocate _
  | setNative object native =>
    exact h.of_same (by cases object <;> exact ⟨rfl, rfl⟩) ⟨rfl, rfl, rfl, rfl⟩
      (h.numbered.modify object _) fun b hb => (Heap.isAlive_modify object _ b).trans hb
  | collect full => exact h.collect full
  | hold target strength => exact h.hold target strength
  | regrip hold strength => exact h.tightenGrip hold strength
  | letGo hold => exact h.dropGrip hold
  | setRooted hold => exact h.tighten hold (Strength.ofRooted_ne_released _)
  | _ => exact h.of_heap rfl ⟨rfl, rfl, rfl, rfl⟩

/-- Every change of the bridge keeps the balance, with what is owed. -/
theorem Change.balanced {T : Terms} {o o' : List Owed} {s s' : State} (hc : Change T o s o' s')
    (h : s.Balanced (o.filterMap Owed.grip?)) : s'.Balanced (o'.filterMap Owed.grip?) := by
  cases hc with
  | write _ os => exact h.writeAt _ os
  | store _ v => exact h.storeAt _ v
  | string text => exact h.allocate (.string text)
  | collect _ full => exact h.collect full
  | clear => exact h.dropEntry _
  | make _ hn _ ht => exact h.addProxy hn ht
  | made => exact h
  | unmake => exact h.dropEntry _
  | sever _ _ hg => exact h.eraseEntry hg
  | severed => exact h.releaseGrip
  | leave => exact h.leave _
  | frameCell v =>
    refine h.of_heap rfl ⟨rfl, ?_, rfl, rfl⟩
    cases hf : s.bridge.frames <;> simp [State.frameCell, hf]
  | root a => exact h.root a
  | alone _ _ hf => exact (Request.outcome hf s).balanced h
  | _ => exact h.of_heap rfl ⟨rfl, rfl, rfl, rfl⟩

/-- A frame is pushed when a redirected call begins, and popped when it ends. -/
theorem Change.frames {T : Terms} {o o' : List Owed} {s s' : State} (hc : Change T o s o' s')
    (h : s.bridge.frames.length = o.countP Owed.isFrame) :
    s'.bridge.frames.length = o'.countP Owed.isFrame := by
  have hlength (s : State) : s.bridge.frames.length = s.frameCells.length := by
    unfold State.frameCells
    rw [List.length_map]
  rw [hlength] at h ⊢
  obtain ⟨hf, ho⟩ | ⟨key, rfl, hf⟩ | ⟨key, rfl, hf⟩ | ⟨key, r, first, rest, rfl, rfl, hold, hf⟩ :=
    hc.frameCells_cases
  · rw [hf, h, ho]
  · rw [hf, List.countP_cons_of_pos rfl, ← h]
    rfl
  · rw [List.countP_cons_of_pos rfl] at h
    rw [hf, List.length_tail, h]
    rfl
  · rw [hold] at h
    rw [hf, ← h]
    rfl

/-! ## Every run -/

/-- What is owed and the world agree on handles: the holds of removals are live and accounted for, and
each redirected call has its frame. -/
structure World.Tallied (o : List Owed) (w : World σ) : Prop where
  balanced : w.state.Balanced (o.filterMap Owed.grip?)
  frames : w.state.bridge.frames.length = o.countP Owed.isFrame
  severing : ∀ g p b, .severing g (some p) b ∈ o → g.handle ≠ none

/-- The phases of a removal or a construction do not matter for handles. -/
theorem World.Tallied.congr {w : World σ} {o o' : List Owed} (hw : w.Tallied o)
    (hc : o'.map Owed.core = o.map Owed.core) : w.Tallied o' := by
  have hgrip : Owed.grip? ∘ Owed.core = Owed.grip? := funext fun d => by cases d <;> rfl
  refine ⟨?_, ?_, ?_⟩
  · have hb := hw.balanced
    rw [← hgrip, ← List.filterMap_map, ← hc, List.filterMap_map, hgrip] at hb
    exact hb
  · rw [hw.frames, Owed.countP_isFrame_of_core hc]
  · intro g p b hm
    have hm : Owed.core (.severing g (some p) b) ∈ o.map Owed.core :=
      hc ▸ List.mem_map_of_mem hm
    obtain ⟨d, hd, heq⟩ := List.mem_map.1 hm
    cases d with
    | severing g' p' b' =>
      cases heq
      exact hw.severing _ _ _ hd
    | _ => cases heq

theorem Grip.handle_ne_none_of_target? {g : Grip} {h : Heap} {a : Address}
    (ht : g.target? h = some a) : g.handle ≠ none := by
  intro hnone
  unfold target? at ht
  rw [hnone] at ht
  cases ht

theorem Change.tallied {T : Terms} {o o' : List Owed} {w : World σ} {s' : State}
    (hc : Change T o w.state o' s') (hw : w.Tallied o) :
    World.Tallied o' { w with state := s' } := by
  refine ⟨hc.balanced hw.balanced, hc.frames hw.frames, ?_⟩
  have hs := hw.severing
  cases hc with
  | @sever _ _ host g _ _ hg =>
    intro g' p' b' hm
    rcases List.mem_cons.1 hm with heq | hm
    · rw [Owed.severing.injEq] at heq
      obtain ⟨rfl, heq, -⟩ := heq
      exact Grip.handle_ne_none_of_target? heq.symm
    · exact hs g' p' b' hm
  | openCell | make | enter => simpa using hs
  | closeCell | made | unmake | severed | leave =>
    exact fun g p b hm => hs g p b (List.mem_cons_of_mem _ hm)
  | _ => exact hs

namespace World.Tallied

variable {w : World σ} {o : List Owed}

theorem countCall (h : w.Tallied o) (m : Nat) : (w.countCall m).Tallied o :=
  ⟨h.balanced.of_heap rfl ⟨rfl, rfl, rfl, rfl⟩, h.frames, h.severing⟩

theorem remember (h : w.Tallied o) (memory : σ) : World.Tallied o { w with memory := memory } :=
  ⟨h.balanced, h.frames, h.severing⟩

theorem define (h : w.Tallied o) (info : MethodInfo) (body : Invocation → Program σ) :
    (w.define info body).Tallied o :=
  ⟨h.balanced.of_heap rfl ⟨rfl, rfl, rfl, rfl⟩, h.frames, h.severing⟩

end World.Tallied

/-- Handles are accounted for whatever foreign code does. -/
def handleRealm (σ : Type) : Realm σ :=
  .everywhere (fun o w => w.Tallied o) (fun hc ho => ho.congr hc) (fun _ ho => ho.remember _)
    (fun _ _ ho => ho.define _ _) (fun m ho => ho.countCall m) fun ho hc => hc.tallied ho

/-- A change that is asked for leaves what is owed as it is. -/
theorem World.Tallied.alone {o : List Owed} {w : World σ} (hw : w.Tallied o) {r : Request}
    {f : State → State} (hf : r.alone? = some f) :
    World.Tallied o { w with state := f w.state } :=
  Change.tallied (T := .asking (fun _ => True) fun _ => True) (.alone trivial trivial hf) hw

/-- A bridge to a fresh foreign runtime owes nothing. -/
theorem World.tallied_connect {config : Config} {registry : Registry} {side : ForeignSide σ}
    {memory : σ} {w : World σ} (hside : side.foreign.heap = .empty)
    (hw : World.connect config registry side memory = .ok w) : w.Tallied [] := by
  obtain ⟨helpers, rfl⟩ := World.started_of_connect hw
  have hheap : Heap.empty.Accounts [] := ⟨.refl _, .nil, nofun, nofun⟩
  refine ⟨⟨?_, ?_, .nil, .nil, nofun, nofun, nofun⟩, rfl, nofun⟩
  · show side.foreign.heap.Accounts []
    rw [hside]
    exact hheap
  · show side.foreign.heap.Numbered
    rw [hside]
    exact ⟨.nil, nofun⟩

/-- Wherever a session comes to, its handles are accounted for. -/
theorem Session.Sees.tallied {config : Config} {registry : Registry} {side : ForeignSide σ}
    {memory : σ} {start w : World σ} {rs : List Request}
    (h : Session.Sees (fun _ _ => True) (fun _ => True) start rs w)
    (hside : side.foreign.heap = .empty)
    (hstart : World.connect config registry side memory = .ok start) : ∃ o, w.Tallied o := by
  obtain ⟨o, hw, -⟩ := Realm.sees (R := handleRealm σ) (World.tallied_connect hside hstart) h
  exact ⟨o, hw⟩

namespace State

/-- The handles of the entries of the identity table. -/
def entryHandles (s : State) : List Nat := s.bridge.entries.values.filterMap Grip.handle

/-- The handles of the objects that are staged for the running calls. -/
def stagedHandles (s : State) : List Nat :=
  (s.bridge.frames.flatMap CallFrame.roots).filterMap Grip.handle

/-- The handles that foreign code and the host have taken for themselves. -/
def ownHandles (s : State) : List Nat := s.grips.values.filterMap Grip.handle

end State

/-- Each removal of an entry with a live proxy holds one handle. -/
theorem length_severed {o : List Owed} (hidle : o.countP Owed.isIdle = 0)
    (hs : ∀ g p b, .severing g (some p) b ∈ o → g.handle ≠ none) :
    ((o.filterMap Owed.grip?).filterMap Grip.handle).length = o.countP Owed.isSevering := by
  induction o with
  | nil => rfl
  | cons d o ih =>
    have hs' : ∀ g p b, .severing g (some p) b ∈ o → g.handle ≠ none :=
      fun g p b hm => hs g p b (List.mem_cons_of_mem d hm)
    rw [List.countP_cons] at hidle
    have hidle' : o.countP Owed.isIdle = 0 := by omega
    have ih := ih hidle' hs'
    cases d with
    | severing g proxy settled =>
      cases proxy with
      | none => simp [Owed.isIdle] at hidle
      | some p =>
        obtain ⟨k, hk⟩ := Option.ne_none_iff_exists'.1 (hs g p settled List.mem_cons_self)
        have hcons : ((.severing g (some p) settled :: o : List Owed).filterMap
            Owed.grip?).filterMap Grip.handle =
            k :: (o.filterMap Owed.grip?).filterMap Grip.handle :=
          List.filterMap_cons_some hk
        rw [hcons, List.length_cons, ih, List.countP_cons_of_pos rfl]
    | _ => exact ih

/-- The handles of a world are those of its holds and of the removals that are not finished. -/
theorem World.Tallied.handles {w : World σ} {o : List Owed} (hw : w.Tallied o)
    (hidle : o.countP Owed.isIdle = 0) :
    ∃ severed : List Nat, severed.length = o.countP Owed.isSevering ∧
      w.state.heap.handles.keys.Perm (w.state.entryHandles ++
        (w.state.stagedHandles ++ w.state.ownHandles) ++ severed) := by
  refine ⟨_, length_severed hidle hw.severing, hw.balanced.accounts.perm.trans (.of_eq ?_)⟩
  unfold State.holding State.entryHandles State.stagedHandles State.ownHandles
  rw [List.filterMap_append, List.filterMap_append, List.filterMap_append]

/-- The live handles of the foreign runtime, wherever foreign code or the host is in control: one for
each entry that is not released, one for each object staged by a running call, one for each hold that
foreign code or the host took for itself, and one for each entry that is being removed by a pass, a
teardown or a shutdown around this point. A strong entry keeps its proxy alive by a strong handle, a
weak entry has a weak one. -/
theorem live_handles_accounted {config : Config} {registry : Registry} {side : ForeignSide σ}
    {memory : σ} {start v : World σ} {rs : List Request} (hside : side.foreign.heap = .empty)
    (hstart : World.connect config registry side memory = .ok start)
    (hv : Session.Sees (fun _ _ => True) (fun _ => True) start rs v) :
    (∃ severed : List Nat,
      severed.length = (rs.countP fun r => r.situation.isSevering) ∧
      v.state.heap.handles.keys.Perm
        (v.state.entryHandles ++ (v.state.stagedHandles ++ v.state.ownHandles) ++ severed)) ∧
    v.state.heap.handles.keys.Nodup ∧
    v.state.bridge.frames.length = (rs.countP fun r => r.situation.isRedirected) ∧
    (∀ host g, v.state.bridge.entries.get? host = some g →
      match g.strength with
      | .strong => ∃ k a, g.handle = some k ∧
        v.state.heap.handles.get? k = some ⟨some a, false⟩ ∧ v.state.heap.isAlive a = true
      | .weak => ∃ k t, g.handle = some k ∧ v.state.heap.handles.get? k = some ⟨t, true⟩
      | .released => g.handle = none) ∧
    ∀ f ∈ v.state.bridge.frames, ∀ g ∈ f.roots, g.strength = .strong ∧
      ∃ k a, g.handle = some k ∧ v.state.heap.handles.get? k = some ⟨some a, false⟩ := by
  obtain ⟨o, ho, hsev, hidle, hframe⟩ :=
    Realm.sees (R := handleRealm σ) (World.tallied_connect hside hstart) hv
  -- What is owed around the point are the grips of the entries that are being removed there.
  have hhandles := ho.handles hidle
  rw [hsev] at hhandles
  obtain ⟨hb, hf, hs⟩ := ho
  have hheld (g : Grip) (hg : g ∈ v.state.holding) : g.Held v.state.heap :=
    hb.accounts.held g (List.mem_append_left _ hg)
  refine ⟨hhandles, hb.accounts.nodup, ?_, ?_, ?_⟩
  · rw [hf, hframe]
  · intro host g hg
    have hmem := Table.mem_values_of_get? hg
    have hgheld := hheld g (State.Balanced.mem_holding_of_entry hmem)
    have halive := hb.alive g hmem
    obtain ⟨_ | k, st⟩ := g
    · cases hgheld
      rfl
    · obtain ⟨hne, t, ht, -⟩ := hgheld
      cases st with
      | released => exact absurd rfl hne
      | weak => exact ⟨k, t, rfl, ht⟩
      | strong =>
        obtain ⟨a, ha⟩ := Option.isSome_iff_exists.1 (halive rfl)
        have ha : v.state.heap.target? k = some a := ha
        have hlive := Heap.isAlive_of_target? ha
        unfold Heap.target? at ha
        rw [ht] at ha
        obtain ⟨rfl, -⟩ := Option.filter_eq_some_iff.1 ha
        exact ⟨k, a, rfl, ht, hlive⟩
  · intro f hfm g hg
    have hmem : g ∈ v.state.bridge.frames.flatMap CallFrame.roots :=
      List.mem_flatMap.2 ⟨f, hfm, hg⟩
    have hst := hb.roots g hmem
    refine ⟨hst, ?_⟩
    have hgheld := hheld g (List.mem_append_right _ (List.mem_append_left _ hmem))
    obtain ⟨_ | k, st⟩ := g
    · cases hst
      cases hgheld
    · cases hst
      obtain ⟨-, t, ht, hsome⟩ := hgheld
      obtain ⟨a, rfl⟩ := Option.ne_none_iff_exists'.1 (hsome rfl)
      exact ⟨k, a, rfl, ht⟩

/-! ## A redirected call in the middle of a shutdown -/

/-- A shutdown begins by disconnecting the proxy of the first entry. -/
theorem Identity.shutdown_callsFirst {w : World σ} {host proxy : Address} {rest : List Address}
    {g : Grip} (hk : w.state.bridge.entries.keys = host :: rest)
    (hg : w.state.bridge.entries.get? host = some g) (hp : g.target? w.state.heap = some proxy) :
    (shutdown : Act σ Nat).CallsFirst w fun m _ u =>
      m = w.state.bridge.helpers.disconnect ∧ u = { w with state := w.state.eraseEntry host } := by
  unfold shutdown sever
  refine .after (fun _ => rfl) (.bind (.bind ?_))
  rw [hk, List.mapM_cons]
  refine .bind ?_
  unfold severOne
  refine .after (fun _ => rfl) ?_
  rw [hg]
  refine .after (fun _ => rfl) (.bind (.ensuring ?_))
  rw [hp]
  unfold Engine.disconnect
  exact .after (fun _ => rfl) (.bind (.callMethod ⟨rfl, rfl⟩))

/-- A call of a static function without parameters comes to its method, if its memory exists. -/
theorem Redirection.invoke_callsFirst {w : World σ} {key : Redirector.Key} {r : Redirector}
    {l : Linkage} {m : Nat} (hl : r.binding = .linked l m) (hp : r.function.params = [])
    (ha : l.args = [])
    (hb : ∃ f, Frame.make r.function.block.size r.function.block.align = .ok f)
    (hs : ∃ f, Frame.make l.scratchSize addressSize = .ok f)
    (hc : ∃ metrics, w.state.bridge.metrics.add Counter.calls 1 = .ok metrics)
    (stack : ArgStack) (result : Option Address) :
    (invoke key r none stack result : Act σ _).CallsFirst w fun m' _ u =>
      m' = m ∧ u.bodies = w.bodies := by
  obtain ⟨metrics, hc⟩ := hc
  obtain ⟨block, hb⟩ := hb
  obtain ⟨scratch, hs⟩ := hs
  have hcheck {size align : Nat} {f : Frame} (hf : Frame.make size align = .ok f) (v : World σ)
      (call : Invoker σ) : checkFrame size align call v = .ok () v := by
    unfold checkFrame
    rw [hf]
    rfl
  unfold invoke linked
  rw [hl, hp]
  refine .after (fun _ => rfl) ?_
  refine .after (fun _ => rfl) (.ensuring ?_)
  refine .after (fun _ => rfl) (.after (fun _ => rfl) (.after (v := ?_) (a := ()) ?_ ?_))
  rotate_left
  · intro call
    unfold Act.count
    show EStateM.bind (Act.ofOverflow (w.state.bridge.metrics.add Counter.calls 1) call) _ _ = _
    rw [hc]
    rfl
  · refine .after (hcheck hb _) (.after (hcheck hs _) (.after (fun _ => rfl) ?_))
    refine .after (fun _ => rfl) (.bind (.attempt ?_))
    rw [run_eq]
    exact .after (prepare_of_nil ha r.function []) (.bind (.callMethod ⟨rfl, rfl⟩))

namespace Sample

/-- Calls a redirected function of proxies, which runs a method that only looks. -/
def look : Request := .invoke ("P", "Look") none (.ofArgs []) none

/-- A library whose proxies look when they are disconnected. -/
def lookingMethods : List MethodInfo :=
  [⟨"G", ⟨"", "P", ".ctor", some ["intptr"]⟩, 1, 0⟩, ⟨"G", ⟨"", "P", "Look", some []⟩, 0, 0⟩]

def lookingBodies : List (Invocation → Program Unit) :=
  (fun _ => .ask look fun _ => .done none) :: List.replicate 15 fun _ => .done none

def lookingStart : World Unit := world lookingMethods lookingBodies

/-- Links the function and makes one proxy. -/
def prepare : Program Unit :=
  .ask (.defineType "G" "P") fun _ =>
  .ask (.defineClass ⟨"P", "P", "G", .native, false⟩ none) fun c =>
  .ask (.spawn c none "o") fun h =>
  .ask (.redirect ⟨"P", "Look", ⟨true, true, false, false⟩, [], ⟨0, 1⟩⟩
    ⟨"G", ⟨"", "P", "Look", some []⟩, []⟩) fun _ =>
  .ask (.link ("P", "Look")) fun _ =>
  .ask (.proxy h) fun _ => .done none

def looker : Redirector where
  function := ⟨"P", "Look", ⟨true, true, false, false⟩, [], ⟨0, 1⟩⟩
  method := ⟨"G", ⟨"", "P", "Look", some []⟩, []⟩
  binding := .linked ⟨[], none⟩ 15
  depth := 0

/-- There is one entry, and the function is linked. -/
def isPrepared (w : World Unit) : Bool :=
  w.state.bridge.entries.keys == [.hostObject 0] &&
    (w.state.bridge.entries.get? (.hostObject 0)).bind (·.target? w.state.heap) ==
      some (.foreign 0) &&
    w.state.redirector? ("P", "Look") == some looker && w.state.bridge.helpers.disconnect == 0 &&
    w.state.bridge.metrics == ⟨⟨[("proxies_created", 1)]⟩, ⟨[("link", [0])]⟩⟩

theorem run_prepare : endsIn 1 prepare lookingStart isPrepared = true := by
  decide +kernel

theorem look_callsFirst {w : World Unit} (hr : w.state.redirector? ("P", "Look") = some looker)
    (hm : w.state.bridge.metrics = ⟨⟨[("proxies_created", 1)]⟩, ⟨[("link", [0])]⟩⟩) :
    look.perform.CallsFirst w fun m _ u => m = 15 ∧ u.bodies = w.bodies := by
  have hbinding : looker.binding = .linked ⟨[], none⟩ 15 := rfl
  have hblock : ∃ f, Frame.make looker.function.block.size looker.function.block.align = .ok f :=
    ⟨_, rfl⟩
  have hscratch : ∃ f, Frame.make (Linkage.scratchSize ⟨[], none⟩) addressSize = .ok f := ⟨_, rfl⟩
  have hcount : ∃ metrics, w.state.bridge.metrics.add Counter.calls 1 = .ok metrics :=
    ⟨_, by rw [hm]; rfl⟩
  refine .after (fun _ => rfl) ?_
  rw [hr]
  exact .bind (Redirection.invoke_callsFirst hbinding rfl rfl hblock hscratch hcount _ _)

/-- A shutdown comes to the method that looks, through the method that disconnects. -/
theorem sees_look : ∃ v,
    Session.Sees (fun _ _ => True) (fun _ => True) lookingStart [look, .shutdown] v := by
  obtain ⟨w, a, hr, -, hrun⟩ := sees_of_endsIn run_prepare
  simp only [isPrepared, Bool.and_eq_true, beq_iff_eq] at hrun
  obtain ⟨⟨⟨⟨hkeys, hentry⟩, hlooker⟩, hdisconnect⟩, hmetrics⟩ := hrun
  obtain ⟨g, hg, hp⟩ := Option.bind_eq_some_iff.1 hentry
  obtain ⟨more, hbodies⟩ := bodies_of_run hr
  obtain ⟨m, inv, u, ⟨rfl, rfl⟩, hdisconnects⟩ :=
    (Identity.shutdown_callsFirst hkeys hg hp).makes (callAt 2)
  rw [hdisconnect] at hdisconnects
  obtain ⟨m', inv', u', ⟨rfl, hu'⟩, hlooks⟩ := (look_callsFirst
    (w := World.countCall { w with state := w.state.eraseEntry (.hostObject 0) } 0)
    hlooker hmetrics).makes (callAt 1)
  have hfirst : w.bodies[0]? = some fun _ => .ask look fun _ => .done none := by
    rw [← hbodies]
    rfl
  have hlast : u'.bodies[15]? = some fun _ => .done none := by
    rw [hu']
    show w.bodies[15]? = _
    rw [← hbodies]
    rfl
  -- The shutdown enters the method that disconnects, which enters the one that looks.
  have hvisit : Program.Visits (fun _ _ => True) 2 (.ask .shutdown fun _ => .done none) w
      (([] ++ [look]) ++ [.shutdown]) (u'.countCall 15) :=
    .within hdisconnects hfirst trivial (.within hlooks hlast trivial .here)
  exact ⟨_, w, _, 2, .ended .start trivial hr, trivial, hvisit⟩

end Sample

/-- `live_handles_accounted` where a shutdown made a redirected call: one handle is that of the entry
which is being removed. -/
theorem live_handles_accounted_in_shutdown :
    ∃ start v : World Unit,
      World.connect Sample.config .default (Sample.side Sample.lookingMethods Sample.lookingBodies)
        () = .ok start ∧
      Session.Sees (fun _ _ => True) (fun _ => True) start [Sample.look, .shutdown] v ∧
      ∃ severed : List Nat, severed.length = 1 ∧ v.state.heap.handles.keys.Perm
        (v.state.entryHandles ++ (v.state.stagedHandles ++ v.state.ownHandles) ++ severed) := by
  obtain ⟨v, hv⟩ := Sample.sees_look
  have hstart := Sample.connect_world Sample.lookingMethods Sample.lookingBodies
  exact ⟨_, v, hstart, hv, (live_handles_accounted rfl hstart hv).1⟩

/-- Inside a redirected call there may be a handle that is neither that of an entry, nor staged, nor
taken by foreign code: a shutdown holds the proxy that it disconnects. -/
theorem handles_not_only_listed :
    ¬ ∀ (config : Config) (registry : Registry) (side : ForeignSide Unit) (start v : World Unit)
      (key : Redirector.Key) (target : Option Address) (stack : ArgStack)
      (result : Option Address) (rest : List Request), side.foreign.heap = .empty →
      World.connect config registry side () = .ok start →
      Session.Sees (fun _ _ => True) (fun _ => True) start
        (.invoke key target stack result :: rest) v →
      v.state.heap.handles.keys.Perm
        (v.state.entryHandles ++ (v.state.stagedHandles ++ v.state.ownHandles)) := by
  intro hall
  obtain ⟨v, hv⟩ := Sample.sees_look
  have hstart := Sample.connect_world Sample.lookingMethods Sample.lookingBodies
  have hlisted := (hall _ _ _ _ v _ _ _ _ _ rfl hstart hv).length_eq
  obtain ⟨o, ho, hsev, hidle, -⟩ :=
    Realm.sees (R := handleRealm Unit) (World.tallied_connect rfl hstart) hv
  obtain ⟨severed, hlength, hperm⟩ := ho.handles hidle
  have hall := hperm.length_eq
  rw [List.length_append, hlisted, hlength, hsev] at hall
  have hone : ([Sample.look, .shutdown].countP fun r => r.situation.isSevering) = 1 := rfl
  omega

end TwinHeap
