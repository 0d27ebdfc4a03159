import TwinHeap.Proofs.Handles

/-!
# Firm entries — what it takes to lose a proxy

An entry that holds its proxy strongly is firm. It stays so through every change of the bridge but
three: its removal, the loosening of its hold, and the failed construction of its own proxy
(`Change.firm`). Collections of any number are none of them.
-/

namespace TwinHeap

namespace State

/-- The entry of `host` holds `proxy` by a strong handle. -/
def Firm (s : State) (host proxy : Address) : Prop :=
  ∃ g, s.bridge.entries.get? host = some g ∧ g.strength = .strong ∧
    g.gcHandle? s.heap = some ⟨some proxy, false⟩

variable {s s' : State} {gs : List Grip} {host proxy : Address}

/-- The proxy of a firm entry is alive and found. -/
theorem Firm.findProxy (h : s.Firm host proxy) (hb : s.Balanced gs) :
    s.findProxy host = some proxy := by
  obtain ⟨g, hg, hstrong, hhandle⟩ := h
  have hfind : s.findProxy host = g.target? s.heap := by
    unfold State.findProxy
    rw [hg]
    rfl
  have halive := hb.alive g (Table.mem_values_of_get? hg) hstrong
  rw [hfind]
  rw [Grip.target?_eq, hhandle] at halive ⊢
  obtain ⟨a, ha⟩ := Option.isSome_iff_exists.1 halive
  have hsome : some proxy = some a := (Option.filter_eq_some_iff.1 ha).1
  rw [ha, hsome]

/-- A strong entry whose proxy is found is firm. -/
theorem Balanced.firm (hb : s.Balanced gs) {g : Grip} (hg : s.bridge.entries.get? host = some g)
    (hstrong : g.strength = .strong) (hf : s.findProxy host = some proxy) : s.Firm host proxy := by
  have hheld := hb.accounts.held g
    (List.mem_append_left gs (mem_holding_of_entry (Table.mem_values_of_get? hg)))
  have hfind : s.findProxy host = g.target? s.heap := by
    unfold State.findProxy
    rw [hg]
    rfl
  refine ⟨g, hg, hstrong, ?_⟩
  obtain ⟨_ | k, st⟩ := g
  · cases hstrong
    cases hheld
  · cases hstrong
    obtain ⟨-, t, ht, -⟩ := hheld
    rw [hfind] at hf
    have hf : s.heap.target? k = some proxy := hf
    unfold Heap.target? at hf
    rw [ht] at hf
    obtain ⟨rfl, -⟩ := Option.filter_eq_some_iff.1 hf
    exact ht

/-- An entry stays firm where it and its handle stay the same. -/
theorem Firm.of_handle (h : s.Firm host proxy)
    (he : s'.bridge.entries.get? host = s.bridge.entries.get? host)
    (hh : ∀ g, s.bridge.entries.get? host = some g → g.gcHandle? s'.heap = g.gcHandle? s.heap) :
    s'.Firm host proxy := by
  obtain ⟨g, hg, hstrong, hhandle⟩ := h
  exact ⟨g, he.trans hg, hstrong, (hh g hg).trans hhandle⟩

/-- A change that leaves entries and handles alone. -/
theorem Firm.of_same (h : s.Firm host proxy) (he : s'.bridge.entries = s.bridge.entries)
    (hh : s'.heap.handles = s.heap.handles) : s'.Firm host proxy := by
  refine h.of_handle (by rw [he]) fun g _ => ?_
  unfold Grip.gcHandle?
  rw [hh]

namespace Balanced

variable {g : Grip}

theorem mem_entries (hg : s.bridge.entries.get? host = some g) : g ∈ s.holding ++ gs :=
  List.mem_append_left gs (mem_holding_of_entry (Table.mem_values_of_get? hg))

/-- The release of a hold that is no entry's. -/
theorem firm_releaseGrip {old : Grip} (hb : s.Balanced (old :: gs)) (h : s.Firm host proxy) :
    (s.releaseGrip old).Firm host proxy := by
  have ha : s.heap.Accounts (old :: (s.holding ++ gs)) := hb.accounts.congr List.perm_middle
  exact h.of_handle rfl fun g hg => Heap.gcHandle?_release ha (mem_entries hg)

/-- A hold that is made on anything. -/
theorem firm_makeGrip (hb : s.Balanced gs) (h : s.Firm host proxy) (target : Address)
    (st : Strength) : (s.withHeap (Grip.make s.heap target st).2).Firm host proxy :=
  h.of_handle rfl fun _ hg => Heap.gcHandle?_make hb.accounts (mem_entries hg) target st

/-- A hold that is no entry's is made tighter or looser. -/
theorem firm_setStrength {old : Grip} (hb : s.Balanced (old :: gs)) (h : s.Firm host proxy)
    (st : Strength) : (s.withHeap (old.setStrength s.heap st).2).Firm host proxy := by
  have ha : s.heap.Accounts (old :: (s.holding ++ gs)) := hb.accounts.congr List.perm_middle
  exact h.of_handle rfl fun g hg => Heap.gcHandle?_setStrength ha (mem_entries hg) st

/-- The entry of another host object is taken out. -/
theorem firm_eraseEntry (h : s.Firm host proxy) {other : Address} (hne : other ≠ host) :
    (s.eraseEntry other).Firm host proxy := by
  refine h.of_handle ?_ fun _ _ => rfl
  show (s.bridge.entries.erase other).get? host = _
  rw [Table.get?_erase, if_neg hne]

theorem firm_dropEntry (hb : s.Balanced gs) (h : s.Firm host proxy) {other : Address}
    (hne : other ≠ host) : (s.dropEntry other).Firm host proxy := by
  unfold State.dropEntry
  split
  · exact h
  · rename_i g hg
    exact (hb.eraseEntry hg).firm_releaseGrip (firm_eraseEntry h hne)

/-- Another host object gets a proxy. -/
theorem firm_addProxy (hb : s.Balanced gs) (h : s.Firm host proxy) {other : Address} {type : Nat}
    (hne : other ≠ host) (ht : s.foreign.isType type = true) :
    (s.addProxy other type).Firm host proxy := by
  have hmake := (hb.allocate (.object type .null)).firm_makeGrip (h.of_same rfl rfl)
    (.foreign s.heap.nextObject) .strong
  rw [State.addProxy_of_isType ht]
  refine hmake.of_handle ?_ fun _ _ => rfl
  show (s.bridge.entries.insert other _).get? host = _
  rw [Table.get?_insert, if_neg hne]
  rfl

/-- A collection keeps what strong handles hold. -/
theorem firm_collect (h : s.Firm host proxy) (full : Bool) :
    (s.withHeap (s.heap.collect full)).Firm host proxy := by
  obtain ⟨g, hg, hstrong, hhandle⟩ := h
  refine ⟨g, hg, hstrong, ?_⟩
  obtain ⟨_ | k, st⟩ := g
  · cases hhandle
  · have hhandle : s.heap.handles.get? k = some ⟨some proxy, false⟩ := hhandle
    exact Heap.handle_collect_of_strong hhandle rfl full

theorem firm_root (hb : s.Balanced gs) (h : s.Firm host proxy) (a : Address) :
    (s.root a).Firm host proxy := by
  unfold State.root
  split
  · exact h
  · exact (hb.firm_makeGrip h a .strong).of_same rfl rfl

theorem firm_leave (hb : s.Balanced gs) (h : s.Firm host proxy) (key : Redirector.Key) :
    (s.leave key).Firm host proxy := by
  unfold State.leave
  dsimp only
  split
  · exact h.of_same rfl rfl
  · rename_i f fs hf
    refine h.of_handle rfl fun g hg => ?_
    exact Heap.gcHandle?_releaseAll (hb.accounts_leave hf)
      (List.mem_append_left gs (List.mem_append_left _ (Table.mem_values_of_get? hg)))

/-- The entry of another host object is made tighter or looser. -/
theorem firm_tighten (hb : s.Balanced gs) (h : s.Firm host proxy) {other : Address} {old : Grip}
    (hold : s.bridge.entries.get? other = some old) (hne : other ≠ host) (st : Strength) :
    (s.tighten other old st).Firm host proxy := by
  refine ((hb.eraseEntry hold).firm_setStrength (firm_eraseEntry h hne) st).of_handle ?_
    fun _ _ => rfl
  show (s.bridge.entries.insert other _).get? host = (s.bridge.entries.erase other).get? host
  rw [Table.get?_insert, Table.get?_erase, if_neg hne, if_neg hne]

end Balanced

end State

/-- Whatever is asked for, a firm entry stays so, if it is not told to let go. -/
theorem Request.Outcome.firm {r : Request} {s s' : State} (ho : r.Outcome s s') {gs : List Grip}
    (hb : s.Balanced gs) {host proxy : Address} (hr : r ≠ .setRooted host false)
    (h : s.Firm host proxy) : s'.Firm host proxy := by
  cases ho with
  | setNative object native => exact h.of_same rfl (by cases object <;> rfl)
  | collect full => exact State.Balanced.firm_collect h full
  | hold target strength => exact (hb.firm_makeGrip h target strength).of_same rfl rfl
  | @regrip i _ hold strength =>
    have herase : (s.eraseGrip i).Firm host proxy := h.of_same rfl rfl
    exact ((hb.eraseGrip hold).firm_setStrength herase strength).of_same rfl rfl
  | @letGo i _ hold =>
    have herase : (s.eraseGrip i).Firm host proxy := h.of_same rfl rfl
    exact (hb.eraseGrip hold).firm_releaseGrip herase
  | @setRooted other old rooted hold hs =>
    refine hb.firm_tighten h hold ?_ _
    rintro rfl
    -- A firm entry is strong, and it is not told to let go.
    obtain ⟨g, hg, hstrong, -⟩ := h
    obtain rfl := Option.some.inj (hold.symm.trans hg)
    cases rooted with
    | false => exact hr rfl
    | true => exact hs hstrong
  | _ => exact h.of_same rfl rfl

/-- The proxy of the host object is being constructed. -/
def Owed.makes (host : Address) : Owed → Bool
  | .making host' _ _ => host' == host
  | _ => false

theorem Owed.makes_core (host : Address) (d : Owed) : d.core.makes host = d.makes host := by
  cases d <;> rfl

theorem Owed.countP_makes_of_core {o o' : List Owed} (host : Address)
    (hc : o'.map Owed.core = o.map Owed.core) :
    o'.countP (Owed.makes host) = o.countP (Owed.makes host) := by
  have hcount (o : List Owed) : (o.map Owed.core).countP (Owed.makes host) =
      o.countP (Owed.makes host) := by
    rw [List.countP_map]
    exact List.countP_congr fun d _ => by rw [Function.comp_apply, Owed.makes_core]
  rw [← hcount, hc, hcount]

/-- Where the bridge makes no proxy for a host object, no debts of that kind are added. -/
theorem Change.countP_makes {T : Terms} {o o' : List Owed} {s s' : State}
    (hc : Change T o s o' s') {host : Address} (hm : ¬T.mayMake host) :
    o'.countP (Owed.makes host) ≤ o.countP (Owed.makes host) := by
  cases hc with
  | @make _ _ other _ _ hmake =>
    have hne : (Owed.making other (.foreign s.heap.nextObject) .raw).makes host = false := by
      show (other == host) = false
      rw [beq_eq_false_iff_ne]
      rintro rfl
      exact hm hmake
    rw [List.countP_cons, hne]
    exact Nat.le_refl _
  | openCell | sever | enter => exact Nat.le_of_eq (List.countP_cons_of_neg (by exact Bool.false_ne_true))
  | closeCell | made | unmake | severed | leave =>
    rw [List.countP_cons]
    exact Nat.le_add_right _ _
  | _ => exact Nat.le_refl _

/-- Where the bridge may not sever the host object or loosen its hold, and gives up no construction of
its proxy that was not owed before, its entry stays firm. -/
theorem Change.firm {T : Terms} {o o' : List Owed} {s s' : State} (hc : Change T o s o' s')
    {host proxy : Address} (hb : s.Balanced (o.filterMap Owed.grip?)) (hs : ¬T.maySever host)
    (hr : ¬T.mayAsk (.setRooted host false))
    (hm : o.countP (Owed.makes host) ≤
      max (T.base.countP (Owed.makes host)) (o'.countP (Owed.makes host)))
    (h : s.Firm host proxy) : s'.Firm host proxy := by
  cases hc with
  | @write _ _ a =>
    exact h.of_same (by cases a <;> rfl) (by cases a <;> rfl)
  | @store _ _ a =>
    exact h.of_same (by cases a <;> rfl) (by cases a <;> rfl)
  | collect _ full => exact State.Balanced.firm_collect h full
  | @clear _ _ other hn =>
    refine hb.firm_dropEntry h ?_
    rintro rfl
    rw [h.findProxy hb] at hn
    cases hn
  | @make _ _ other _ _ _ hn _ ht =>
    refine hb.firm_addProxy h ?_ ht
    rintro rfl
    obtain ⟨g, hg, -⟩ := h
    rw [hn] at hg
    cases hg
  | @unmake _ _ other p hbase =>
    refine hb.firm_dropEntry h ?_
    rintro rfl
    -- What the change gives back was not owed before.
    obtain ⟨t, rfl⟩ := hbase
    have hself : (Owed.making other p .broken).makes other = true := beq_self_eq_true other
    rw [List.countP_cons_of_pos hself, List.countP_append] at hm
    omega
  | @sever _ _ other _ _ hsever _ =>
    refine State.Balanced.firm_eraseEntry h ?_
    rintro rfl
    exact hs hsever
  | severed => exact hb.firm_releaseGrip h
  | leave => exact hb.firm_leave h _
  | root a => exact hb.firm_root h a
  | alone _ hask hf =>
    refine (Request.outcome hf _).firm hb ?_ h
    rintro rfl
    exact hr hask
  | _ => exact h.of_same rfl rfl

end TwinHeap
