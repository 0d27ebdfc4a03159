import TwinHeap.Proofs.Anchors
import TwinHeap.Proofs.Rooting

/-!
# Tightness — what making the hold of an entry strong or weak comes to

A hold changes its strength by a new handle on the object that the old handle led to. So the proxy of
every host object is found where it was found before, and if this one is found, its entry has one
handle of the strength asked for, where it had one before. The answer says so truly, with one exception:
an orphan that is to be made weak is weak already, and nobody looks at its target.
-/

namespace TwinHeap

variable {σ : Type}

namespace State

/-- How tightly the entry of a host object holds its proxy, if there is an entry. -/
def strength? (s : State) (host : Address) : Option Strength :=
  (s.bridge.entries.get? host).map Grip.strength

/-- The entry of `host` holds `p` by the handle `k`, and by nothing else. -/
structure HoldsBy (s : State) (host p : Address) (st : Strength) (k : Nat) : Prop where
  entry : s.bridge.entries.get? host = some ⟨some k, st⟩
  handle : s.heap.handles.get? k = some ⟨some p, st == .weak⟩
  alone : ∀ g ∈ (s.eraseEntry host).holding, g.handle ≠ some k

variable {s : State} {gs : List Grip} {host other p : Address} {rooted : Bool}

/-! ## What one call does -/

/-- If the answer is yes, the entry is as tight as asked for; otherwise there is none, or its hold is
released. -/
theorem answer_setRooted (s : State) (host : Address) (rooted : Bool) :
    ((s.setRooted host rooted).1 = true ∧
      (s.setRooted host rooted).2.strength? host = some (.ofRooted rooted)) ∨
    ((s.setRooted host rooted).1 = false ∧ ((s.setRooted host rooted).2.strength? host = none ∨
      (s.setRooted host rooted).2.strength? host = some .released)) := by
  rw [setRooted_eq]
  cases hold : s.bridge.entries.get? host with
  | none => exact .inr ⟨rfl, .inl (congrArg (Option.map Grip.strength) hold)⟩
  | some old =>
    dsimp only
    by_cases hsame : old.strength = .ofRooted rooted
    · rw [if_pos hsame]
      exact .inl ⟨rfl, (congrArg (Option.map Grip.strength) hold).trans (congrArg some hsame)⟩
    · rw [if_neg hsame]
      have hentry : (s.tighten host old (.ofRooted rooted)).strength? host =
          some (old.setStrength s.heap (.ofRooted rooted)).1.strength := by
        unfold strength? tighten
        rw [Table.get?_insert, if_pos rfl]
        rfl
      obtain hst | hst := Heap.strength_setStrength old s.heap (.ofRooted rooted)
      · exact .inl ⟨by rw [hst]; cases rooted <;> rfl, hentry.trans (congrArg some hst)⟩
      · exact .inr ⟨by rw [hst]; rfl, .inr (hentry.trans (congrArg some hst))⟩

theorem strength_setRooted {g : Grip}
    (hg : (s.setRooted host rooted).2.bridge.entries.get? host = some g) :
    (g.strength = .ofRooted rooted ∧ (s.setRooted host rooted).1 = true) ∨
      g.strength = .released := by
  have hst : (s.setRooted host rooted).2.strength? host = some g.strength :=
    congrArg (Option.map Grip.strength) hg
  obtain ⟨hanswer, h⟩ | ⟨-, h | h⟩ := s.answer_setRooted host rooted
  · exact .inl ⟨Option.some.inj (hst.symm.trans h), hanswer⟩
  · cases hst.symm.trans h
  · exact .inr (Option.some.inj (hst.symm.trans h))

/-- Without an entry that is held, nothing is done to entry or handles. -/
theorem setRooted_of_unheld (rooted : Bool)
    (h : ∀ g, s.bridge.entries.get? host = some g → g.strength = .released) :
    (s.setRooted host rooted).2.bridge.entries.get? host = s.bridge.entries.get? host ∧
      (s.setRooted host rooted).2.heap = s.heap := by
  rw [setRooted_eq]
  cases hg : s.bridge.entries.get? host with
  | none => exact ⟨hg, rfl⟩
  | some g =>
    have hreleased := h g hg
    have hne : g.strength ≠ .ofRooted rooted := by
      rw [hreleased]
      exact (Strength.ofRooted_ne_released rooted).symm
    dsimp only
    rw [if_neg hne]
    unfold tighten
    rw [Heap.setStrength_of_released hreleased]
    exact ⟨(Table.get?_insert ..).trans (if_pos rfl), rfl⟩

theorem get?_setRooted_of_ne (s : State) (rooted : Bool) (hne : host ≠ other) :
    (s.setRooted host rooted).2.bridge.entries.get? other = s.bridge.entries.get? other := by
  obtain he | ⟨old, st, -, -, he⟩ := s.setRooted_cases host rooted
  · rw [he]
  · rw [he]
    exact (Table.get?_insert ..).trans (if_neg hne)

namespace Balanced

theorem setRooted (hb : s.Balanced gs) (host : Address) (rooted : Bool) :
    (s.setRooted host rooted).2.Balanced gs :=
  (Request.outcome (r := .setRooted host rooted) rfl s).balanced hb

/-- The proxies of all host objects are found where they were. -/
theorem findProxy_setRooted (hb : s.Balanced gs) (host : Address) (rooted : Bool) (a : Address) :
    (s.setRooted host rooted).2.findProxy a = s.findProxy a := by
  obtain he | ⟨old, st, hold, hst, he⟩ := s.setRooted_cases host rooted
  · rw [he]
  · rw [he]
    exact hb.findProxy_tighten hold hst a

theorem gcHandle?_setRooted (hb : s.Balanced gs) (rooted : Bool) (hne : host ≠ other) {g : Grip}
    (hg : s.bridge.entries.get? other = some g) :
    g.gcHandle? (s.setRooted host rooted).2.heap = g.gcHandle? s.heap := by
  obtain he | ⟨old, st, hold, -, he⟩ := s.setRooted_cases host rooted
  · rw [he]
  · rw [he]
    exact hb.gcHandle?_tighten hold st hne hg

/-! ## Entries that lead to a proxy -/

/-- An entry that leads to a proxy does so by one handle of its own. -/
theorem holdsBy (hb : s.Balanced gs) (h : s.findProxy host = some p) :
    ∃ st k, st ≠ .released ∧ s.HoldsBy host p st k := by
  obtain ⟨⟨_ | k, st⟩, hg, ht⟩ := findProxy_eq_some.1 h
  · cases ht
  have hheld := hb.accounts.held _ (mem_entries hg)
  obtain ⟨hst, t, hhandle, -⟩ := hheld
  have htarget : t = some p := by
    rw [Grip.target?_eq] at ht
    have ht : ((s.heap.handles.get? k).bind GcHandle.target).filter s.heap.isAlive = some p := ht
    rw [hhandle] at ht
    exact (Option.filter_eq_some_iff.1 ht).1
  subst htarget
  refine ⟨st, k, hst, hg, hhandle, fun g hmem => ?_⟩
  have haccounts := (hb.eraseEntry hg).accounts.congr List.perm_middle
  exact haccounts.handle_ne (List.mem_append_left gs hmem) rfl

/-- An entry whose hold was not released leads to a proxy, or is that of an orphan. -/
theorem findProxy_or_orphaned (hb : s.Balanced gs) {g : Grip}
    (hg : s.bridge.entries.get? host = some g) (hst : g.strength ≠ .released) :
    (s.findProxy host).isSome = true ∨ s.Orphaned host := by
  have hfind : s.findProxy host = g.target? s.heap := by
    unfold findProxy
    rw [hg]
    rfl
  rw [hfind]
  cases hheld : g.strength with
  | strong => exact .inl (hb.alive g (Table.mem_values_of_get? hg) hheld)
  | weak =>
    cases htarget : g.target? s.heap with
    | some p => exact .inl rfl
    | none => exact .inr ⟨g, hg, hheld, htarget⟩
  | released => exact absurd hheld hst

/-- An orphan has been one before, and was to be made weak. -/
theorem orphaned_of_setRooted (hb : s.Balanced gs)
    (h : (s.setRooted host rooted).2.Orphaned host) : rooted = false ∧ s.Orphaned host := by
  obtain ⟨g, hg, hweak, hgone⟩ := h
  have hnone : s.findProxy host = none := by
    rw [← hb.findProxy_setRooted host rooted]
    unfold findProxy
    rw [hg]
    exact hgone
  constructor
  · obtain ⟨hst, -⟩ | hst := strength_setRooted hg
    · cases rooted with
      | false => rfl
      | true => cases hweak.symm.trans hst
    · cases hweak.symm.trans hst
  · by_cases hunheld : ∀ old, s.bridge.entries.get? host = some old → old.strength = .released
    · rw [(setRooted_of_unheld rooted hunheld).1] at hg
      cases hweak.symm.trans (hunheld g hg)
    · simp only [Classical.not_forall] at hunheld
      obtain ⟨old, hold, hst⟩ := hunheld
      refine (hb.findProxy_or_orphaned hold hst).resolve_left fun hfound => ?_
      rw [hnone] at hfound
      cases hfound

/-- Where an entry had a handle and has one, all other handles are as they were. -/
theorem erase_handles_setRooted (hb : s.Balanced gs) {k k' : Nat} {st st' : Strength}
    (hg : s.bridge.entries.get? host = some ⟨some k, st⟩)
    (hg' : (s.setRooted host rooted).2.bridge.entries.get? host = some ⟨some k', st'⟩) :
    (s.setRooted host rooted).2.heap.handles.erase k' = s.heap.handles.erase k := by
  obtain he | ⟨old, want, hold, hne, he⟩ := s.setRooted_cases host rooted
  · rw [he] at hg' ⊢
    cases hg.symm.trans hg'
    rfl
  · rw [he] at hg' ⊢
    cases hg.symm.trans hold
    have hg' : (s.bridge.entries.insert host _).get? host = some ⟨some k', st'⟩ := hg'
    rw [Table.get?_insert, if_pos rfl] at hg'
    show (Grip.setStrength _ s.heap want).2.handles.erase k' = _
    obtain hset | ⟨hset, -⟩ | ⟨target, -, hset⟩ :=
      Heap.setStrength_cases ⟨some k, st⟩ s.heap want
    · rw [hset] at hg' ⊢
      cases hg'
      rfl
    · rw [hset] at hg'
      cases hg'
    · -- The new handle is put in beside those that are left, and is none of them.
      rw [hset, Heap.make_eq _ _ hne] at hg' ⊢
      cases hg'
      show ((s.heap.handles.erase k).insert s.heap.nextHandle _).erase s.heap.nextHandle = _
      rw [Table.erase_insert, Table.erase_of_get?_none]
      rw [Table.get?_erase, Table.get?_eq_none.2 (Heap.next_notMem_handles hb.accounts)]
      exact ite_self none

end Balanced

/-! ## What is answered, and what is so -/

/-- The answer to a call that roots or unroots an entry, and the state it leaves, are as they should. -/
structure RootsTruly (s : State) (host : Address) (rooted answer : Bool) (s' : State) : Prop where
  /-- The answer says whether there is a proxy. -/
  answered : rooted = true ∨ ¬s.Orphaned host → (answer = true ↔ (s'.findProxy host).isSome = true)
  /-- If there is one, it was there before; one handle of its entry takes the place of another. -/
  held : ∀ p, s'.findProxy host = some p → answer = true ∧ s.findProxy host = some p ∧
    ∃ st k k', s.HoldsBy host p st k ∧ s'.HoldsBy host p (.ofRooted rooted) k' ∧
      s'.heap.handles.erase k' = s.heap.handles.erase k ∧
      s'.heap.handles.size = s.heap.handles.size
  /-- The entries of others are left alone, with their handles and proxies. -/
  others : ∀ other, host ≠ other →
    s'.bridge.entries.get? other = s.bridge.entries.get? other ∧
      (∀ g, s.bridge.entries.get? other = some g → g.gcHandle? s'.heap = g.gcHandle? s.heap) ∧
      s'.findProxy other = s.findProxy other

theorem Balanced.rootsTruly (hb : s.Balanced gs) (host : Address) (rooted : Bool) :
    s.RootsTruly host rooted (s.setRooted host rooted).1 (s.setRooted host rooted).2 := by
  have hb' := hb.setRooted host rooted
  have hheld (p : Address) (hp : (s.setRooted host rooted).2.findProxy host = some p) :
      ∃ k', (s.setRooted host rooted).1 = true ∧
        (s.setRooted host rooted).2.HoldsBy host p (.ofRooted rooted) k' := by
    obtain ⟨st, k', hst, hby⟩ := hb'.holdsBy hp
    obtain ⟨rfl, hanswer⟩ | hreleased := strength_setRooted hby.entry
    · exact ⟨k', hanswer, hby⟩
    · exact absurd hreleased hst
  constructor
  case answered =>
    intro hcase
    constructor
    · intro hanswer
      -- An entry that is held and has no proxy is one whose proxy was collected, and then the handle
      -- was weak before as well.
      obtain ⟨-, hstrength⟩ | ⟨hno, -⟩ := s.answer_setRooted host rooted
      case inr => cases hanswer.symm.trans hno
      obtain ⟨g, hg, hst⟩ := Option.map_eq_some_iff.1 hstrength
      have hne : g.strength ≠ .released := hst ▸ Strength.ofRooted_ne_released rooted
      refine (hb'.findProxy_or_orphaned hg hne).resolve_right fun horphaned => ?_
      obtain ⟨rfl, hbefore⟩ := hb.orphaned_of_setRooted horphaned
      exact hcase.elim Bool.noConfusion (absurd hbefore)
    · intro hfound
      obtain ⟨p, hp⟩ := Option.isSome_iff_exists.1 hfound
      obtain ⟨-, hanswer, -⟩ := hheld p hp
      exact hanswer
  case held =>
    intro p hp
    obtain ⟨k', hanswer, hby'⟩ := hheld p hp
    rw [hb.findProxy_setRooted] at hp
    obtain ⟨st, k, -, hby⟩ := hb.holdsBy hp
    have herase := hb.erase_handles_setRooted hby.entry hby'.entry
    refine ⟨hanswer, hp, st, k, k', hby, hby', herase, ?_⟩
    have hsize := Table.size_erase hb.accounts.nodup hby.handle
    have hsize' := Table.size_erase hb'.accounts.nodup hby'.handle
    rw [herase] at hsize'
    omega
  case others =>
    intro other hne
    exact ⟨get?_setRooted_of_ne s rooted hne, fun _ hg => hb.gcHandle?_setRooted rooted hne hg,
      hb.findProxy_setRooted host rooted other⟩

/-- What unrooting an entry and rooting it again leaves as it was. -/
structure Regains (s : State) (host : Address) (s' : State) : Prop where
  proxy : s'.findProxy host = s.findProxy host
  /-- An entry that was not weak is as tight as before, and there are as many handles. -/
  kept : s.strength? host ≠ some .weak →
    s'.strength? host = s.strength? host ∧ s'.heap.handles.size = s.heap.handles.size
  /-- With a proxy, the entry ends strong, and there are as many handles. -/
  tight : (s.findProxy host).isSome = true →
    s'.strength? host = some .strong ∧ s'.heap.handles.size = s.heap.handles.size

/-- An entry that leads to a proxy ends strong, and takes no more handles. -/
theorem Balanced.tight_again (hb : s.Balanced gs) (hfound : (s.findProxy host).isSome = true) :
    ((s.setRooted host false).2.setRooted host true).2.strength? host = some .strong ∧
      ((s.setRooted host false).2.setRooted host true).2.heap.handles.size =
        s.heap.handles.size := by
  obtain ⟨p, hp⟩ := Option.isSome_iff_exists.1 hfound
  have hb' := hb.setRooted host false
  have hmiddle := (hb.findProxy_setRooted host false host).trans hp
  have hend := (hb'.findProxy_setRooted host true host).trans hmiddle
  obtain ⟨-, -, _, _, _, -, -, -, hsize⟩ := (hb.rootsTruly host false).held p hmiddle
  obtain ⟨-, -, _, _, _, -, hby, -, hsize'⟩ := (hb'.rootsTruly host true).held p hend
  exact ⟨congrArg (Option.map Grip.strength) hby.entry, hsize'.trans hsize⟩

theorem Balanced.regains (hb : s.Balanced gs) (host : Address) :
    s.Regains host ((s.setRooted host false).2.setRooted host true).2 where
  proxy := by rw [(hb.setRooted host false).findProxy_setRooted, hb.findProxy_setRooted]
  tight := hb.tight_again
  kept hne := by
    -- Without a hold nothing is changed either time.
    by_cases hunheld : ∀ g, s.bridge.entries.get? host = some g → g.strength = .released
    · obtain ⟨hentry, hheap⟩ := setRooted_of_unheld false hunheld
      obtain ⟨hentry', hheap'⟩ := setRooted_of_unheld true fun g hg => hunheld g (hentry ▸ hg)
      refine ⟨congrArg (Option.map Grip.strength) (hentry'.trans hentry), ?_⟩
      rw [hheap', hheap]
    · simp only [Classical.not_forall] at hunheld
      obtain ⟨g, hg, hst⟩ := hunheld
      have hstrength : s.strength? host = some g.strength := congrArg (Option.map Grip.strength) hg
      rw [hstrength] at hne ⊢
      obtain hfound | ⟨g', hg', hweak, -⟩ := hb.findProxy_or_orphaned hg hst
      · -- What is held, and not weakly, is held strongly.
        have hstrong : g.strength = .strong := by
          cases hheld : g.strength with
          | strong => rfl
          | weak => exact absurd (congrArg some hheld) hne
          | released => exact absurd hheld hst
        rw [hstrong]
        exact hb.tight_again hfound
      · cases hg.symm.trans hg'
        exact absurd (congrArg some hweak) hne

end State

/-! ## In a session -/

/-- Along a session, every handle has one owner. -/
theorem Along.balanced {config : Config} {registry : Registry} {side : ForeignSide σ} {memory : σ}
    {start : World σ} (hside : side.foreign.heap = .empty)
    (hstart : World.connect config registry side memory = .ok start) {ps : List (Nat × Program σ)}
    {x : Spot σ} (hx : Along start ps x) : ∃ gs, x.world.state.Balanced gs := by
  have hfirst : Haunted start ps [] start :=
    ⟨World.tallied_connect hside hstart, fun host h => absurd h (World.not_ghost_connect hstart host)⟩
  obtain ⟨o, hw, -⟩ := hx.upholds (upholds_haunted start ps) hfirst
  exact ⟨_, hw.balanced⟩

/-- Wherever foreign code or the host is in control, rooting or unrooting the entry of a host object
answers whether the object has a proxy, unless an orphan is unrooted. A proxy that there is afterwards
was there before, one handle of the strength asked for holds it for the entry, and the entries of others
are left alone. Unrooting an entry and rooting it again regains what there was; but a weak entry that has
a proxy ends strong. -/
theorem rooting_truthful {config : Config} {registry : Registry} {side : ForeignSide σ} {memory : σ}
    {start : World σ} (hside : side.foreign.heap = .empty)
    (hstart : World.connect config registry side memory = .ok start) {ps : List (Nat × Program σ)}
    {x : Spot σ} (hx : Along start ps x) (host : Address) :
    (∀ rooted, x.world.state.RootsTruly host rooted (x.world.state.setRooted host rooted).1
      (x.world.state.setRooted host rooted).2) ∧
    x.world.state.Regains host ((x.world.state.setRooted host false).2.setRooted host true).2 := by
  obtain ⟨gs, hb⟩ := hx.balanced hside hstart
  exact ⟨hb.rootsTruly host, hb.regains host⟩

namespace Sample

/-- A proxy is made for a new host object, and then `after` is done. -/
def proxied (after : Address → Program Unit) : Program Unit :=
  .ask (.defineType "G" "P") fun _ =>
  .ask (.defineClass ⟨"P", "P", "G", .native, false⟩ none) fun c =>
  .ask (.spawn c none "A") fun a =>
  .ask (.proxy a) fun _ => after a

/-- The entry is left strong. -/
def keeping : Program Unit := proxied fun _ => .done none

/-- The entry is made weak. -/
def loosening : Program Unit := proxied fun a => .ask (.setRooted a false) fun _ => .done none

/-- The entry is made weak, and its proxy is collected. -/
def orphaning : Program Unit :=
  proxied fun a => .ask (.setRooted a false) fun _ => .ask .sweep fun _ => .done none

/-- What holds when a program was run holds at a point of a session. -/
theorem along_of_run {p : Program Unit} (check : State → Bool)
    (h : endsIn 2 p rootingStart (fun w => check w.state) = true) :
    ∃ w : World Unit, Along rootingStart [(2, p), (2, .done none)] ⟨2, [], .done none, w⟩ ∧
      check w.state = true := by
  obtain ⟨w, a, hr, -, hcheck⟩ := sees_of_endsIn h
  exact ⟨w, .begins (.ended .start hr) (List.prefix_refl _), hcheck⟩

theorem along_keeping : ∃ w : World Unit,
    Along rootingStart [(2, keeping), (2, .done none)] ⟨2, [], .done none, w⟩ ∧
      (w.state.findProxy (.hostObject 0)).isSome = true :=
  along_of_run (fun s => (s.findProxy (.hostObject 0)).isSome) (by decide +kernel)

/-- A proxy can be held weakly. -/
theorem along_loosening : ∃ w : World Unit,
    Along rootingStart [(2, loosening), (2, .done none)] ⟨2, [], .done none, w⟩ ∧
      (w.state.findProxy (.hostObject 0)).isSome = true ∧
      w.state.strength? (.hostObject 0) = some .weak := by
  obtain ⟨w, hx, hcheck⟩ := along_of_run (p := loosening)
    (fun s => (s.findProxy (.hostObject 0)).isSome &&
      s.strength? (.hostObject 0) == some .weak) (by decide +kernel)
  obtain ⟨hfound, hweak⟩ := Bool.and_eq_true_iff.1 hcheck
  exact ⟨w, hx, hfound, beq_iff_eq.1 hweak⟩

/-- An entry can be weak while its proxy is gone. -/
theorem along_orphaning : ∃ w : World Unit,
    Along rootingStart [(2, orphaning), (2, .done none)] ⟨2, [], .done none, w⟩ ∧
      w.state.findProxy (.hostObject 0) = none ∧
      w.state.strength? (.hostObject 0) = some .weak := by
  obtain ⟨w, hx, hcheck⟩ := along_of_run (p := orphaning)
    (fun s => s.findProxy (.hostObject 0) == none &&
      s.strength? (.hostObject 0) == some .weak) (by decide +kernel)
  obtain ⟨hnone, hweak⟩ := Bool.and_eq_true_iff.1 hcheck
  exact ⟨w, hx, beq_iff_eq.1 hnone, beq_iff_eq.1 hweak⟩

end Sample

/-- `rooting_truthful` where a proxy is held: it is unrooted, which is answered, and rooted again. -/
theorem rooting_truthful_of_keeping : ∃ w : World Unit,
    Along Sample.rootingStart [(2, Sample.keeping), (2, .done none)] ⟨2, [], .done none, w⟩ ∧
      (w.state.setRooted (.hostObject 0) false).1 = true ∧
      ((w.state.setRooted (.hostObject 0) false).2.setRooted (.hostObject 0) true).2.strength?
        (.hostObject 0) = some .strong := by
  obtain ⟨w, hx, hfound⟩ := Sample.along_keeping
  obtain ⟨htruly, hregains⟩ :=
    rooting_truthful rfl (Sample.connect_world _ _) hx (.hostObject 0)
  obtain ⟨p, hp⟩ := Option.isSome_iff_exists.1 hfound
  obtain ⟨gs, hb⟩ := hx.balanced rfl (Sample.connect_world _ _)
  have hstill : (w.state.setRooted (.hostObject 0) false).2.findProxy (.hostObject 0) = some p :=
    (hb.findProxy_setRooted _ _ _).trans hp
  exact ⟨w, hx, ((htruly false).held p hstill).1, (hregains.tight hfound).1⟩

/-- Unrooting the entry of an orphan is answered with yes; and a weak entry that has a proxy is strong
when it was unrooted and rooted. -/
theorem rooting_not_truthful_of_weak :
    (∃ w : World Unit,
      Along Sample.rootingStart [(2, Sample.orphaning), (2, .done none)] ⟨2, [], .done none, w⟩ ∧
        (w.state.setRooted (.hostObject 0) false).1 = true ∧
        (w.state.setRooted (.hostObject 0) false).2.findProxy (.hostObject 0) = none) ∧
      ∃ w : World Unit,
        Along Sample.rootingStart [(2, Sample.loosening), (2, .done none)] ⟨2, [], .done none, w⟩ ∧
          w.state.strength? (.hostObject 0) = some .weak ∧
          ((w.state.setRooted (.hostObject 0) false).2.setRooted (.hostObject 0) true).2.strength?
            (.hostObject 0) = some .strong := by
  constructor
  · obtain ⟨w, hx, hnone, hweak⟩ := Sample.along_orphaning
    obtain ⟨gs, hb⟩ := hx.balanced rfl (Sample.connect_world _ _)
    refine ⟨w, hx, ?_, (hb.findProxy_setRooted _ _ _).trans hnone⟩
    obtain ⟨g, hg, hst⟩ := Option.map_eq_some_iff.1 hweak
    rw [State.setRooted_eq, hg]
    dsimp only
    rw [if_pos (show g.strength = .ofRooted false from hst)]
  · obtain ⟨w, hx, hfound, hweak⟩ := Sample.along_loosening
    obtain ⟨gs, hb⟩ := hx.balanced rfl (Sample.connect_world _ _)
    exact ⟨w, hx, hweak, ((hb.regains (.hostObject 0)).tight hfound).1⟩

end TwinHeap
