import TwinHeap.Proofs.Spots

/-!
# Rooting — what becomes of the hold of an entry

An entry of the identity table holds its proxy strongly or weakly. Removing an entry releases its hold,
and so does one thing that leaves the entry where it is: making the hold strong again when it is weak
and the proxy is gone. `released_entry_origin` traces every released hold in the table back to that.
-/

namespace TwinHeap

variable {σ : Type}

/-! ## Who releases the hold of an entry -/

/-- A hold that is made strong or weak is released then only if it was before, or if its target is
gone. -/
theorem Grip.released_of_setStrength {g : Grip} {h : Heap} {strength : Strength}
    (hne : strength ≠ .released) (hreleased : (g.setStrength h strength).1.strength = .released) :
    g.strength = .released ∨ g.target? h = none := by
  obtain he | ⟨-, hst | hgone⟩ | ⟨target, -, he⟩ := Heap.setStrength_cases g h strength
  · rw [he] at hreleased
    exact .inl hreleased
  · exact absurd hst hne
  · exact .inr hgone
  · rw [he, Heap.make_eq _ _ hne] at hreleased
    exact absurd hreleased hne

namespace State

/-- The entry of a host object is weak, and its proxy is gone. -/
def Orphaned (s : State) (host : Address) : Prop :=
  ∃ g, s.bridge.entries.get? host = some g ∧ g.strength = .weak ∧ g.target? s.heap = none

/-- The entry of a host object is there while its hold is released. -/
def Ghost (s : State) (host : Address) : Prop :=
  ∃ g, s.bridge.entries.get? host = some g ∧ g.strength = .released

variable {s s' : State} {gs : List Grip} {host a : Address}

theorem Ghost.of_entries (h : s'.Ghost a) (he : s'.bridge.entries = s.bridge.entries) : s.Ghost a := by
  obtain ⟨g, hg, hreleased⟩ := h
  exact ⟨g, he ▸ hg, hreleased⟩

theorem entry_of_eraseEntry {g : Grip} (h : (s.eraseEntry host).bridge.entries.get? a = some g) :
    s.bridge.entries.get? a = some g := by
  have h : (s.bridge.entries.erase host).get? a = some g := h
  rw [Table.get?_erase] at h
  split at h
  · cases h
  · exact h

theorem entry_of_dropEntry {g : Grip} (h : (s.dropEntry host).bridge.entries.get? a = some g) :
    s.bridge.entries.get? a = some g := by
  unfold dropEntry at h
  split at h
  · exact h
  · exact entry_of_eraseEntry h

/-- A new entry is strong. -/
theorem entry_of_addProxy {type : Nat} {g : Grip}
    (h : (s.addProxy host type).bridge.entries.get? a = some g) :
    g.strength = .strong ∨ s.bridge.entries.get? a = some g := by
  have hentries : (s.instantiate type).2.bridge.entries = s.bridge.entries := by
    unfold instantiate
    split <;> rfl
  have h : ((s.instantiate type).2.bridge.entries.insert host _).get? a = some g := h
  rw [Table.get?_insert] at h
  split at h
  · cases h
    exact .inl rfl
  · exact .inr (hentries ▸ h)

/-- Rooting the entry of an orphan releases its hold, and nothing else that is done to the holds of
entries releases one. -/
theorem Ghost.of_setRooted (hb : s.Balanced gs) {rooted : Bool}
    (h : (s.setRooted host rooted).2.Ghost a) :
    s.Ghost a ∨ a = host ∧ rooted = true ∧ s.Orphaned host := by
  unfold setRooted at h
  cases hold : s.bridge.entries.get? host with
  | none =>
    rw [hold] at h
    exact .inl h
  | some old =>
    rw [hold] at h
    dsimp only at h
    generalize hstrength : (if rooted = true then Strength.strong else .weak) = strength at h
    have hne : strength ≠ .released := by cases rooted <;> cases hstrength <;> decide
    by_cases hsame : old.strength = strength
    · rw [if_pos hsame] at h
      exact .inl h
    · rw [if_neg hsame] at h
      obtain ⟨g, hput, hreleased⟩ := h
      have hg := (Table.get?_insert ..).symm.trans hput
      split at hg
      case isFalse => exact .inl ⟨g, hg, hreleased⟩
      rename_i hhost
      subst hhost
      cases hg
      obtain hbefore | hgone := Grip.released_of_setStrength hne hreleased
      · exact .inl ⟨old, hold, hbefore⟩
      · cases hheld : old.strength with
        | released => exact .inl ⟨old, hold, hheld⟩
        | strong =>
          -- A strong hold keeps its target.
          have halive := hb.alive old (Table.mem_values_of_get? hold) hheld
          rw [hgone] at halive
          cases halive
        | weak =>
          refine .inr ⟨rfl, ?_, old, hold, hheld, hgone⟩
          cases rooted with
          | true => rfl
          | false => exact absurd (hheld.trans hstrength) hsame

/-- The entry of an orphan that is rooted stays, with its hold released. -/
theorem Orphaned.setRooted (h : s.Orphaned host) :
    (s.setRooted host true).1 = false ∧
      (s.setRooted host true).2.bridge.entries.get? host = some ⟨none, .released⟩ := by
  obtain ⟨g, hg, hweak, hgone⟩ := h
  have hset : (g.setStrength s.heap .strong).1 = ⟨none, .released⟩ := by
    unfold Grip.setStrength
    simp [hweak, hgone]
  unfold State.setRooted
  rw [hg]
  dsimp only
  rw [if_pos rfl, if_neg (by rw [hweak]; decide), hset]
  exact ⟨rfl, (Table.get?_insert ..).trans (if_pos rfl)⟩

end State

/-- Apart from rooting, no request changes an entry by itself. -/
theorem Request.Outcome.entries {r : Request} {s s' : State} (h : r.Outcome s s')
    (hr : ∀ host rooted, r ≠ .setRooted host rooted) : s'.bridge.entries = s.bridge.entries := by
  cases h with
  | setRooted => exact absurd rfl (hr _ _)
  | _ => rfl

/-- An entry that is there after a change of the bridge is new and strong, or was there before. -/
theorem Change.entry_of {ready : List Owed → Prop} {o o' : List Owed} {s s' : State}
    (hc : Change (.asking Request.OfBridge ready) o s o' s') {a : Address} {g : Grip}
    (h : s'.bridge.entries.get? a = some g) :
    g.strength = .strong ∨ s.bridge.entries.get? a = some g := by
  have of_same (he : s'.bridge.entries = s.bridge.entries) : s.bridge.entries.get? a = some g :=
    he ▸ h
  cases hc with
  | clear | unmake => exact .inr (State.entry_of_dropEntry h)
  | make => exact State.entry_of_addProxy h
  | sever => exact .inr (State.entry_of_eraseEntry h)
  | @write _ _ place => exact .inr (of_same (by cases place <;> rfl))
  | @store _ _ place => exact .inr (of_same (by cases place <;> rfl))
  | leave =>
    refine .inr (of_same ?_)
    unfold State.leave
    dsimp only
    split <;> rfl
  | root =>
    refine .inr (of_same ?_)
    unfold State.root
    split <;> rfl
  | alone _ hask hf =>
    obtain hnone | ⟨b, rfl⟩ := hask
    · rw [hnone] at hf
      cases hf
    · exact .inr (of_same ((Request.outcome hf s).entries fun _ _ => by rintro ⟨⟩))
  | _ => exact .inr h

/-- No change of the bridge releases the hold of an entry that stays. -/
theorem Change.ghost {ready : List Owed → Prop} {o o' : List Owed} {s s' : State}
    (hc : Change (.asking Request.OfBridge ready) o s o' s') {a : Address} (h : s'.Ghost a) :
    s.Ghost a := by
  obtain ⟨g, hg, hreleased⟩ := h
  obtain hstrong | hbefore := hc.entry_of hg
  · cases hreleased.symm.trans hstrong
  · exact ⟨g, hbefore, hreleased⟩

/-! ## In a session -/

/-- At a point of the session the entry of an orphan is rooted. -/
def RootsOrphan (start : World σ) (ps : List (Nat × Program σ)) (host : Address) : Prop :=
  ∃ n es next w, Along start ps ⟨n, es, .ask (.setRooted host true) next, w⟩ ∧ w.state.Orphaned host

/-- Handles are accounted for, and the entries whose hold is released are those of orphans that were
rooted in the session. -/
def Haunted (start : World σ) (ps : List (Nat × Program σ)) (o : List Owed) (w : World σ) : Prop :=
  w.Tallied o ∧ ∀ host, w.state.Ghost host → RootsOrphan start ps host

theorem upholds_haunted (start : World σ) (ps : List (Nat × Program σ)) :
    Spot.Upholds (Along start ps) (Haunted start ps) where
  step := .step
  congr hc hw := ⟨hw.1.congr hc, hw.2⟩
  change hw hc := ⟨hc.tallied hw.1, fun host hghost => hw.2 host (hc.ghost hghost)⟩
  alone := by
    intro n es r next f o w hg hf hw
    refine ⟨hw.1.alone hf, fun host hghost => ?_⟩
    by_cases hr : ∃ host rooted, r = .setRooted host rooted
    · obtain ⟨other, rooted, rfl⟩ := hr
      cases hf
      obtain hbefore | ⟨rfl, rfl, horphaned⟩ := State.Ghost.of_setRooted hw.1.balanced hghost
      · exact hw.2 host hbefore
      · exact ⟨n, es, next, w, hg, horphaned⟩
    · have hentries := (Request.outcome hf w.state).entries fun a b he => hr ⟨a, b, he⟩
      exact hw.2 host (hghost.of_entries hentries)
  counted m hw := ⟨hw.1.countCall m, hw.2⟩
  defined info body hw := ⟨hw.1.define info body, hw.2⟩
  remembered _ hw := ⟨hw.1.remember _, hw.2⟩

theorem World.not_ghost_connect {config : Config} {registry : Registry} {side : ForeignSide σ}
    {memory : σ} {w : World σ} (h : World.connect config registry side memory = .ok w) (host : Address) :
    ¬w.state.Ghost host := by
  obtain ⟨helpers, rfl⟩ := World.started_of_connect h
  rintro ⟨g, hg, -⟩
  cases hg

/-- Wherever foreign code or the host is in control, each entry of the identity table holds a live
handle, strongly or weakly, unless the entry of an orphan was rooted in the session: that releases the
hold and leaves the entry. Nothing else does, in whatever order proxies are asked for, rooted, collected,
severed and shut down. -/
theorem released_entry_origin {config : Config} {registry : Registry} {side : ForeignSide σ}
    {memory : σ} {start : World σ} (hside : side.foreign.heap = .empty)
    (hstart : World.connect config registry side memory = .ok start)
    {ps : List (Nat × Program σ)} {x : Spot σ} (hx : Along start ps x) :
    (∀ host g, x.world.state.bridge.entries.get? host = some g →
      (g.strength ≠ .released ∧ ∃ k ∈ x.world.state.heap.handles.keys, g.handle = some k) ∨
        g = ⟨none, .released⟩ ∧ RootsOrphan start ps host) ∧
    ∀ n es host next w, x = ⟨n, es, .ask (.setRooted host true) next, w⟩ → w.state.Orphaned host →
      ∃ v : World σ, Along start ps ⟨n, es, next false, v⟩ ∧
        v.state.bridge.entries.get? host = some ⟨none, .released⟩ := by
  have hfirst : Haunted start ps [] start :=
    ⟨World.tallied_connect hside hstart, fun host h => absurd h (World.not_ghost_connect hstart host)⟩
  obtain ⟨o, hw, hghost⟩ := hx.upholds (upholds_haunted start ps) hfirst
  refine ⟨fun host g hg => ?_, ?_⟩
  · have hheld := hw.balanced.accounts.held g
      (List.mem_append_left _ (State.Balanced.mem_holding_of_entry (Table.mem_values_of_get? hg)))
    obtain ⟨_ | k, strength⟩ := g
    · cases hheld
      exact .inr ⟨rfl, hghost host ⟨_, hg, rfl⟩⟩
    · obtain ⟨hne, t, hlive, -⟩ := hheld
      exact .inl ⟨hne, k, Table.mem_keys_of_get? hlive, rfl⟩
  · rintro n es host next w rfl horphaned
    obtain ⟨hanswer, hreleased⟩ := horphaned.setRooted
    have hperform : (Request.setRooted host true).perform (callAt n) w =
        .ok false { w with state := (w.state.setRooted host true).2 } := by
      rw [← hanswer]
      rfl
    exact ⟨_, .step hx (.answered hperform), hreleased⟩

namespace Sample

/-- One class with a type and a constructor, and methods that do nothing. -/
def rootingStart : World Unit :=
  world [⟨"G", ⟨"", "P", ".ctor", some ["intptr"]⟩, 1, 0⟩] (List.replicate 15 fun _ => .done none)

/-- A proxy is made and let go weakly. A pass finds its host object reachable and leaves the entry
where it is, while the proxy is collected; then the entry is rooted again. -/
def ghosting : Program Unit :=
  .ask (.defineType "G" "P") fun _ =>
  .ask (.defineClass ⟨"P", "P", "G", .native, false⟩ none) fun c =>
  .ask (.spawn c none "A") fun a =>
  .ask (.proxy a) fun _ =>
  .ask (.setRooted a false) fun _ =>
  .ask .sweep fun _ =>
  .ask (.setRooted a true) fun _ => .done none

theorem run_ghosting : endsIn 2 ghosting rootingStart (fun w =>
      w.state.bridge.entries.get? (.hostObject 0) == some ⟨none, .released⟩) = true := by
  decide +kernel

/-- The session comes to a point where the table has an entry whose hold is released. -/
theorem along_ghosting : ∃ w : World Unit,
    Along rootingStart [(2, ghosting), (2, .done none)] ⟨2, [], .done none, w⟩ ∧
      w.state.bridge.entries.get? (.hostObject 0) = some ⟨none, .released⟩ := by
  obtain ⟨w, a, hr, -, hrun⟩ := sees_of_endsIn run_ghosting
  exact ⟨w, .begins (.ended .start hr) (List.prefix_refl _), beq_iff_eq.1 hrun⟩

end Sample

/-- `released_entry_origin` after an orphan was rooted: the session did just that. -/
theorem released_entry_origin_of_ghosting : ∃ w : World Unit,
    Along Sample.rootingStart [(2, Sample.ghosting), (2, .done none)] ⟨2, [], .done none, w⟩ ∧
      w.state.bridge.entries.get? (.hostObject 0) = some ⟨none, .released⟩ ∧
      RootsOrphan Sample.rootingStart [(2, Sample.ghosting), (2, .done none)] (.hostObject 0) := by
  obtain ⟨w, hx, hreleased⟩ := Sample.along_ghosting
  obtain hheld | ⟨-, hroots⟩ :=
    (released_entry_origin rfl (Sample.connect_world _ _) hx).1 _ _ hreleased
  · exact absurd rfl hheld.1
  · exact ⟨w, hx, hreleased, hroots⟩

/-- Not every entry of the table is held strongly or weakly. -/
theorem released_entry_stays :
    ¬∀ (config : Config) (registry : Registry) (side : ForeignSide Unit) (start : World Unit)
      (ps : List (Nat × Program Unit)) (x : Spot Unit), side.foreign.heap = .empty →
      World.connect config registry side () = .ok start → Along start ps x →
      ∀ host g, x.world.state.bridge.entries.get? host = some g →
        (g.strength = .strong ∨ g.strength = .weak) ∧ g.handle ≠ none := by
  intro h
  obtain ⟨w, hx, hreleased⟩ := Sample.along_ghosting
  obtain ⟨-, hhandle⟩ := h _ _ _ _ _ _ rfl (Sample.connect_world _ _) hx _ _ hreleased
  exact hhandle rfl

end TwinHeap
