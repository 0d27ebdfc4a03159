import TwinHeap.Proofs.Calls
import TwinHeap.Proofs.Spots

/-!
# Pinned — what is staged for a call lives as long as the call

The frame of a running call holds each foreign object that was staged for it by a strong handle of
its own. Every change of the bridge keeps these holds and their objects until the frame is popped
(`Change.pins`), and so does all that foreign code does meanwhile, at whatever depth
(`pinned_callAt`). When the frame is popped the handles are freed, and of the bridge only a hold of
another kind can keep the object through the next collection (`staged_until_left`).
-/

namespace TwinHeap

variable {σ α : Type}

namespace State

/-- Right above the frames `outer` lies a frame which holds the objects in `pins`, each by the strong
handle that is paired with it, and they are alive. -/
structure Pins (s : State) (outer : List CallFrame) (pins : List (Nat × Address)) : Prop where
  frame : ∃ f, f :: outer <:+ s.bridge.frames ∧ ∀ p ∈ pins, ⟨some p.1, .strong⟩ ∈ f.roots
  held : ∀ p ∈ pins, s.heap.handles.get? p.1 = some ⟨some p.2, false⟩ ∧ s.heap.isAlive p.2 = true

variable {s s' : State} {gs : List Grip} {outer : List CallFrame} {pins : List (Nat × Address)}

theorem Balanced.mem_of_frames (s : State) (gs : List Grip) {g : Grip}
    (hg : g ∈ s.bridge.frames.flatMap CallFrame.roots) : g ∈ s.holding ++ gs :=
  List.mem_append_left gs (List.mem_append_right _ (List.mem_append_left _ hg))

namespace Pins

theorem mem_frames (h : s.Pins outer pins) {p : Nat × Address} (hp : p ∈ pins) :
    ⟨some p.1, .strong⟩ ∈ s.bridge.frames.flatMap CallFrame.roots := by
  obtain ⟨f, hf, hroots⟩ := h.frame
  exact List.mem_flatMap.2 ⟨f, hf.mem List.mem_cons_self, hroots p hp⟩

/-- What is pinned stays so where the frames and their handles stay the same, and nothing dies. -/
theorem of_handles (h : s.Pins outer pins) (hf : s'.bridge.frames = s.bridge.frames)
    (hk : ∀ g ∈ s.bridge.frames.flatMap CallFrame.roots, g.gcHandle? s'.heap = g.gcHandle? s.heap)
    (hl : ∀ a, s.heap.isAlive a = true → s'.heap.isAlive a = true) : s'.Pins outer pins := by
  refine ⟨hf ▸ h.frame, fun p hp => ?_⟩
  obtain ⟨hhandle, halive⟩ := h.held p hp
  exact ⟨(hk _ (h.mem_frames hp)).trans hhandle, hl _ halive⟩

/-- A change that leaves frames and handles alone, and lets nothing die. -/
theorem of_same (h : s.Pins outer pins) (hf : s'.bridge.frames = s.bridge.frames)
    (hh : s'.heap.handles = s.heap.handles)
    (hl : ∀ a, s.heap.isAlive a = true → s'.heap.isAlive a = true) : s'.Pins outer pins := by
  refine h.of_handles hf (fun g _ => ?_) hl
  unfold Grip.gcHandle?
  rw [hh]

/-- A change outside of frames and the foreign heap. -/
theorem of_heap (h : s.Pins outer pins) (hf : s'.bridge.frames = s.bridge.frames)
    (hh : s'.heap = s.heap) : s'.Pins outer pins :=
  h.of_same hf (congrArg _ hh) fun _ ha => hh ▸ ha

/-- A collection keeps what strong handles hold. -/
theorem collect (h : s.Pins outer pins) (full : Bool) :
    (s.withHeap (s.heap.collect full)).Pins outer pins := by
  refine ⟨h.frame, fun p hp => ?_⟩
  obtain ⟨hhandle, halive⟩ := h.held p hp
  refine ⟨Heap.handle_collect_of_strong hhandle rfl full, ?_⟩
  show (s.heap.collect full).isAlive p.2 = true
  rw [Heap.isAlive_collect, halive, Bool.true_and]
  exact List.contains_iff_mem.2 (Heap.mem_roots hhandle)

end Pins

namespace Balanced

/-- The release of a hold that is no frame's. -/
theorem pins_releaseGrip {g : Grip} (hb : s.Balanced (g :: gs)) (h : s.Pins outer pins) :
    (s.releaseGrip g).Pins outer pins := by
  have ha : s.heap.Accounts (g :: (s.holding ++ gs)) := hb.accounts.congr List.perm_middle
  refine h.of_handles rfl (fun g' hg' => ?_) fun a hl => (Heap.isAlive_release g _ a).trans hl
  exact Heap.gcHandle?_release ha (mem_of_frames s gs hg')

theorem pins_makeGrip (hb : s.Balanced gs) (h : s.Pins outer pins) (target : Address)
    (st : Strength) : (s.withHeap (Grip.make s.heap target st).2).Pins outer pins := by
  refine h.of_handles rfl (fun g hg => ?_) fun a hl => (Heap.isAlive_make _ _ _ a).trans hl
  exact Heap.gcHandle?_make hb.accounts (mem_of_frames s gs hg) target st

/-- A hold that is no frame's is made tighter or looser. -/
theorem pins_setStrength {g : Grip} (hb : s.Balanced (g :: gs)) (h : s.Pins outer pins)
    (st : Strength) : (s.withHeap (g.setStrength s.heap st).2).Pins outer pins := by
  have ha : s.heap.Accounts (g :: (s.holding ++ gs)) := hb.accounts.congr List.perm_middle
  refine h.of_handles rfl (fun g' hg' => ?_) fun a hl => (Heap.isAlive_setStrength g _ st a).trans hl
  exact Heap.gcHandle?_setStrength ha (mem_of_frames s gs hg') st

theorem pins_dropEntry (hb : s.Balanced gs) (h : s.Pins outer pins) (host : Address) :
    (s.dropEntry host).Pins outer pins := by
  unfold State.dropEntry
  split
  · exact h
  · have herase : (s.eraseEntry host).Pins outer pins := h.of_heap rfl rfl
    exact (hb.eraseEntry ‹_›).pins_releaseGrip herase

theorem pins_addProxy (hb : s.Balanced gs) (h : s.Pins outer pins) {host : Address} {type : Nat}
    (ht : s.foreign.isType type = true) : (s.addProxy host type).Pins outer pins := by
  have hnew : (s.withHeap (s.heap.allocate (.object type .null)).2).Pins outer pins :=
    h.of_same rfl rfl fun _ hl => Heap.isAlive_allocate _ hl
  rw [State.addProxy_of_isType ht]
  exact ((hb.allocate _).pins_makeGrip hnew (.foreign s.heap.nextObject) .strong).of_heap rfl rfl

theorem pins_tighten (hb : s.Balanced gs) (h : s.Pins outer pins) {host : Address} {old : Grip}
    (hold : s.bridge.entries.get? host = some old) (st : Strength) :
    (s.tighten host old st).Pins outer pins := by
  have herase : (s.eraseEntry host).Pins outer pins := h.of_heap rfl rfl
  exact ((hb.eraseEntry hold).pins_setStrength herase st).of_heap rfl rfl

/-- One more object is held by the innermost frame. -/
theorem pins_root (hb : s.Balanced gs) (h : s.Pins outer pins) (a : Address) :
    (s.root a).Pins outer pins := by
  unfold State.root
  split
  · exact h
  · rename_i top rest hf
    have hmake := hb.pins_makeGrip h a .strong
    refine ⟨?_, hmake.held⟩
    obtain ⟨f, hsuffix, hroots⟩ := h.frame
    rw [hf, List.suffix_cons_iff] at hsuffix
    obtain heq | hsuffix := hsuffix
    · cases heq
      exact ⟨_, List.suffix_rfl, fun p hp => List.mem_cons_of_mem _ (hroots p hp)⟩
    · exact ⟨f, hsuffix.trans (List.suffix_cons _ _), hroots⟩

/-- A frame above the one that pins is popped. -/
theorem pins_leave (hb : s.Balanced gs) (h : s.Pins outer pins) (key : Redirector.Key)
    (hlength : outer.length + 1 < s.bridge.frames.length) : (s.leave key).Pins outer pins := by
  unfold State.leave
  dsimp only
  split
  · exact h.of_heap rfl rfl
  · rename_i top rest hf
    have hf : s.bridge.frames = top :: rest := hf
    obtain ⟨f, hsuffix, hroots⟩ := h.frame
    rw [hf, List.length_cons] at hlength
    have hrest : f :: outer <:+ rest := by
      rw [hf, List.suffix_cons_iff] at hsuffix
      obtain heq | hsuffix := hsuffix
      · cases heq
        omega
      · exact hsuffix
    refine ⟨⟨f, hrest, hroots⟩, fun p hp => ?_⟩
    obtain ⟨hhandle, halive⟩ := h.held p hp
    refine ⟨?_, (Heap.isAlive_releaseAll top.roots s.heap _).trans halive⟩
    have hmem : ⟨some p.1, .strong⟩ ∈ rest.flatMap CallFrame.roots :=
      List.mem_flatMap.2 ⟨f, hrest.mem List.mem_cons_self, hroots p hp⟩
    exact (Heap.gcHandle?_releaseAll (hb.accounts_leave hf) (List.mem_append_left gs
      (List.mem_append_right _ (List.mem_append_left _ hmem)))).trans hhandle

end Balanced

section Innermost

variable {a : Address}

/-- An object that the innermost call roots is pinned by a new handle. -/
theorem Pins.root (h : s.Pins outer pins) (hb : s.Balanced gs)
    (hlength : s.bridge.frames.length = outer.length + 1) (ha : s.heap.isAlive a = true) :
    (s.root a).Pins outer ((s.heap.nextHandle, a) :: pins) := by
  obtain ⟨f, hsuffix, hroots⟩ := h.frame
  have hf : s.bridge.frames = f :: outer := (hsuffix.eq_of_length hlength.symm).symm
  have hkept := (hb.pins_root h a).held
  unfold State.root at hkept ⊢
  rw [hf] at hkept ⊢
  rw [Heap.make_eq s.heap a (by decide)] at hkept ⊢
  refine ⟨⟨_, List.suffix_rfl, List.forall_mem_cons.2 ⟨List.mem_cons_self, ?_⟩⟩,
    List.forall_mem_cons.2 ⟨⟨?_, ha⟩, hkept⟩⟩
  · exact fun p hp => List.mem_cons_of_mem _ (hroots p hp)
  · show (s.heap.handles.insert s.heap.nextHandle _).get? s.heap.nextHandle = _
    rw [Table.get?_insert, if_pos rfl]
    rfl

/-- The frame that pins is popped: its handles are freed, and no object dies of that. -/
theorem Pins.leave (h : s.Pins outer pins) (hb : s.Balanced gs)
    (hlength : s.bridge.frames.length = outer.length + 1) (key : Redirector.Key) :
    (s.leave key).bridge.frames = outer ∧
      ∀ p ∈ pins, (s.leave key).heap.handles.get? p.1 = none ∧
        (s.leave key).heap.isAlive p.2 = true := by
  obtain ⟨f, hsuffix, hroots⟩ := h.frame
  have hf : s.bridge.frames = f :: outer := (hsuffix.eq_of_length hlength.symm).symm
  have hleave : (s.leave key).bridge.frames = outer ∧
      (s.leave key).heap = f.roots.foldl (fun h (g : Grip) => (g.release h).2) s.heap := by
    unfold State.leave modifyRedirector
    simp only [hf]
    exact ⟨trivial, rfl⟩
  refine ⟨hleave.1, fun p hp => ?_⟩
  rw [hleave.2]
  refine ⟨?_, (Heap.isAlive_releaseAll _ _ _).trans (h.held p hp).2⟩
  have hall := hb.accounts_leave hf
  have hnodup := hall.perm.nodup_iff.1 hall.nodup
  rw [List.filterMap_append] at hnodup
  have hmem : p.1 ∈ f.roots.filterMap Grip.handle := List.mem_filterMap.2 ⟨_, hroots p hp, rfl⟩
  rw [Table.get?_eq_none, hall.releaseAll.perm.mem_iff]
  exact fun hother => (List.nodup_append.1 hnodup).2.2 _ hmem _ hother rfl

end Innermost

end State

/-- Whatever is asked for, what is pinned stays so. -/
theorem Request.Outcome.pins {r : Request} {s s' : State} (ho : r.Outcome s s') {gs : List Grip}
    (hb : s.Balanced gs) {outer : List CallFrame} {pins : List (Nat × Address)}
    (h : s.Pins outer pins) : s'.Pins outer pins := by
  cases ho with
  | payload i =>
    exact h.of_same rfl rfl fun a hl => (Heap.isAlive_modify (.foreign i) _ a).trans hl
  | allocate => exact h.of_same rfl rfl fun _ hl => Heap.isAlive_allocate _ hl
  | instantiate => exact h.of_same rfl rfl fun _ hl => Heap.isAlive_allocate _ hl
  | setNative object =>
    exact h.of_same rfl (by cases object <;> rfl)
      fun a hl => (Heap.isAlive_modify object _ a).trans hl
  | collect full => exact h.collect full
  | hold target strength => exact (hb.pins_makeGrip h target strength).of_heap rfl rfl
  | @regrip i _ hold strength =>
    have herase : (s.eraseGrip i).Pins outer pins := h.of_heap rfl rfl
    exact ((hb.eraseGrip hold).pins_setStrength herase strength).of_heap rfl rfl
  | @letGo i _ hold =>
    have herase : (s.eraseGrip i).Pins outer pins := h.of_heap rfl rfl
    exact (hb.eraseGrip hold).pins_releaseGrip herase
  | setRooted hold => exact hb.pins_tighten h hold _
  | _ => exact h.of_heap rfl rfl

/-- Every change of the bridge keeps what is pinned, if it may not pop the frame that pins. -/
theorem Change.pins {T : Terms} {o o' : List Owed} {s s' : State} (hc : Change T o s o' s')
    (hb : s.Balanced (o.filterMap Owed.grip?))
    (hf : s.bridge.frames.length = o.countP Owed.isFrame) {outer : List CallFrame}
    (hbase : outer.length < T.base.countP Owed.isFrame) {pins : List (Nat × Address)}
    (h : s.Pins outer pins) : s'.Pins outer pins := by
  cases hc with
  | @write _ _ a _ os =>
    cases a with
    | payload i =>
      exact h.of_same rfl rfl fun b hl => (Heap.isAlive_modify (.foreign i) _ b).trans hl
    | _ => exact h.of_heap rfl rfl
  | @store _ _ a => exact h.of_heap (by cases a <;> rfl) (by cases a <;> rfl)
  | string text => exact h.of_same rfl rfl fun _ hl => Heap.isAlive_allocate _ hl
  | collect _ full => exact h.collect full
  | clear => exact hb.pins_dropEntry h _
  | make _ _ _ ht => exact hb.pins_addProxy h ht
  | unmake => exact hb.pins_dropEntry h _
  | severed => exact hb.pins_releaseGrip h
  | enter key =>
    obtain ⟨f, hsuffix, hroots⟩ := h.frame
    exact ⟨⟨f, hsuffix.trans (List.suffix_cons _ _), hroots⟩, h.held⟩
  | leave hsuffix =>
    -- More frames are owed than the pinned one has below it, so it is not the one that is popped.
    refine hb.pins_leave h _ ?_
    have hle := hsuffix.sublist.countP_le (p := Owed.isFrame)
    rw [hf, List.countP_cons_of_pos rfl]
    omega
  | frameCell v =>
    refine ⟨?_, h.held⟩
    obtain ⟨f, hsuffix, hroots⟩ := h.frame
    show ∃ f, f :: outer <:+ (s.frameCell v).2.bridge.frames ∧ _
    unfold State.frameCell
    cases hframes : s.bridge.frames with
    | nil =>
      rw [hframes] at hsuffix
      exact absurd (List.suffix_nil.1 hsuffix) (List.cons_ne_nil _ _)
    | cons top rest =>
      rw [hframes, List.suffix_cons_iff] at hsuffix
      -- The cell goes into the pinned frame or into one above it, and neither loses a root.
      obtain heq | hsuffix := hsuffix
      · cases heq
        exact ⟨_, List.suffix_rfl, hroots⟩
      · exact ⟨f, hsuffix.trans (List.suffix_cons _ _), hroots⟩
  | root a => exact hb.pins_root h a
  | alone _ _ hf => exact (Request.outcome hf _).pins hb h
  | _ => exact h.of_heap rfl rfl

/-! ## Every run -/

namespace World

/-- Handles are accounted for, and the objects in `pins` are pinned. -/
structure Pinned (outer : List CallFrame) (pins : List (Nat × Address)) (o : List Owed)
    (w : World σ) : Prop where
  tallied : w.Tallied o
  state : w.state.Pins outer pins

namespace Pinned

variable {outer : List CallFrame} {pins : List (Nat × Address)} {o o' : List Owed} {w : World σ}

theorem congr (h : w.Pinned outer pins o) (hc : o'.map Owed.core = o.map Owed.core) :
    w.Pinned outer pins o' :=
  ⟨h.tallied.congr hc, h.state⟩

theorem countCall (h : w.Pinned outer pins o) (m : Nat) : (w.countCall m).Pinned outer pins o :=
  ⟨h.tallied.countCall m, h.state.of_heap rfl rfl⟩

theorem remember (h : w.Pinned outer pins o) (memory : σ) :
    World.Pinned outer pins o { w with memory := memory } :=
  ⟨h.tallied.remember memory, h.state⟩

theorem define (h : w.Pinned outer pins o) (info : MethodInfo)
    (body : Invocation → Program σ) : (w.define info body).Pinned outer pins o :=
  ⟨h.tallied.define info body, h.state.of_heap rfl rfl⟩

/-- The frame that pins belongs to a call which is owed. -/
theorem above (h : w.Pinned outer pins o) : outer.length < o.countP Owed.isFrame := by
  obtain ⟨f, hf, -⟩ := h.state.frame
  rw [← h.tallied.frames]
  exact hf.length_le

end Pinned

end World

section Runs

variable {n : Nat} {outer : List CallFrame} {pins : List (Nat × Address)}

/-- However they end, calls that nest at most so deep keep what is pinned. -/
def KeepsPinned (σ : Type) (n : Nat) (outer : List CallFrame) (pins : List (Nat × Address)) : Prop :=
  ∀ {o : List Owed} {m : Nat} {inv : Invocation} {v : World σ}, v.Pinned outer pins o →
    Ends (callAt n m inv v) (fun _ u => u.Pinned outer pins o)
      fun f u => f ≠ .exhausted → u.Pinned outer pins o

/-- The bridge keeps what is pinned, where foreign code does, as long as it owes what it owed when
that was pinned. -/
def pinLaw (hcalls : KeepsPinned σ n outer pins) (base : List Owed)
    (hbase : outer.length < base.countP Owed.isFrame) : Law σ where
  toTerms := { Terms.asking (fun _ => True) fun _ => True with base := base }
  call := callAt n
  course := .any _
  holds o w := w.Pinned outer pins o
  grows := callAt_grows n
  ready_cons _ _ := trivial
  fresh _ _ := trivial
  change h hc := ⟨hc.tallied h.tallied, hc.pins h.tallied.balanced h.tallied.frames hbase h.state⟩
  called h hr _ := (hcalls h).mono (fun _ _ hv => hv.congr (Owed.core_after hr.core.1 hr.core.2))
    fun _ _ hv hf => (hv hf).congr hr.core.2

/-- What a request keeps pinned, at every call of foreign code and in the end. -/
theorem World.Pinned.meets (hcalls : KeepsPinned σ n outer pins) {o : List Owed} {w : World σ}
    (hw : w.Pinned outer pins o) (r : Request) :
    r.perform.Meets (callAt n) w (fun _ _ v => ∃ o, v.Pinned outer pins o)
      (fun _ v => v.Pinned outer pins o) fun f v => f ≠ .exhausted → v.Pinned outer pins o := by
  have hobeys := Request.perform_obeys (L := pinLaw hcalls o hw.above) (r := r)
    (Identity.makesProxies fun _ => trivial) (fun _ _ => trivial) (fun _ => trivial) trivial
    (fun reason => Identity.sever_obeys reason fun _ _ => trivial) List.suffix_rfl trivial trivial hw
  refine hobeys.mono ?_ (fun _ _ h => h.1) fun _ _ h hf => (h hf).1
  rintro m inv v ⟨t, -, -, -, -, hv, -⟩
  exact ⟨t ++ o, hv⟩

/-- Foreign code keeps what is pinned, whatever it does. -/
theorem pinned_callAt (σ : Type) (n : Nat) (outer : List CallFrame) (pins : List (Nat × Address)) :
    KeepsPinned σ n outer pins := by
  induction n with
  | zero =>
    intro o m inv v _
    rw [callAt_zero]
    exact fun hne => absurd rfl hne
  | succ n ih =>
    intro o m inv v hv
    rw [callAt_succ]
    cases hb : v.bodies[m]? with
    | none => exact fun _ => hv
    | some body =>
      show Spot.RunEnds ⟨n, [], body inv, v.countCall m⟩ fun u => u.Pinned outer pins o
      refine Spot.runEnds (I := fun x => x.world.Pinned outer pins o) id
        (fun h => h.remember _) (fun h => h.define _ _) (fun {r next w} h => ?_) id (hv.countCall m)
      exact (h.meets ih r).ends

/-- Wherever foreign code comes to be in control meanwhile, what is pinned still is. -/
theorem Program.Visits.pinned {p : Program σ} {w v : World σ} {rs : List Request}
    (h : p.Visits (fun _ _ => True) n w rs v) {o : List Owed} (hw : w.Pinned outer pins o) :
    ∃ o, v.Pinned outer pins o := by
  induction h generalizing o with
  | here => exact ⟨o, hw⟩
  | observe _ ih => exact ih hw
  | remember _ ih => exact ih (hw.remember _)
  | define _ ih => exact ih (hw.define _ _)
  | after hr _ ih => exact ih ((hw.meets (pinned_callAt σ _ outer pins) _).ok _ _ hr)
  | within hm hb _ _ ih =>
    obtain ⟨o', hu⟩ := (hw.meets (pinned_callAt σ _ outer pins) _).only.of_makes hm
    exact ih (hu.countCall _)

end Runs

end TwinHeap
