import TwinHeap.Proofs.Exceptions
import TwinHeap.Proofs.Apart

/-!
# Preparation — redirected calls that fail before their method

Before its method is called, a redirected call links its function, loads its parameters, stages its
arguments in foreign order and finds its receiver. Where one of these steps answers with an error, the
call is over: it has called foreign code only to make proxies, collections, soft references and boxes
(`Preparatory`), it leaves the cells of the caller alone, and it gives back its frame with all handles
of what was staged by then (`early_failure_unfelt`).
-/

namespace TwinHeap

variable {σ α β : Type}

/-! ## Frames -/

/-- The frames that were there are still there, beneath those that are owed. -/
structure World.Upon (frames : List CallFrame) (o : List Owed) (w : World σ) : Prop where
  beneath : ∃ above, w.state.bridge.frames = above ++ frames ∧
    above.length = o.countP Owed.isFrame

theorem World.Upon.change {frames : List CallFrame} {T : Terms} {o o' : List Owed} {w : World σ}
    {s' : State} (h : w.Upon frames o) (hc : Change T o w.state o' s') :
    World.Upon frames o' { w with state := s' } := by
  obtain ⟨above, hframes, hlength⟩ := h.beneath
  obtain ⟨hf, ho⟩ | ⟨key, rfl, hf⟩ | ⟨key, rfl, -, hf⟩ |
    ⟨key, r, f, f', rest, rfl, rfl, hold, hf, -⟩ := hc.frames_cases
  · exact ⟨above, hf.trans hframes, hlength.trans ho.symm⟩
  · refine ⟨⟨key, [], []⟩ :: above, by rw [hf, hframes]; rfl, ?_⟩
    rw [List.countP_cons_of_pos rfl, ← hlength]
    rfl
  · rw [List.countP_cons_of_pos rfl] at hlength
    cases above with
    | nil => cases hlength
    | cons first above => exact ⟨above, by rw [hf, hframes]; rfl, Nat.succ.inj hlength⟩
  · rw [List.countP_cons_of_pos rfl] at hlength
    cases above with
    | nil => cases hlength
    | cons first above =>
      rw [hold] at hframes
      obtain ⟨rfl, rfl⟩ := List.cons.inj hframes
      refine ⟨f' :: above, hf, ?_⟩
      rw [List.countP_cons_of_pos rfl, ← hlength]
      rfl

/-- The running calls are the same wherever a call that is none of them ends. -/
def uponRealm (frames : List CallFrame) : Realm σ :=
  .everywhere (World.Upon frames)
    (fun hc ⟨above, hf, hl⟩ => ⟨above, hf, hl.trans (Owed.countP_isFrame_of_core hc).symm⟩)
    (fun _ h => ⟨h.beneath⟩) (fun _ _ h => ⟨h.beneath⟩) (fun _ h => ⟨h.beneath⟩)
    fun h hc => h.change hc

/-- Foreign code leaves the frames of the calls around it as they are. -/
theorem frames_callAt (n m : Nat) (inv : Invocation) (w : World σ) :
    Ends (callAt n m inv w) (fun _ v => v.state.bridge.frames = w.state.bridge.frames)
      fun f v => f ≠ .exhausted → v.state.bridge.frames = w.state.bridge.frames := by
  have hend {v : World σ} (h : v.Upon w.state.bridge.frames []) :
      v.state.bridge.frames = w.state.bridge.frames := by
    obtain ⟨above, hframes, hlength⟩ := h.beneath
    rw [hframes, List.eq_nil_of_length_eq_zero hlength]
    rfl
  apply ((uponRealm w.state.bridge.frames).called (o := []) trivial trivial ⟨[], rfl, rfl⟩).mono
  · exact fun _ _ hv => hend hv
  · exact fun _ _ hv hne => hend (hv hne)

/-- Handles are accounted for, and right above the frames `outer` lies one that holds something by each
of these handles. -/
structure World.Rooting (outer : List CallFrame) (handles : List Nat) (o : List Owed) (w : World σ) :
    Prop where
  tallied : w.Tallied o
  frame : ∃ f, f :: outer <:+ w.state.bridge.frames ∧ ∀ k ∈ handles, ⟨some k, .strong⟩ ∈ f.roots

namespace World.Rooting

variable {outer : List CallFrame} {handles : List Nat} {o o' : List Owed} {w v : World σ}

/-- That frame stays where it is, and keeps its roots, as long as it may not be popped. -/
theorem change {T : Terms} {s' : State} (h : w.Rooting outer handles o)
    (hc : Change T o w.state o' s') (hbase : outer.length < T.base.countP Owed.isFrame) :
    World.Rooting outer handles o' { w with state := s' } := by
  refine ⟨hc.tallied h.tallied, ?_⟩
  obtain ⟨f, hsuffix, hroots⟩ := h.frame
  obtain ⟨hf, -⟩ | ⟨key, rfl, hf⟩ | ⟨key, rfl, hb, hf⟩ |
    ⟨key, r, top, top', rest, rfl, rfl, hold, hf, hsub, -⟩ := hc.frames_cases
  · exact ⟨f, hf ▸ hsuffix, hroots⟩
  · exact ⟨f, hf ▸ hsuffix.trans (List.suffix_cons _ _), hroots⟩
  · refine ⟨f, ?_, hroots⟩
    -- The frame that is popped is not the one that is kept: more are owed than it has below it.
    have hle := hb.sublist.countP_le (p := Owed.isFrame)
    have hlength := h.tallied.frames
    rw [List.countP_cons_of_pos rfl] at hlength
    show f :: outer <:+ s'.bridge.frames
    rw [hf]
    cases hold : w.state.bridge.frames with
    | nil => rw [hold] at hlength; cases hlength
    | cons top rest =>
      rw [hold, List.suffix_cons_iff] at hsuffix
      obtain heq | hsuffix := hsuffix
      · rw [hold, ← heq, List.length_cons] at hlength
        omega
      · exact hsuffix
  · rw [hold, List.suffix_cons_iff] at hsuffix
    obtain heq | hsuffix := hsuffix
    · cases heq
      exact ⟨top', hf ▸ List.suffix_rfl, fun k hk => hsub (hroots k hk)⟩
    · exact ⟨f, hf ▸ hsuffix.trans (List.suffix_cons _ _), hroots⟩

/-- It belongs to a call which is owed. -/
theorem above (h : w.Rooting outer handles o) : outer.length < o.countP Owed.isFrame := by
  obtain ⟨f, hf, -⟩ := h.frame
  rw [← h.tallied.frames]
  exact hf.length_le

/-- What the innermost call roots is held by a new handle. -/
theorem root {key : Redirector.Key} (h : w.Rooting outer handles (.frame key :: o))
    (hlength : w.state.bridge.frames.length = outer.length + 1) (a : Address) :
    World.Rooting outer (w.state.heap.nextHandle :: handles) (.frame key :: o)
      { w with state := w.state.root a } := by
  have hroot : Change (.asking (fun _ => True) fun _ => True) (.frame key :: o) w.state
      (.frame key :: o) (w.state.root a) := .root a
  refine ⟨hroot.tallied h.tallied, ?_⟩
  obtain ⟨f, hsuffix, hroots⟩ := h.frame
  have hf : w.state.bridge.frames = f :: outer := (hsuffix.eq_of_length hlength.symm).symm
  have hroot : (w.state.root a).bridge.frames =
      { f with roots := ⟨some w.state.heap.nextHandle, .strong⟩ :: f.roots } :: outer := by
    unfold State.root
    rw [hf, Heap.make_eq w.state.heap a (by decide)]
  refine ⟨_, ⟨[], hroot.symm⟩, List.forall_mem_cons.2 ⟨List.mem_cons_self, ?_⟩⟩
  exact fun k hk => List.mem_cons_of_mem _ (hroots k hk)

/-- When it is popped, its handles are freed. -/
theorem leave (h : w.Rooting outer handles o)
    (hlength : w.state.bridge.frames.length = outer.length + 1) (key : Redirector.Key) :
    (w.state.leave key).bridge.frames = outer ∧
      ∀ k ∈ handles, (w.state.leave key).heap.handles.get? k = none := by
  obtain ⟨f, hsuffix, hroots⟩ := h.frame
  have hf : w.state.bridge.frames = f :: outer := (hsuffix.eq_of_length hlength.symm).symm
  have hleave : (w.state.leave key).bridge.frames = outer ∧ (w.state.leave key).heap =
      f.roots.foldl (fun h (g : Grip) => (g.release h).2) w.state.heap := by
    unfold State.leave State.modifyRedirector
    simp only [hf]
    exact ⟨trivial, rfl⟩
  refine ⟨hleave.1, fun k hk => ?_⟩
  have hall := h.tallied.balanced.accounts_leave hf
  have hnodup := hall.perm.nodup_iff.1 hall.nodup
  rw [List.filterMap_append] at hnodup
  have hmem : k ∈ f.roots.filterMap Grip.handle := List.mem_filterMap.2 ⟨_, hroots k hk, rfl⟩
  rw [hleave.2, Table.get?_eq_none, hall.releaseAll.perm.mem_iff]
  exact fun hother => (List.nodup_append.1 hnodup).2.2 _ hmem _ hother rfl

end World.Rooting

/-- A call keeps its frame with what it roots as long as it is not left. -/
def rootingLaw (n : Nat) (outer : List CallFrame) (handles : List Nat) (base : List Owed)
    (hbase : outer.length < base.countP Owed.isFrame) : Law σ where
  toTerms := { Terms.asking (fun _ => True) fun _ => True with base := base }
  call := callAt n
  course := .any _
  holds o w := w.Rooting outer handles o
  grows := callAt_grows n
  ready_cons _ _ := trivial
  fresh _ _ := trivial
  change h hc := h.change hc hbase
  called {o o' b w m inv} h hr _ := by
    have htallied : Ends (callAt n m inv w) (fun _ v => v.Tallied o)
        fun f v => f ≠ .exhausted → v.Tallied o :=
      (handleRealm σ).called trivial trivial h.tallied
    refine (htallied.and (frames_callAt n m inv w)).mono (fun a v hv => ?_) fun f v hv hf => ?_
    · exact ⟨World.Tallied.congr hv.1 (Owed.core_after hr.core.1 hr.core.2), hv.2 ▸ h.frame⟩
    · exact ⟨World.Tallied.congr (hv.1 hf) hr.core.2, hv.2 hf ▸ h.frame⟩

namespace Redirection

open Act

variable {call : Invoker σ} {w u v : World σ}

/-! ## What a call has staged -/

namespace StagedObject

variable {n : Nat} {key : Redirector.Key} {r : Redirector} {stack : ArgStack} {o : List Owed}

/-- What a call has staged it holds by a handle of its own. -/
theorem rooting (s : StagedObject (callAt n) key r stack w) (hr : w.state.redirector? key = some r)
    (hw : w.Tallied o) :
    s.held.Rooting w.state.bridge.frames [s.handle] (.frame key :: o) ∧
      ∃ r', s.held.state.redirector? key = some r' ∧ r'.binding = .linked s.linkage s.method := by
  obtain ⟨hpinned, r', hr', hl'⟩ := s.loads.pinned hr hw
  obtain ⟨f, hf, -⟩ := hpinned.state.frame
  have hloaded : s.loaded.Rooting w.state.bridge.frames [] (.frame key :: o) :=
    ⟨hpinned.tallied, f, hf, nofun⟩
  let L : Law σ := rootingLaw n w.state.bridge.frames [] (.frame key :: o) hloaded.above
  obtain ⟨hmade, hgrows⟩ := holds (L := L) s (Identity.makesProxies fun _ => trivial)
    (fun _ => trivial) List.suffix_rfl trivial (fun _ _ => trivial) hloaded
  have hlength : s.made.state.bridge.frames.length = w.state.bridge.frames.length + 1 := by
    rw [hmade.tallied.frames, hw.frames]
    exact List.countP_cons_of_pos rfl
  refine ⟨World.Rooting.root hmade hlength s.object, ?_⟩
  exact hgrows.linked key r' _ _ hr' hl'

/-- However a call ends with an answer, the handles are freed by which it held what it staged. -/
theorem freed (s : StagedObject (callAt n) key r stack w) (hr : w.state.redirector? key = some r)
    (hw : w.Tallied o) {target result : Option Address} {outcome : Except BridgeError Unit}
    {rest : ArgStack} (h : invoke key r target stack result (callAt n) w = .ok (outcome, rest) v) :
    v.state.heap.handles.get? s.handle = none := by
  obtain ⟨hheld, hlinked⟩ := s.rooting hr hw
  let L : Law σ := rootingLaw n w.state.bridge.frames [s.handle] (.frame key :: o) hheld.above
  have haction : (s.action target result).Obeys L .plain (.frame key :: o) s.held :=
    proceed_obeys (Identity.makesProxies fun _ => trivial) (fun _ => trivial) hlinked r.function
      target result
  have hattempt := haction.attempt (R := fun _ _ => True) (fun _ _ _ => trivial)
    (fun _ _ => trivial) List.suffix_rfl trivial trivial hheld
  rw [s.invoke_eq] at h
  cases ha : (s.action target result).attempt (callAt n) s.held with
  | error f u => rw [ha] at h; cases h
  | ok answer u =>
    rw [ha] at h
    cases h
    have hu : u.Rooting w.state.bridge.frames [s.handle] (.frame key :: o) :=
      (hattempt.ok _ _ ha).1
    have hlength : u.state.bridge.frames.length = w.state.bridge.frames.length + 1 := by
      rw [hu.tallied.frames, hw.frames]
      exact List.countP_cons_of_pos rfl
    exact (hu.leave hlength key).2 _ List.mem_cons_self

end StagedObject

end Redirection

/-! ## What a call asks of foreign code before its method -/

namespace Act

/-- The action asks nothing of foreign code. -/
def Mute (act : Act σ α) : Prop := ∀ (call call' : Invoker σ) w, act call w = act call' w

namespace Mute

theorem pure (a : α) : (Pure.pure a : Act σ α).Mute := fun _ _ _ => rfl

theorem state : (Act.state : Act σ State).Mute := fun _ _ _ => rfl

theorem edit (f : State → State) : (Act.edit f : Act σ Unit).Mute := fun _ _ _ => rfl

theorem editGet (f : State → α × State) : (Act.editGet f : Act σ α).Mute := fun _ _ _ => rfl

theorem fail (e : BridgeError) : (Act.fail e : Act σ α).Mute := fun _ _ _ => rfl

theorem abandon (p : Panic) : (Act.abandon p : Act σ α).Mute := fun _ _ _ => rfl

theorem ofPanic (x : Except Panic α) : (Act.ofPanic x : Act σ α).Mute := by
  cases x with
  | ok a => exact .pure a
  | error p => exact .abandon p

theorem ofOverflow (x : Except Overflow α) : (Act.ofOverflow x : Act σ α).Mute := by
  cases x with
  | ok a => exact .pure a
  | error o => exact .abandon _

theorem ofLink (x : Except LinkError α) : (Act.ofLink x : Act σ α).Mute := by
  cases x with
  | ok a => exact .pure a
  | error e => exact .fail _

theorem ofForeign (x : Except ForeignException α) : (Act.ofForeign x : Act σ α).Mute := by
  cases x with
  | ok a => exact .pure a
  | error x => exact .fail _

theorem bind {act : Act σ α} {f : α → Act σ β} (h : act.Mute) (hf : ∀ a, (f a).Mute) :
    (act >>= f).Mute := by
  intro call call' w
  cases ha : act call w with
  | ok a v => rw [bind_of_ok ha, bind_of_ok ((h call' call w).trans ha), hf a call call' v]
  | error e v => rw [bind_of_error ha, bind_of_error ((h call' call w).trans ha)]

theorem discard {act : Act σ α} (h : act.Mute) : (Functor.discard act : Act σ Unit).Mute :=
  h.bind fun _ => .pure _

theorem report (e : Log.Event) : (Act.report e : Act σ Unit).Mute := .edit _

theorem count (name : String) (n : Nat) : (Act.count name n : Act σ Unit).Mute :=
  .bind .state fun _ => .bind (.ofOverflow _) fun _ => .edit _

theorem not_makes {act : Act σ α} (h : act.Mute) {call : Invoker σ} {w v : World σ} {m : Nat}
    {inv : Invocation} : ¬act.Makes call w m inv v :=
  not_makes_of_const fun call' => h call' call w

end Mute

theorem error_of_ensuring {cleanup : State → State} {act : Act σ α} {call : Invoker σ}
    {w v : World σ} {f : Failure} (h : Act.ensuring cleanup act call w = .error f v) :
    ∃ u, act call w = .error f u := by
  unfold Act.ensuring at h
  split at h
  · cases h
  · rename_i hact
    cases h
    exact ⟨_, hact⟩

theorem error_of_withCell {value : Value} {f : Address → Act σ α} {call : Invoker σ}
    {w v : World σ} {e : Failure} (h : withCell value f call w = .error e v) :
    ∃ u, f (.ofCell w.state.memory.next) call { w with state := (w.state.allot value).2 } =
      .error e u := by
  obtain h | ⟨cell, u, hcell, h⟩ := error_of_bind h
  · cases h
  · cases hcell
    exact error_of_ensuring h

namespace Makes

variable {act : Act σ α} {call : Invoker σ} {w v : World σ} {m : Nat} {inv : Invocation}

theorem of_bind_mute {f : α → Act σ β} (h : (act >>= f).Makes call w m inv v)
    (hf : ∀ a, (f a).Mute) : act.Makes call w m inv v :=
  h.of_bind.resolve_right fun ⟨a, _, _, ha⟩ => (hf a).not_makes ha

theorem of_mute_bind {f : α → Act σ β} (h : (act >>= f).Makes call w m inv v) (ha : act.Mute) :
    ∃ a u, act call w = .ok a u ∧ (f a).Makes call u m inv v :=
  h.of_bind.resolve_left ha.not_makes

theorem of_state {f : State → Act σ β} (h : (Act.state >>= f).Makes call w m inv v) :
    (f w.state).Makes call w m inv v := by
  obtain ⟨s, u, hs, h⟩ := h.of_mute_bind .state
  cases hs
  exact h

theorem of_edit {f : State → State} (h : (Act.edit f >>= fun _ => act).Makes call w m inv v) :
    act.Makes call { w with state := f w.state } m inv v := by
  obtain ⟨_, u, hu, h⟩ := h.of_mute_bind (.edit f)
  cases hu
  exact h

theorem of_editGet {f : State → α × State} {g : α → Act σ β}
    (h : (Act.editGet f >>= g).Makes call w m inv v) :
    (g (f w.state).1).Makes call { w with state := (f w.state).2 } m inv v := by
  obtain ⟨a, u, hu, h⟩ := h.of_mute_bind (.editGet f)
  cases hu
  exact h

theorem of_ofPanic {x : Except Panic α} {f : α → Act σ β}
    (h : (Act.ofPanic x >>= f).Makes call w m inv v) :
    ∃ a, x = .ok a ∧ (f a).Makes call w m inv v := by
  obtain ⟨a, u, hx, h⟩ := h.of_mute_bind (.ofPanic x)
  cases x with
  | ok a => cases hx; exact ⟨a, rfl, h⟩
  | error p => cases hx

theorem of_ofLink {x : Except LinkError α} {f : α → Act σ β}
    (h : (Act.ofLink x >>= f).Makes call w m inv v) :
    ∃ a, x = .ok a ∧ (f a).Makes call w m inv v := by
  obtain ⟨a, u, hx, h⟩ := h.of_mute_bind (.ofLink x)
  cases x with
  | ok a => cases hx; exact ⟨a, rfl, h⟩
  | error p => cases hx

theorem of_ensuring {cleanup : State → State} (h : (Act.ensuring cleanup act).Makes call w m inv v) :
    act.Makes call w m inv v := by
  obtain ⟨call', hc, hne⟩ := h
  refine ⟨call', hc, fun he => hne ?_⟩
  unfold Act.ensuring
  rw [he]

theorem of_withCell {value : Value} {f : Address → Act σ α}
    (h : (withCell value f).Makes call w m inv v) :
    (f (.ofCell w.state.memory.next)).Makes call { w with state := (w.state.allot value).2 }
      m inv v := by
  exact of_ensuring (of_editGet h)

theorem of_callMethod {method : Nat} {receiver : Option Address} {args : List Address}
    (h : (Act.callMethod method receiver args : Act σ _).Makes call w m inv v) :
    m = method ∧ inv = ⟨receiver, args⟩ ∧ v = w := by
  have honly : (Act.callMethod method receiver args : Act σ _).OnlyCalls call w
      fun m inv v => m = method ∧ inv = ⟨receiver, args⟩ ∧ v = w :=
    fun _ hc => hc _ _ _ ⟨rfl, rfl, rfl⟩
  exact honly.of_makes h

/-- A call whose exception ends the operation. -/
theorem of_callMethod_discard {method : Nat} {receiver : Option Address} {args : List Address}
    (h : (Act.callMethod method receiver args >>= fun a => Functor.discard (Act.ofForeign a) :
      Act σ Unit).Makes call w m inv v) : m = method ∧ inv = ⟨receiver, args⟩ ∧ v = w :=
  (h.of_bind_mute fun _ => .discard (.ofForeign _)).of_callMethod

end Makes

end Act

/-- The methods of the factory that make collections and soft references. -/
def Helpers.creating (h : Helpers) : List Nat :=
  [h.createArray, h.createSet, h.createMap, h.createSoftObject, h.createSoftClass]

theorem Helpers.mem_creating_of_collection {h : Helpers} {p : Property} {make write : Nat}
    (hc : h.collection p = .ok (make, write)) : make ∈ h.creating := by
  unfold collection at hc
  split at hc <;> cases hc <;> simp [creating]

theorem Helpers.mem_creating_of_softReference {h : Helpers} {p : Property} {make write : Nat}
    (hc : h.softReference p = .ok (make, write)) : make ∈ h.creating := by
  unfold softReference at hc
  split at hc <;> cases hc <;> simp [creating]

/-- What a redirected call asks of foreign code before its method: steps in the making of a proxy, and
foreign values for arguments. -/
inductive Preparatory (s : State) : Nat → Invocation → Prop
  | connect {proxy : Address} {args : List Address} :
      Preparatory s s.bridge.helpers.beforeConstruct ⟨some proxy, args⟩
  | construct {classRef proxy : Address} {b : ProxyBinding} {args : List Address}
      (hb : s.bridge.bindings.get? classRef = some b) : Preparatory s b.method ⟨some proxy, args⟩
  | complete {proxy : Address} : Preparatory s s.bridge.helpers.afterConstruct ⟨some proxy, []⟩
  | undo {proxy : Address} : Preparatory s s.bridge.helpers.disconnect ⟨some proxy, []⟩
  /-- A collection or a soft reference is made. -/
  | create {m : Nat} {args : List Address} (hm : m ∈ s.bridge.helpers.creating) :
      Preparatory s m ⟨none, args⟩
  /-- A struct is boxed. -/
  | box {name : String} {f : StructFactory} {args : List Address}
      (hf : s.bridge.factories.get? name = some f) : Preparatory s f.fromNative ⟨none, args⟩

section Makes

open Act

variable {call : Invoker σ} {w v : World σ} {m : Nat} {inv : Invocation}

namespace Engine

theorem structFactory_mute (info : StructInfo) : (structFactory info : Act σ _).Mute := by
  refine .bind .state fun s => ?_
  split
  · exact .pure _
  · split
    · exact .pure _
    · exact .bind (.report _) fun _ => .bind (.edit _) fun _ => .pure _

theorem met_of_structFactory (hc : call.Grows) {info : StructInfo} {f : StructFactory}
    (h : structFactory info call w = .ok (.ok f) v) :
    v.state.bridge.factories.get? info.fullName = some f := by
  have hmoves : (structFactory info : Act σ _).Moves (.free call hc) .plain [] [] [] [] w _ :=
    structFactory_moves info
  exact ((hmoves List.nil_suffix trivial trivial trivial).ok _ _ h).2.2 f rfl

theorem makes_of_disconnect {proxy : Address}
    (h : (disconnect proxy : Act σ Unit).Makes call w m inv v) :
    m = v.state.bridge.helpers.disconnect ∧ inv = ⟨some proxy, []⟩ := by
  unfold disconnect at h
  obtain ⟨rfl, rfl, rfl⟩ := (h.of_state.of_bind_mute (by
    rintro (x | a)
    · exact .report _
    · exact .pure _)).of_callMethod
  exact ⟨rfl, rfl⟩

theorem makes_of_create {method : Nat} {host : Address}
    (h : (create method host : Act σ _).Makes call w m inv v) :
    m = method ∧ inv.receiver = none ∧ v.state.bridge = w.state.bridge := by
  unfold create at h
  obtain ⟨rfl, rfl, rfl⟩ :=
    ((Makes.of_withCell (Makes.of_withCell h)).of_bind_mute fun _ => .ofForeign _).of_callMethod
  exact ⟨rfl, rfl, rfl⟩

theorem makes_of_boxStruct {f : StructFactory} {host : Address}
    (h : (boxStruct f host : Act σ _).Makes call w m inv v) :
    m = f.fromNative ∧ inv.receiver = none ∧ v.state.bridge = w.state.bridge := by
  unfold boxStruct at h
  obtain ⟨rfl, rfl, rfl⟩ :=
    ((Makes.of_withCell (Makes.of_withCell h)).of_bind_mute fun _ => .ofForeign _).of_callMethod
  exact ⟨rfl, rfl, rfl⟩

end Engine

namespace Identity

theorem bindingFor_mute (classRef : Address) : (bindingFor classRef : Act σ _).Mute := by
  unfold bindingFor
  refine .bind .state fun s => ?_
  split
  · exact .pure _
  · refine .bind (.ofPanic _) fun info => .bind (.ofPanic _) ?_
    rintro (e | b)
    · exact .bind (.report _) fun _ => .bind (.count _ _) fun _ => .pure _
    · exact .bind (.report _) fun _ => .bind (.edit _) fun _ => .pure _

theorem bound_of_bindingFor (hc : call.Grows) {classRef : Address} {b : ProxyBinding}
    (h : bindingFor classRef call w = .ok (.ok b) v) :
    v.state.bridge.bindings.get? classRef = some b := by
  have hmoves : (bindingFor classRef : Act σ _).Moves (.free call hc) .plain [] [] [] [] w _ :=
    bindingFor_moves classRef
  exact ((hmoves List.nil_suffix trivial trivial trivial).ok _ _ h).2.2.1 b rfl

theorem preparatory_of_construct (hc : call.Grows) {classRef : Address} {b : ProxyBinding}
    {host proxy : Address} (hb : w.state.bridge.bindings.get? classRef = some b)
    (hf : w.state.findProxy host = some proxy) (hn : w.state.heap.nativeOf proxy = some .null)
    (h : (construct b proxy host).Makes call w m inv v) : Preparatory v.state m inv := by
  -- What was bound before the construction is bound at all of its calls.
  have hmoves := construct_moves (L := .free call hc) (r := []) hb hf hn List.nil_suffix trivial
    trivial trivial
  obtain ⟨_, _, _, -, -, -, hgrows, -, -⟩ := hmoves.only.of_makes h
  unfold construct Engine.beforeConstruct Engine.afterConstruct Engine.withPointer at h
  obtain h | ⟨_, u, -, h⟩ := h.of_bind
  · obtain ⟨rfl, rfl, rfl⟩ := (Makes.of_withCell h).of_state.of_callMethod_discard
    exact .connect
  obtain h | ⟨_, u, -, h⟩ := h.of_bind
  · obtain ⟨rfl, rfl, -⟩ := (Makes.of_withCell h).of_callMethod_discard
    exact .construct (hgrows.binding _ _ hb)
  · obtain ⟨rfl, rfl, rfl⟩ := h.of_state.of_callMethod_discard
    exact .complete

/-- The making of a proxy calls what connects, constructs and completes it, or what disconnects it
again. -/
theorem preparatory_of_proxyFor (hc : call.Grows) {host : Address}
    (h : (proxyFor host : Act σ Address).Makes call w m inv v) : Preparatory v.state m inv := by
  unfold proxyFor at h
  replace h := h.of_state
  split at h
  · exact absurd h (Mute.pure _).not_makes
  obtain ⟨classRef, -, h⟩ := h.of_edit.of_state.of_ofPanic
  obtain ⟨found, u, hfound, h⟩ := h.of_mute_bind (bindingFor_mute classRef)
  obtain ⟨b, rfl, hmade⟩ := h.of_ofLink
  have hbound := bound_of_bindingFor hc hfound
  -- Nothing is called for a type that does not exist, because no object is made of it.
  cases ht : u.state.foreign.isType b.type with
  | false =>
    have hmade := hmade.of_editGet
    rw [State.instantiate_of_not_isType ht] at hmade
    exact absurd hmade (Mute.fail _).not_makes
  | true =>
    obtain ⟨hsome, hadd⟩ := instantiate_addEntry u.state host ht
    obtain ⟨hfind, hnative⟩ := findProxy_addProxy u.state host ht
    have hmade := hmade.of_editGet
    rw [hsome] at hmade
    obtain h | ⟨outcome, x, -, h⟩ := hmade.of_edit.of_bind
    · have hgrows := (u.state.grows_instantiate b.type).trans
        (State.Grows.of_bridge ⟨rfl, rfl, rfl, rfl, rfl, rfl⟩ (Nat.le_refl _))
      exact preparatory_of_construct hc (hgrows.binding _ _ hbound) (hadd ▸ hfind) (hadd ▸ hnative)
        h.of_attempt
    · cases outcome with
      | ok _ =>
        exact absurd h (Mute.bind (.report _) fun _ => .bind (.count _ _) fun _ => .pure _).not_makes
      | error e =>
        obtain ⟨rfl, rfl⟩ := Engine.makes_of_disconnect
          (h.of_bind_mute fun _ => .bind (.edit _) fun _ => .fail _)
        exact .undo

end Identity

namespace Marshaller

theorem preparatory_of_proxyOrNull (hc : call.Grows) {host : Address}
    (h : (proxyOrNull host : Act σ Address).Makes call w m inv v) : Preparatory v.state m inv := by
  unfold proxyOrNull at h
  split at h
  · exact Identity.preparatory_of_proxyFor hc h
  · exact absurd h (Mute.pure _).not_makes

theorem preparatory_of_create {method : Nat} {host : Address}
    (hm : method ∈ w.state.bridge.helpers.creating)
    (h : (Engine.create method host : Act σ _).Makes call w m inv v) : Preparatory v.state m inv := by
  obtain ⟨rfl, hnone, hbridge⟩ := Engine.makes_of_create h
  obtain ⟨receiver, args⟩ := inv
  cases hnone
  exact .create (hbridge ▸ hm)

theorem preparatory_of_present (hc : call.Grows) {marshaller : Marshaller} {p : Property}
    {host : Address} {slot : Slot}
    (h : (marshaller.present p host slot : Act σ _).Makes call w m inv v) :
    Preparatory v.state m inv := by
  have hrecord (os : List Octet) : (do edit (·.writeAt slot.staging os); return slot.staging :
      Act σ Address).Mute := .bind (.edit _) fun _ => .pure _
  unfold present at h
  replace h := h.of_state
  -- Of the kinds that take foreign code, a struct runs it only once its factory is found.
  cases marshaller with
  | bool | scalar | enumeration => exact absurd h (Mute.pure _).not_makes
  | name | classRef => exact absurd h (Mute.bind (hrecord _) fun _ => .pure _).not_makes
  | text =>
    exact absurd h (Mute.bind (.editGet _) fun _ => .bind (hrecord _) fun _ => .pure _).not_makes
  | string => exact absurd h (Mute.bind (.editGet _) fun _ => .pure _).not_makes
  | object => exact preparatory_of_proxyOrNull hc (h.of_bind_mute fun _ => .pure _)
  | softReference =>
    obtain ⟨⟨make, write⟩, hmake, h⟩ := (h.of_bind_mute fun _ => .pure _).of_state.of_ofPanic
    exact preparatory_of_create (Helpers.mem_creating_of_softReference hmake) h
  | collection =>
    obtain ⟨⟨make, write⟩, hmake, h⟩ := (h.of_bind_mute fun _ => .pure _).of_state.of_ofPanic
    exact preparatory_of_create (Helpers.mem_creating_of_collection hmake) h
  | struct =>
    obtain ⟨info, -, h⟩ := h.of_ofPanic
    obtain ⟨found, u, hfound, h⟩ := h.of_mute_bind (Engine.structFactory_mute info)
    obtain ⟨f, rfl, hbox⟩ := h.of_ofLink
    have hmet := Engine.met_of_structFactory hc hfound
    have hbox := hbox.of_bind_mute fun box => by
      cases box with
      | none => exact .abandon _
      | some box => exact .bind .state fun _ => .bind (.ofPanic _) fun _ => .pure _
    obtain ⟨rfl, hnone, hbridge⟩ := Engine.makes_of_boxStruct hbox
    obtain ⟨receiver, args⟩ := inv
    cases hnone
    exact .box (hbridge ▸ hmet)

/-- The staging of a value makes a proxy, a collection, a soft reference or a box. -/
theorem preparatory_of_stage (hc : call.Grows) {marshaller : Marshaller} {p : Property}
    {host : Address} {slot : Slot} {byRef : Bool}
    (h : (marshaller.stage p host slot byRef : Act σ _).Makes call w m inv v) :
    Preparatory v.state m inv := by
  have hpass {w : World σ} (h : (marshaller.pass p host slot byRef : Act σ _).Makes call w m inv v) :
      Preparatory v.state m inv := by
    unfold pass at h
    cases byRef with
    | false => exact preparatory_of_present hc (h.of_bind_mute fun _ => .pure _)
    | true =>
      refine preparatory_of_present hc (h.of_bind_mute fun _ => .bind (.edit _) fun _ => ?_)
      cases marshaller.isReference <;> exact .pure _
  unfold stage at h
  split at h
  · exact hpass h.of_edit
  · exact hpass h

end Marshaller

namespace Redirection

variable {params : List Parameter} {scratch : Nat}

theorem preparatory_of_stageArgs (hc : call.Grows) {args : List LinkedArg}
    (h : (stageArgs params scratch args : Act σ _).Makes call w m inv v) :
    Preparatory v.state m inv := by
  induction args generalizing w with
  | nil => exact absurd h (Mute.pure _).not_makes
  | cons a as ih =>
    unfold stageArgs at h
    split at h
    · exact ih h
    · obtain h | ⟨⟨pointer, made⟩, u, -, h⟩ := h.of_bind
      · exact Marshaller.preparatory_of_stage hc h
      · cases made with
        | none => exact ih (h.of_bind_mute fun _ => .pure _)
        | some object => exact ih (h.of_edit.of_bind_mute fun _ => .pure _)

theorem preparatory_of_prepare (hc : call.Grows) {function : Function} {l : Linkage}
    {target : Option Address} (h : (prepare function l target params : Act σ _).Makes call w m inv v) :
    Preparatory v.state m inv := by
  unfold prepare at h
  obtain h | ⟨⟨pointers, staged⟩, u, -, h⟩ := h.of_editGet.of_bind
  · exact preparatory_of_stageArgs hc h
  replace h := h.of_bind_mute fun _ => .pure _
  unfold receiverOf at h
  split at h
  · split at h
    · exact absurd h (Mute.pure _).not_makes
    · exact Identity.preparatory_of_proxyFor hc (h.of_bind_mute fun _ => .pure _)
  · exact absurd h (Mute.pure _).not_makes

theorem paramPlace_mute (block : Nat) (p : Property) : (paramPlace block p : Act σ _).Mute := by
  unfold paramPlace
  split
  · exact .pure _
  · exact .pure _
  · exact .bind (.editGet _) fun _ => .pure _

theorem loadParams_mute (block : Nat) (ps : List Property) (stack : ArgStack) :
    (loadParams block ps stack : Act σ _).Mute := by
  induction ps generalizing stack with
  | nil => exact .pure _
  | cons p ps ih =>
    unfold loadParams
    refine .bind (paramPlace_mute block p) fun place => ?_
    split
    · exact .bind (ih _) fun _ => .pure _
    · exact .bind (.ofPanic _) fun _ => .bind (.edit _) fun _ => .bind (ih _) fun _ => .pure _

theorem checkFrame_mute (size align : Nat) : (checkFrame size align : Act σ Unit).Mute := by
  unfold checkFrame
  split
  · exact .pure _
  · exact .abandon _
  · exact .abandon _

/-- The parameters of a call are loaded without foreign code. -/
theorem load_mute (key : Redirector.Key) (r : Redirector) (l : Linkage) (stack : ArgStack) :
    (load key r l stack : Act σ _).Mute :=
  .bind .state fun _ => .bind (.report _) fun _ => .bind (.count _ _) fun _ =>
    .bind (checkFrame_mute _ _) fun _ => .bind (checkFrame_mute _ _) fun _ =>
      .bind (.editGet _) fun _ => loadParams_mute _ _ _

end Redirection

end Makes

/-! ## Calls that fail early -/

namespace Redirection

open Act

/-- The call ends before its method is called: with what error, what it has left of the stack, and the
world that it leaves. -/
inductive FailsEarly (call : Invoker σ) (c : RedirectedCall σ) :
    BridgeError → ArgStack → World σ → Prop
  /-- Its function cannot be linked. -/
  | unlinked {e : LinkError} {v : World σ}
      (hlink : linked c.key c.redirector call c.world = .ok (.error e) v) :
      FailsEarly call c (.link e) c.stack v
  /-- One of its arguments cannot be staged, or its receiver cannot be found. -/
  | unprepared {l : Linkage} {m : Nat} {params : List Parameter} {rest : ArgStack} {e : BridgeError}
      {u v : World σ} (hloads : Loads call c.key c.redirector c.stack c.world l m params rest u)
      (hprepare : prepare c.redirector.function l c.target params call u = .error (.error e) v) :
      FailsEarly call c e rest { v with state := v.state.leave c.key }

variable {call : Invoker σ} {c : RedirectedCall σ} {e : BridgeError} {rest : ArgStack}
  {w v : World σ}

theorem run_of_unprepared {function : Function} {l : Linkage} {m : Nat}
    {target result : Option Address} {params : List Parameter}
    (h : prepare function l target params call w = .error (.error e) v) :
    run function l m target params result call w = .error (.error e) v := by
  rw [run_eq]
  exact bind_of_error h

/-- A call that fails early answers with the error. -/
theorem FailsEarly.action_eq (h : FailsEarly call c e rest v) :
    c.action call c.world = .ok (.error e, rest) v := by
  unfold RedirectedCall.action
  cases h with
  | unlinked hlink =>
    rw [invoke_eq]
    exact bind_of_ok hlink
  | unprepared hloads hprepare =>
    rw [hloads.invoke_eq, attempt_of_error (run_of_unprepared hprepare)]

/-- A call that answers with an error has failed early, or its method was called and has answered. -/
theorem failsEarly_or_called (hc : ∀ m inv w e v, call m inv w ≠ .error (.error e) v)
    (h : c.action call c.world = .ok (.error e, rest) v) :
    FailsEarly call c e rest v ∨ ∃ l m params u pointers staged receiver u' answer u'',
      Loads call c.key c.redirector c.stack c.world l m params rest u ∧
      prepare c.redirector.function l c.target params call u = .ok (pointers, staged, receiver) u' ∧
      call m ⟨receiver, pointers⟩ u' = .ok answer u'' := by
  obtain ⟨e, hlinked, he, rfl⟩ | ⟨l, m, params, u, u', hloads, hattempt, rfl⟩ := linked_or_loads h
  · cases he
    exact .inl (.unlinked hlinked)
  have hrun := error_of_attempt hattempt
  rw [run_eq] at hrun
  obtain hprepare | ⟨⟨pointers, staged, receiver⟩, x, hprepare, hrun⟩ := error_of_bind hrun
  · exact .inl (.unprepared hloads hprepare)
  obtain hcall | ⟨answer, y, hcall, -⟩ := error_of_bind hrun
  · exact absurd hcall (hc m _ x _ _)
  · exact .inr ⟨l, m, params, u, pointers, staged, receiver, x, answer, y, hloads, hprepare, hcall⟩

/-- What a call may fail of before its method. -/
inductive Obstacle (call : Invoker σ) (c : RedirectedCall σ) : BridgeError → Prop
  /-- Its function cannot be linked. -/
  | unlinked {e : LinkError} {v : World σ}
      (h : linked c.key c.redirector call c.world = .ok (.error e) v) : Obstacle call c (.link e)
  /-- The boxing methods of a struct are missing. -/
  | factory {info : StructInfo} {e : LinkError} {u v : World σ}
      (h : Engine.structFactory info call u = .ok (.error e) v) : Obstacle call c (.link e)
  /-- The proxy of an argument or of the target cannot be made. -/
  | proxy {host : Address} {e : BridgeError} {u v : World σ}
      (h : Identity.proxyFor host call u = .error (.error e) v) : Obstacle call c e
  /-- A method threw that makes a collection, a soft reference or a box. -/
  | helper {m : Nat} {args : List Address} {x : ForeignException} {u v : World σ}
      (hm : Preparatory u.state m ⟨none, args⟩) (h : call m ⟨none, args⟩ u = .ok (.error x) v) :
      Obstacle call c (.foreign x)

section Obstacles

variable (hc : ∀ m inv w e v, call m inv w ≠ .error (.error e) v)
include hc

/-- A method whose answer is passed on ends with an error only where it throws. -/
theorem threw_of_callMethod {m : Nat} {args : List Address}
    (h : (callMethod m none args >>= fun a => ofForeign a : Act σ _) call w = .error (.error e) v) :
    ∃ x, e = .foreign x ∧ call m ⟨none, args⟩ w = .ok (.error x) v := by
  obtain h | ⟨answer, u, hcall, h⟩ := error_of_bind h
  · exact absurd h (hc _ _ _ _ _)
  cases answer with
  | ok a => cases h
  | error x =>
    cases h
    exact ⟨x, rfl, hcall⟩

theorem obstacle_of_create {make : Nat} {host : Address}
    (hmake : make ∈ w.state.bridge.helpers.creating)
    (h : Engine.create make host call w = .error (.error e) v) : Obstacle call c e := by
  unfold Engine.create Engine.withPointer at h
  obtain ⟨u, h⟩ := error_of_withCell h
  obtain ⟨u', h⟩ := error_of_withCell h
  obtain ⟨x, rfl, hcall⟩ := threw_of_callMethod hc h
  refine .helper ?_ hcall
  exact .create hmake

theorem obstacle_of_boxStruct {name : String} {f : StructFactory} {host : Address}
    (hf : w.state.bridge.factories.get? name = some f)
    (h : Engine.boxStruct f host call w = .error (.error e) v) : Obstacle call c e := by
  unfold Engine.boxStruct Engine.withPointer Engine.withOffset at h
  obtain ⟨u, h⟩ := error_of_withCell h
  obtain ⟨u', h⟩ := error_of_withCell h
  obtain ⟨x, rfl, hcall⟩ := threw_of_callMethod hc h
  refine .helper ?_ hcall
  exact .box hf

theorem obstacle_of_present (hg : call.Grows) {marshaller : Marshaller} {p : Property}
    {host : Address} {slot : Slot}
    (h : marshaller.present p host slot call w = .error (.error e) v) : Obstacle call c e := by
  unfold Marshaller.present at h
  rw [state_bind] at h
  cases marshaller with
  | bool | scalar | enumeration | name | classRef | text | string => cases h
  | object =>
    obtain h | ⟨_, _, _, h⟩ := error_of_bind h
    · unfold Marshaller.proxyOrNull at h
      cases hn : (w.state.addressAt host).nonNull with
      | none => rw [hn] at h; cases h
      | some a => rw [hn] at h; exact .proxy h
    · cases h
  | softReference =>
    obtain h | ⟨_, _, _, h⟩ := error_of_bind h
    · unfold Engine.createSoftReference at h
      rw [state_bind] at h
      cases hmake : w.state.bridge.helpers.softReference p with
      | error q => rw [hmake] at h; cases h
      | ok found =>
        rw [hmake] at h
        exact obstacle_of_create hc (Helpers.mem_creating_of_softReference hmake) h
    · cases h
  | collection =>
    obtain h | ⟨_, _, _, h⟩ := error_of_bind h
    · unfold Engine.createCollection at h
      rw [state_bind] at h
      cases hmake : w.state.bridge.helpers.collection p with
      | error q => rw [hmake] at h; cases h
      | ok found =>
        rw [hmake] at h
        exact obstacle_of_create hc (Helpers.mem_creating_of_collection hmake) h
    · cases h
  | struct =>
    -- Looking up the struct and reading its box cannot end in an error of the bridge.
    obtain h | ⟨info, u, hinfo, h⟩ := error_of_bind h
    · exact absurd h (Contained.ofPanic _ _ _ _)
    obtain h | ⟨found, u', hfound, h⟩ := error_of_bind h
    · exact absurd h (Engine.structFactory_contained _ _ _ _)
    cases found with
    | error le =>
      cases h
      exact .factory hfound
    | ok f =>
      change (Engine.boxStruct f host >>= _) call u' = _ at h
      obtain h | ⟨box, u'', -, h⟩ := error_of_bind h
      · exact obstacle_of_boxStruct hc (Engine.met_of_structFactory hg hfound) h
      · cases box with
        | none => cases h
        | some box =>
          exact absurd h (Contained.bind .state (fun _ => .bind (.ofPanic _) fun _ => .pure _) _ _ _)

/-- An argument that cannot be staged has met with an obstacle. -/
theorem obstacle_of_stage (hg : call.Grows) {marshaller : Marshaller} {p : Property}
    {host : Address} {slot : Slot} {byRef : Bool}
    (h : marshaller.stage p host slot byRef call w = .error (.error e) v) : Obstacle call c e := by
  have hpass {w : World σ} (h : marshaller.pass p host slot byRef call w = .error (.error e) v) :
      Obstacle call c e := by
    unfold Marshaller.pass at h
    obtain h | ⟨⟨pointer, made⟩, u, -, h⟩ := error_of_bind h
    · exact obstacle_of_present hc hg h
    · cases byRef with
      | false => cases h
      | true => cases hr : marshaller.isReference <;> simp only [hr] at h <;> cases h
  unfold Marshaller.stage at h
  cases byRef with
  | false => exact hpass h
  | true =>
    obtain h | ⟨_, u, -, h⟩ := error_of_bind h
    · cases h
    · exact hpass h

theorem obstacle_of_stageArgs (hg : call.Grows) {params : List Parameter} {scratch : Nat}
    {args : List LinkedArg} (h : stageArgs params scratch args call w = .error (.error e) v) :
    Obstacle call c e := by
  induction args generalizing w with
  | nil => cases h
  | cons a as ih =>
    unfold stageArgs at h
    cases hparam : params[a.param]? with
    | none =>
      rw [hparam] at h
      exact ih h
    | some param =>
    rw [hparam] at h
    obtain h | ⟨⟨pointer, made⟩, u, -, h⟩ := error_of_bind h
    · exact obstacle_of_stage hc hg h
    have hrest : ∃ u', (stageArgs params scratch as >>= fun rest : List Address × List StagedArg =>
        pure (pointer :: rest.1, ⟨a, ⟨scratch, a.scratchOffset⟩⟩ :: rest.2)) call u' =
          .error (.error e) v := by
      cases made <;> exact ⟨_, h⟩
    obtain ⟨u', hrest⟩ := hrest
    obtain h | ⟨_, _, _, h⟩ := error_of_bind hrest
    · exact ih h
    · cases h

/-- Whatever a call fails of before its method is one of the obstacles. -/
theorem FailsEarly.obstacle (hg : call.Grows) (h : FailsEarly call c e rest v) :
    Obstacle call c e := by
  cases h with
  | unlinked hlink => exact .unlinked hlink
  | unprepared _ hprepare =>
    unfold prepare at hprepare
    obtain h | ⟨scratch, u, -, h⟩ := error_of_bind hprepare
    · cases h
    obtain h | ⟨⟨pointers, staged⟩, u', -, h⟩ := error_of_bind h
    · exact obstacle_of_stageArgs hc hg h
    obtain h | ⟨_, _, _, h⟩ := error_of_bind h
    · unfold receiverOf at h
      cases htarget : c.target with
      | none => rw [htarget] at h; cases h
      | some object =>
        rw [htarget] at h
        cases hstatic : c.redirector.function.flags.static with
        | true => simp only [hstatic] at h; cases h
        | false =>
          simp only [hstatic] at h
          change (Identity.proxyFor object >>= fun a => pure (some a)) call u' = _ at h
          obtain h | ⟨_, _, _, h⟩ := error_of_bind h
          · exact .proxy h
          · cases h
    · cases h

end Obstacles

/-- A call fails early also where foreign code is given up as soon as it touches the cells in `K`, if
it never does. -/
theorem FailsEarly.guard {n : Nat} {K : Nat → Prop} (h : FailsEarly (callAt n) c e rest v)
    (hr : c.world.state.redirector? c.key = some c.redirector)
    (hcalls : c.action.OnlyCalls (callAt n) c.world (Invoker.Spares (callAt n) K)) :
    FailsEarly (Invoker.guard (callAt n) K) c e rest v := by
  have hguard : c.action (Invoker.guard (callAt n) K) c.world = .ok (.error e, rest) v :=
    (hcalls _ fun _ _ _ hs => Invoker.guard_of_spares hs).trans h.action_eq
  have hcontained (m : Nat) (inv : Invocation) (u : World σ) (e : BridgeError) (u' : World σ) :
      Invoker.guard (callAt n) K m inv u ≠ .error (.error e) u' :=
    fun he => callAt_contained n m inv u e u' (Invoker.error_of_guard he (by rintro ⟨⟩))
  obtain hearly | ⟨l, m, params, u, pointers, staged, receiver, u', _, _, hloads, hprepare, -⟩ :=
    failsEarly_or_called hcontained hguard
  · exact hearly
  -- A call that has come to its method under the guard does so without it.
  have huntil := Invoker.guard_until (callAt n : Invoker σ) K
  have hloads := hloads.deeper hr (callAt_grows n) huntil
  have hprepare := (prepare_strict (callAt_grows n) _ _ _ _ u).ok Failure.isFatal_exhausted huntil
    hprepare
  cases h with
  | unlinked hlink =>
    obtain ⟨_, hlinked, -⟩ := hloads
    cases hlink.symm.trans hlinked
  | unprepared hloads' hprepare' =>
    obtain ⟨rfl, -, rfl, -, rfl⟩ := hloads.unique hloads'
    cases hprepare.symm.trans hprepare'

/-- A call ended in `v` and did nothing to its caller: `removals` is the number of removals of entries
around it. -/
structure Unfelt (n : Nat) (c : RedirectedCall σ) (removals : Nat) (v : World σ) : Prop where
  /-- Foreign code was called only to prepare for the method. -/
  calls : ∀ {m inv u}, c.action.Makes (callAt n) c.world m inv u → Preparatory u.state m inv
  /-- The cells that this foreign code leaves alone are as they were. -/
  cells : ∀ K : Nat → Prop, (∀ k, K k → k < c.world.state.memory.next) →
    c.action.OnlyCalls (callAt n) c.world (Invoker.Spares (callAt n) K) →
    c.world.state.Keeps K v.state
  frames : v.state.bridge.frames = c.world.state.bridge.frames
  /-- The handles of what was staged are freed. -/
  freed : ∀ s : StagedObject (callAt n) c.key c.redirector c.stack c.world,
    v.state.heap.handles.get? s.handle = none
  /-- All live handles are those of entries, of the calls around, of foreign code or of removals. -/
  handles : ∃ severed : List Nat, severed.length = removals ∧
    v.state.heap.handles.keys.Perm
      (v.state.entryHandles ++ (v.state.stagedHandles ++ v.state.ownHandles) ++ severed)
  depth : ∀ key, v.state.depthOf key = c.world.state.depthOf key

section Unfelt

variable {n : Nat} {o : List Owed}

theorem FailsEarly.calls (h : FailsEarly (callAt n) c e rest v) {m : Nat} {inv : Invocation}
    {u : World σ} (hm : c.action.Makes (callAt n) c.world m inv u) : Preparatory u.state m inv := by
  unfold RedirectedCall.action at hm
  rw [invoke_eq] at hm
  obtain hm | ⟨found, x, hlinked, hm⟩ := hm.of_bind
  · exact ((linked_only c.key c.redirector).of_makes (C := fun _ _ _ => False) hm).elim
  cases found with
  | error e => exact absurd hm (Mute.pure _).not_makes
  | ok lm =>
    obtain ⟨l, method⟩ := lm
    obtain ⟨⟨params, rest'⟩, y, hload, hm⟩ := hm.of_edit.of_ensuring.of_mute_bind (load_mute _ _ _ _)
    replace hm := (hm.of_bind_mute fun _ => .pure _).of_attempt
    rw [run_eq] at hm
    obtain hm | ⟨_, z, hprepare, -⟩ := hm.of_bind
    · exact preparatory_of_prepare (callAt_grows n) hm
    cases h with
    | unlinked hlink => cases hlink.symm.trans hlinked
    | unprepared hloads' hprepare' =>
      obtain ⟨rfl, -, rfl, -, rfl⟩ := Loads.unique ⟨x, hlinked, hload⟩ hloads'
      cases hprepare.symm.trans hprepare'

theorem FailsEarly.keeps {K : Nat → Prop} (h : FailsEarly (callAt n) c e rest v)
    (hr : c.world.state.redirector? c.key = some c.redirector)
    (hK : ∀ k, K k → k < c.world.state.memory.next)
    (hcalls : c.action.OnlyCalls (callAt n) c.world (Invoker.Spares (callAt n) K)) :
    c.world.state.Keeps K v.state := by
  cases h.guard hr hcalls with
  | unlinked hlink =>
    obtain ⟨⟨_, _, _, rfl⟩, -⟩ := linked_cases hlink
    exact State.keeps_of_memory rfl
  | @unprepared l _ params _ _ u x hloads hprepare =>
    obtain ⟨hu, hplaces, -⟩ := hloads.holds (L := guardLaw n K c.world.state) hr c.target c.result
      trivial List.nil_suffix trivial (.start hK)
    have hprepares : (prepare c.redirector.function l c.target params : Act σ _).Obeys
        (guardLaw n K c.world.state) .plain [.frame c.key] u :=
      prepare_obeys (Identity.makesProxies fun _ => trivial) _ l _ hplaces
    have hx : x.Guards K c.world.state [.frame c.key] :=
      ((hprepares List.nil_suffix trivial trivial hu).err _ _ hprepare nofun).1
    exact hx.leave.keeps

/-- Only the frame is given back that the call was given. -/
theorem FailsEarly.tallied (h : FailsEarly (callAt n) c e rest v)
    (hr : c.world.state.redirector? c.key = some c.redirector) (hw : c.world.Tallied o) :
    v.Tallied o ∧ v.state.bridge.frames = c.world.state.bridge.frames := by
  cases h with
  | unlinked hlink =>
    have hlinks : (linked c.key c.redirector : Act σ _).Moves
        ((handleRealm σ).law ((handleRealm σ).respected n)) .plain o [] [] [] c.world _ :=
      linked_moves hr
    exact ⟨((hlinks List.nil_suffix trivial trivial hw).ok _ _ hlink).1, (apart_of_linked hlink).2⟩
  | @unprepared l m params _ _ u x hloads hprepare =>
    obtain ⟨hpinned, -⟩ := hloads.pinned hr hw
    obtain ⟨f, hf, -⟩ := hpinned.state.frame
    -- The frame of the call is the innermost one from here on, with whatever is staged in it.
    have hu : u.Rooting c.world.state.bridge.frames [] (.frame c.key :: o) :=
      ⟨hpinned.tallied, f, hf, nofun⟩
    let L : Law σ := rootingLaw n c.world.state.bridge.frames [] (.frame c.key :: o) hu.above
    have hprepares : (prepare c.redirector.function l c.target params : Act σ _).Obeys L .plain
        (.frame c.key :: o) u :=
      prepare_obeys (Identity.makesProxies fun _ => trivial) _ l _ fun _ _ => trivial
    have hx : x.Rooting c.world.state.bridge.frames [] (.frame c.key :: o) :=
      ((hprepares List.suffix_rfl trivial trivial hu).err _ _ hprepare nofun).1
    have hlength : x.state.bridge.frames.length = c.world.state.bridge.frames.length + 1 := by
      rw [hx.tallied.frames, hw.frames]
      exact List.countP_cons_of_pos rfl
    have hleave : Change (.asking (fun _ => True) fun _ => True) (.frame c.key :: o) x.state o
        (x.state.leave c.key) := .leave List.nil_suffix
    exact ⟨hleave.tallied hx.tallied, (hx.leave hlength c.key).1⟩

end Unfelt

end Redirection

open Redirection in
/-- A redirected call of a session that fails before its method, of whatever obstacle and at whatever
argument, answers with the error and does nothing to its caller: foreign code was only called to
prepare for the method, cells that this code leaves alone are as they were, the frame of the call and
all handles of what it had staged are gone, and the depth of every function is what it was. -/
theorem early_failure_unfelt {config : Config} {registry : Registry} {side : ForeignSide σ}
    {memory : σ} {start x v : World σ} {rs : List Request} {n : Nat} {q : Request}
    {c : RedirectedCall σ} {e : BridgeError} {rest : ArgStack} (hside : side.foreign.heap = .empty)
    (hstart : World.connect config registry side memory = .ok start)
    (hx : Session.Sees (fun _ _ => True) (fun _ => True) start rs x) (hcall : q.Issues (callAt n) x c)
    (h : FailsEarly (callAt n) c e rest v) :
    c.action (callAt n) c.world = .ok (.error e, rest) v ∧ Obstacle (callAt n) c e ∧
      Unfelt n c (rs.countP fun r => r.situation.isSevering) v := by
  have hr := hcall.registered
  obtain ⟨o, ho, hsevering, hidle, -⟩ :=
    Realm.sees (R := handleRealm σ) (World.tallied_connect hside hstart) hx
  obtain ⟨hw, -⟩ := Request.Redirects.holds (L := (handleRealm σ).law ((handleRealm σ).respected n))
    hcall (Identity.makesProxies fun _ => trivial) (fun _ => trivial) (fun _ _ => trivial)
    List.nil_suffix trivial ho
  obtain ⟨o', ho', -⟩ := Realm.sees (R := runsRealm) (World.runs_connect hstart) hx
  have hruns := hcall.runs ho'
  obtain ⟨hv, hframes⟩ := h.tallied hr hw
  refine ⟨h.action_eq, h.obstacle (callAt_contained n) (callAt_grows n), fun hm => h.calls hm,
    fun K hK hcalls => h.keeps hr hK hcalls, hframes, fun s => s.freed hr hw h.action_eq, ?_, ?_⟩
  · exact hsevering ▸ hv.handles hidle
  -- Depths are the matter of another invariant, which knows what functions are running.
  · have hinvoke : c.action.Obeys (runsRealm.law (runsRealm.respected n)) .redirected o' c.world :=
      invoke_obeys (Identity.makesProxies fun _ => trivial) hr c.target (fun _ _ _ => trivial)
        fun _ _ => trivial
    have hafter : v.state.Runs (Owed.functions o') :=
      ((hinvoke List.nil_suffix trivial trivial hruns).ok _ _ h.action_eq).1
    exact fun key => (hafter.depth key).trans (hruns.depth key).symm

/-! ## An array that cannot be made -/

namespace Sample

/-- A library that makes no arrays, and a method that takes a text, a number and an array. -/
def mixingStart : World Unit :=
  world [⟨"G", ⟨"", "T", "Mix", some ["string", "int&", "T"]⟩, 3, 0⟩]
    (List.replicate 4 (fun _ => .done none) ++ (fun _ => .throw ⟨"no", ""⟩) ::
      List.replicate 10 (fun _ => .done none))

def mix : Redirector where
  function := ⟨"T", "Mix", ⟨true, true, true, false⟩,
    [⟨"Text", .string, 24, 8, 0, ⟨true, false, false, false, false⟩⟩,
      ⟨"Count", .scalar .int32, 4, 4, 24, ⟨true, true, false, true, false⟩⟩,
      ⟨"Items", .arrayOf (.scalar .int8), 32, 8, 32, ⟨true, false, false, false, false⟩⟩], ⟨64, 8⟩⟩
  method := ⟨"G", ⟨"", "T", "Mix", some ["string", "int&", "T"]⟩,
    [⟨"Text", false, false⟩, ⟨"Count", true, false⟩, ⟨"Items", false, false⟩]⟩
  binding := .unbound
  depth := 0

/-- Registers the function, with a cell for each argument. -/
def mixing : Program Unit :=
  .ask (.redirect mix.function mix.method) fun _ =>
  .ask (.allot (.string "text")) fun _ => .ask (.allot five) fun _ =>
  .ask (.allot (.container .empty)) fun _ => .done none

/-- A call that lends its second argument. -/
def mixCall (w : World Unit) : RedirectedCall Unit :=
  ⟨("T", "Mix"), mix, none, ⟨[⟨0, false⟩, ⟨1, true⟩, ⟨2, false⟩], 0⟩, none, w⟩

/-- The object that the first argument of the call is staged as, if the call fails early. -/
def mixed (w : World Unit) : Option Address :=
  match Redirection.linked ("T", "Mix") mix (callAt 2) w with
  | .ok (.ok (l, _)) v =>
    match Redirection.load ("T", "Mix") mix l (mixCall w).stack (callAt 2)
      { v with state := v.state.enter ("T", "Mix") } with
    | .ok (params, _) u =>
      match Redirection.prepare mix.function l none params (callAt 2) u with
      | .error (.error _) _ =>
        match l.args with
        | [] => none
        | a :: _ =>
          match params[a.param]? with
          | none => none
          | some param =>
            match a.marshaller.stage param.property param.place ⟨u.state.memory.next, a.scratchOffset⟩
              a.byRef (callAt 2) { u with state := (u.state.frameCell (.plain [])).2 } with
            | .ok (_, object) _ => object
            | .error _ _ => none
      | _ => none
    | .error _ _ => none
  | _ => none

theorem run_mixing : endsIn 1 mixing mixingStart (fun w =>
      w.state.redirector? ("T", "Mix") == some mix && w.state.memory.next == 3 &&
      w.bodies.length == 15 && mixed w == some (.foreign 0)) = true := by
  decide +kernel

open Redirection in
/-- The call fails after an object was staged. -/
theorem of_mixed {w : World Unit} {object : Address} (h : mixed w = some object) :
    (∃ e rest v, FailsEarly (callAt 2) (mixCall w) e rest v) ∧
      ∃ s : StagedObject (callAt 2) ("T", "Mix") mix (mixCall w).stack w, s.object = object := by
  unfold mixed at h
  split at h
  · rename_i l m v hlinked
    split at h
    · rename_i params rest u hload
      split at h
      · rename_i e x hprepare
        refine ⟨⟨e, rest, _, .unprepared ⟨v, hlinked, hload⟩ hprepare⟩, ?_⟩
        split at h
        · cases h
        · rename_i a as hargs
          split at h
          · cases h
          · rename_i param hparam
            split at h
            · rename_i pointer made? made hstage
              cases h
              exact ⟨⟨l, m, params, rest, u, ⟨v, hlinked, hload⟩, [], a, as, hargs, [], [], _, .nil,
                param, hparam, pointer, object, made, hstage⟩, rfl⟩
            · cases h
      · cases h
    · cases h
  · cases h

theorem idle_mixingStart : mixingStart.Idle := by
  intro body hbody inv
  have hcases : body = (fun _ => .done none) ∨ body = fun _ => .throw ⟨"no", ""⟩ := by
    simp only [mixingStart, world, List.mem_append, List.mem_cons, List.mem_replicate] at hbody
    grind
  obtain rfl | rfl := hcases
  · exact .inl ⟨_, rfl⟩
  · exact .inr ⟨_, rfl⟩

end Sample

/-- A run that defines no methods leaves all idle that were. -/
theorem World.Idle.of_run {start w : World σ} (h : start.Idle) {p : Program σ} {n : Nat}
    {a : Except ForeignException (Option Address)} (hr : p.run (callAt n) start = .ok a w)
    (hlength : w.bodies.length = start.bodies.length) : w.Idle := by
  unfold World.Idle
  rw [← (bodies_of_run hr).eq_of_length hlength.symm]
  exact h

open Redirection in
/-- `early_failure_unfelt` for a call that has staged a text and reset a number when the library fails
to make an array. -/
theorem early_failure_unfelt_of_mixing :
    ∃ (w v : World Unit) (e : BridgeError) (rest : ArgStack)
      (s : StagedObject (callAt 2) ("T", "Mix") Sample.mix (Sample.mixCall w).stack w),
      Session.Sees (fun _ _ => True) (fun _ => True) Sample.mixingStart [] w ∧
      FailsEarly (callAt 2) (Sample.mixCall w) e rest v ∧ s.object = .foreign 0 ∧
      (Sample.mixCall w).action (callAt 2) w = .ok (.error e, rest) v ∧
      Obstacle (callAt 2) (Sample.mixCall w) e ∧ w.state.Keeps (fun cell => cell < 3) v.state ∧
      v.state.heap.handles.get? s.handle = none ∧ Unfelt 2 (Sample.mixCall w) 0 v := by
  obtain ⟨w, a, hr, hsees, hrun⟩ := Sample.sees_of_endsIn Sample.run_mixing
  simp only [Bool.and_eq_true, beq_iff_eq] at hrun
  obtain ⟨⟨⟨hmix, hnext⟩, hlength⟩, hmixed⟩ := hrun
  obtain ⟨⟨e, rest, v, hearly⟩, s, hobject⟩ := Sample.of_mixed hmixed
  have hidle : w.Idle := Sample.idle_mixingStart.of_run hr hlength
  have hissues : Request.Issues (callAt 2) w
      (.invoke ("T", "Mix") none (Sample.mixCall w).stack none) (Sample.mixCall w) := .invoke hmix
  obtain ⟨haction, hobstacle, hunfelt⟩ :=
    early_failure_unfelt rfl (Sample.connect_world _ _) hsees hissues hearly
  exact ⟨w, v, e, rest, s, hsees, hearly, hobject, haction, hobstacle,
    hunfelt.cells _ (fun k hk => hnext.symm ▸ hk) (hidle.onlyCalls hmix 2 none _ _),
    hunfelt.freed s, hunfelt⟩

end TwinHeap
