import TwinHeap.Proofs.Encoding
import TwinHeap.Proofs.Exchange

/-!
# Making — what the stock library makes of the values that are passed

The methods that make proxies, collections, soft references and boxes only add objects to the heap.
What is there stays as it is, what was looked up stays found, and an object that has a proxy keeps it
(`World.Gains`). So where these methods are the stock ones, every value that the host can hold is
passed, and a counter is all that can fail (`Marshaller.ends_present`).
-/

namespace TwinHeap

variable {σ α : Type}

/-! ## What is looked up -/

namespace State

/-- How proxies for the objects of a class are made: as was found, or as is going to be. -/
def bindingOf (s : State) (classRef : Address) : Option ProxyBinding :=
  match s.bridge.bindings.get? classRef with
  | some b => some b
  | none =>
    match s.resolveBinding classRef with
    | .ok (.ok b) => some b
    | _ => none

variable {s s' : State}

theorem resolveBinding_congr (hhost : s'.host = s.host) (hconfig : s'.bridge.config = s.bridge.config)
    (htypes : s'.foreign.types = s.foreign.types)
    (hmethods : ∀ assembly key,
      s'.foreign.findMethod assembly key = s.foreign.findMethod assembly key) (c : Address) :
    s'.resolveBinding c = s.resolveBinding c := by
  have hbinding (info : ClassInfo) : s'.foreign.findBinding info = s.foreign.findBinding info := by
    unfold Foreign.findBinding Foreign.lookupType
    simp only [htypes, hmethods]
  unfold resolveBinding
  simp only [hhost, hconfig, hbinding]

end State

/-- The methods and what is found of them are the same, apart from what was looked up meanwhile. -/
structure World.Remains (w v : World σ) : Prop where
  bodies : v.bodies = w.bodies
  host : v.state.host = w.state.host
  config : v.state.bridge.config = w.state.bridge.config
  helpers : v.state.bridge.helpers = w.state.bridge.helpers
  types : v.state.foreign.types = w.state.foreign.types
  methods : ∀ assembly key,
    v.state.foreign.findMethod assembly key = w.state.foreign.findMethod assembly key
  met : ∀ {name f}, w.state.bridge.factories.get? name = some f →
    v.state.bridge.factories.get? name = some f
  found : ∀ {name f}, v.state.bridge.factories.get? name = some f →
    w.state.bridge.factories.get? name = some f ∨
      ∃ info : StructInfo, info.fullName = name ∧ w.state.foreign.findFactory info = .ok f
  bindings : ∀ c, v.state.bindingOf c = w.state.bindingOf c

namespace World.Remains

variable {w v u : World σ}

theorem finds (h : w.Remains v) (info : StructInfo) :
    v.state.foreign.findFactory info = w.state.foreign.findFactory info := by
  unfold Foreign.findFactory
  simp only [h.methods]

theorem refl (w : World σ) : w.Remains w :=
  ⟨rfl, rfl, rfl, rfl, rfl, fun _ _ => rfl, id, .inl, fun _ => rfl⟩

theorem trans (h : w.Remains v) (h' : v.Remains u) : w.Remains u where
  bodies := h'.bodies.trans h.bodies
  host := h'.host.trans h.host
  config := h'.config.trans h.config
  helpers := h'.helpers.trans h.helpers
  types := h'.types.trans h.types
  methods assembly key := (h'.methods assembly key).trans (h.methods assembly key)
  met hf := h'.met (h.met hf)
  found hf := by
    obtain hf | ⟨info, hname, hf⟩ := h'.found hf
    · exact h.found hf
    · exact .inr ⟨info, hname, h.finds info ▸ hf⟩
  bindings c := (h'.bindings c).trans (h.bindings c)

/-- A change of other things. -/
theorem of_same {s' : State} (hhost : s'.host = w.state.host)
    (htypes : s'.foreign.types = w.state.foreign.types)
    (hmethods : ∀ assembly key,
      s'.foreign.findMethod assembly key = w.state.foreign.findMethod assembly key)
    (hbridge : ∃ entries redirectors frames metrics, s'.bridge = { w.state.bridge with
      entries := entries, redirectors := redirectors, frames := frames, metrics := metrics }) :
    w.Remains { w with state := s' } := by
  obtain ⟨entries, redirectors, frames, metrics, hbridge⟩ := hbridge
  have hconfig : s'.bridge.config = w.state.bridge.config := by rw [hbridge]
  have hfactories : s'.bridge.factories = w.state.bridge.factories := by rw [hbridge]
  have hbindings : s'.bridge.bindings = w.state.bridge.bindings := by rw [hbridge]
  refine ⟨rfl, hhost, hconfig, by rw [hbridge], htypes, hmethods, fun hf => hfactories ▸ hf,
    fun hf => .inl (hfactories ▸ hf), fun c => ?_⟩
  unfold State.bindingOf
  dsimp only
  rw [hbindings, State.resolveBinding_congr hhost hconfig htypes hmethods]

/-- A change of the heap. -/
theorem withHeap (w : World σ) (h : Heap) :
    w.Remains { w with state := w.state.withHeap h } :=
  .of_same rfl rfl (fun _ _ => rfl) ⟨_, _, _, _, rfl⟩

theorem lend (w : World σ) (v : Value) : w.Remains (w.lend v) :=
  .of_same rfl rfl (fun _ _ => rfl) ⟨_, _, _, _, rfl⟩

theorem discard (w : World σ) (c : Nat) : w.Remains { w with state := w.state.discard c } :=
  .of_same rfl rfl (fun _ _ => rfl) ⟨_, _, _, _, rfl⟩

theorem countCall (w : World σ) (m : Nat) : w.Remains (w.countCall m) :=
  .of_same rfl rfl (w.state.findMethod_countCall m) ⟨_, _, _, _, rfl⟩

end World.Remains

/-! ## What is gained -/

namespace State

/-- What the entry of a host object leads to was given to some object, and stands for the host object
while that is alive. -/
def Proper (s : State) (host : Address) : Prop :=
  ∀ g k, s.bridge.entries.get? host = some g → g.handle = some k → k < s.heap.nextHandle ∧
    ∀ c q, s.heap.handles.get? k = some c → c.target = some q →
      s.heap.Given q ∧ (s.heap.isAlive q = true → s.heap.nativeOf q = some host)

variable {s s' : State} {host q : Address}

/-- The proxy that is found stands for its host object. -/
theorem Proper.nativeOf (h : s.Proper host) (hq : s.findProxy host = some q) :
    s.heap.nativeOf q = some host := by
  obtain ⟨g, hg, htarget⟩ := findProxy_eq_some.1 hq
  obtain ⟨k, hk, htarget⟩ := Option.bind_eq_some_iff.1 htarget
  unfold Heap.target? at htarget
  split at htarget
  · rename_i c hc
    obtain ⟨htarget, halive⟩ := Option.filter_eq_some_iff.1 htarget
    exact ((h g k hg hk).2 c q hc htarget).2 halive
  · cases htarget

/-- Objects and handles that are there matter, and no others. -/
theorem Proper.of_kept (h : s.Proper host)
    (he : s'.bridge.entries.get? host = s.bridge.entries.get? host)
    (hh : ∀ k < s.heap.nextHandle,
      s'.heap.handles.get? k = s.heap.handles.get? k ∨ s'.heap.handles.get? k = none)
    (hn : s.heap.nextHandle ≤ s'.heap.nextHandle) (hx : s.heap.nextObject ≤ s'.heap.nextObject)
    (ho : ∀ i < s.heap.nextObject, s'.heap.objects.get? i = s.heap.objects.get? i) :
    s'.Proper host := by
  intro g k hg hk
  obtain ⟨hlt, hall⟩ := h g k (he ▸ hg) hk
  refine ⟨Nat.lt_of_lt_of_le hlt hn, fun c q hc hq => ?_⟩
  obtain hsame | hnone := hh k hlt
  · obtain ⟨⟨i, rfl, hi⟩, halive⟩ := hall c q (hsame ▸ hc) hq
    have hget : s'.heap.get? (.foreign i) = s.heap.get? (.foreign i) := ho i hi
    refine ⟨⟨i, rfl, Nat.lt_of_lt_of_le hi hx⟩, fun ha => ?_⟩
    unfold Heap.isAlive at ha
    rw [Heap.nativeOf_eq, hget, ← Heap.nativeOf_eq]
    exact halive (by unfold Heap.isAlive; rwa [← hget])
  · rw [hnone] at hc
    cases hc

end State

/-- The heap has gained objects, and entries that are proper have stayed so. -/
structure World.Gains (w v : World σ) : Prop extends World.Remains w v where
  numbered : w.state.heap.Numbered → v.state.heap.Numbered
  next : w.state.heap.nextObject ≤ v.state.heap.nextObject
  objects : ∀ i < w.state.heap.nextObject,
    v.state.heap.objects.get? i = w.state.heap.objects.get? i
  proper : ∀ a, w.state.Proper a → v.state.Proper a

namespace World.Gains

variable {w v u : World σ}

theorem refl (w : World σ) : w.Gains w :=
  ⟨.refl w, id, Nat.le_refl _, fun _ _ => rfl, fun _ => id⟩

theorem trans (h : w.Gains v) (h' : v.Gains u) : w.Gains u where
  toRemains := h.toRemains.trans h'.toRemains
  numbered hn := h'.numbered (h.numbered hn)
  next := Nat.le_trans h.next h'.next
  objects i hi := (h'.objects i (Nat.lt_of_lt_of_le hi h.next)).trans (h.objects i hi)
  proper a ha := h'.proper a (h.proper a ha)

/-- An object that is there stays. -/
theorem get? (h : w.Gains v) (hn : w.state.heap.Numbered) {i : Nat} {object : Managed}
    (hi : w.state.heap.objects.get? i = some object) :
    v.state.heap.objects.get? i = some object :=
  (h.objects i (hn.below i (Table.mem_keys_of_get? hi))).trans hi

theorem nativeOf (h : w.Gains v) (hn : w.state.heap.Numbered) {q host : Address}
    (hq : w.state.heap.nativeOf q = some host) : v.state.heap.nativeOf q = some host := by
  obtain ⟨i, rfl, hi⟩ := hn.given (Heap.isAlive_of_nativeOf hq)
  have hget : v.state.heap.get? (.foreign i) = w.state.heap.get? (.foreign i) := h.objects i hi
  rwa [Heap.nativeOf_eq, hget, ← Heap.nativeOf_eq]

/-- A change outside of the heap. -/
theorem of_same {s' : State} (hhost : s'.host = w.state.host)
    (hforeign : s'.foreign = w.state.foreign)
    (hbridge : ∃ redirectors frames metrics, s'.bridge = { w.state.bridge with
      redirectors := redirectors, frames := frames, metrics := metrics }) :
    w.Gains { w with state := s' } := by
  obtain ⟨redirectors, frames, metrics, hbridge⟩ := hbridge
  have hheap : s'.heap = w.state.heap := congrArg Foreign.heap hforeign
  have hentries : s'.bridge.entries = w.state.bridge.entries := by rw [hbridge]
  have hremains : w.Remains { w with state := s' } :=
    .of_same hhost (by rw [hforeign]) (fun _ _ => by rw [hforeign]) ⟨_, _, _, _, hbridge⟩
  refine ⟨hremains, fun hn => hheap ▸ hn, Nat.le_of_eq (by rw [hheap]), fun _ _ => by rw [hheap],
    fun a ha => ha.of_kept (by rw [hentries]) (fun _ _ => .inl (by rw [hheap])) ?_ ?_ fun _ _ => ?_⟩
  all_goals simp only [hheap, Nat.le_refl]

/-- A cell was lent meanwhile. -/
theorem lent {new : Value} (h : (w.lend new).Gains u) :
    w.Gains { u with state := u.state.discard w.state.memory.next } := by
  have hlend : w.Gains (w.lend new) := of_same rfl rfl ⟨_, _, _, rfl⟩
  have hdiscard (c : Nat) : u.Gains { u with state := u.state.discard c } :=
    of_same rfl rfl ⟨_, _, _, rfl⟩
  exact hlend.trans (h.trans (hdiscard _))

theorem countCall (w : World σ) (m : Nat) : w.Gains (w.countCall m) :=
  ⟨.countCall w m, id, Nat.le_refl _, fun _ _ => rfl,
    fun _ ha => ha.of_kept rfl (fun _ _ => .inl rfl) (Nat.le_refl _) (Nat.le_refl _) fun _ _ => rfl⟩

/-- A change of handles, apart from what an entry is turned into. -/
theorem of_handles {h : Heap} {entries : Table Address Grip} {frames : List CallFrame}
    (ho : h.objects = w.state.heap.objects) (hx : h.nextObject = w.state.heap.nextObject)
    (hn : w.state.heap.nextHandle ≤ h.nextHandle)
    (hh : ∀ k < w.state.heap.nextHandle,
      h.handles.get? k = w.state.heap.handles.get? k ∨ h.handles.get? k = none)
    (he : ∀ a, entries.get? a = w.state.bridge.entries.get? a ∨ entries.get? a = none) :
    w.Gains { w with state := { w.state.withHeap h with
      bridge := { w.state.bridge with entries := entries, frames := frames } } } where
  toRemains := .of_same rfl rfl (fun _ _ => rfl) ⟨_, _, _, _, rfl⟩
  numbered hn := hn.of_objects ho hx
  next := Nat.le_of_eq hx.symm
  objects _ _ := by
    show h.objects.get? _ = _
    rw [ho]
  proper a ha := by
    obtain hsame | hnone := he a
    · refine ha.of_kept hsame hh hn (Nat.le_of_eq hx.symm) fun _ _ => ?_
      show h.objects.get? _ = _
      rw [ho]
    · intro g k hg
      cases hnone.symm.trans hg

theorem allocate (w : World σ) (object : Managed) :
    w.Gains { w with state := w.state.withHeap (w.state.heap.allocate object).2 } := by
  have hobjects (i : Nat) (hi : i < w.state.heap.nextObject) :
      (w.state.heap.allocate object).2.objects.get? i = w.state.heap.objects.get? i := by
    show (w.state.heap.objects.insert w.state.heap.nextObject object).get? i = _
    rw [Table.get?_insert, if_neg (Nat.ne_of_gt hi)]
  exact ⟨.withHeap _ _, fun hn => hn.allocate object, Nat.le_succ _, hobjects,
    fun _ ha => ha.of_kept rfl (fun _ _ => .inl rfl) (Nat.le_refl _) (Nat.le_succ _) hobjects⟩

/-- The call holds an object. -/
theorem root (w : World σ) (a : Address) : w.Gains { w with state := w.state.root a } := by
  unfold State.root
  split
  · exact .refl w
  · refine of_handles (h := (Grip.make w.state.heap a .strong).2) rfl rfl (Nat.le_succ _)
      (fun k hk => .inl ?_) fun _ => .inl rfl
    show (w.state.heap.handles.insert w.state.heap.nextHandle _).get? k = _
    rw [Table.get?_insert, if_neg (Nat.ne_of_gt hk)]

theorem rooted (w : World σ) (made : Option Address) : w.Gains (Redirection.rooted made w) := by
  cases made with
  | none => exact .refl w
  | some a => exact root w a

theorem dropEntry (w : World σ) (host : Address) :
    w.Gains { w with state := w.state.dropEntry host } := by
  unfold State.dropEntry
  split
  · exact .refl w
  · rename_i g hg
    obtain ⟨ho, hx⟩ := Heap.objects_release g w.state.heap
    refine of_handles ho hx ?_ (fun k hk => ?_) fun a => ?_
    · obtain ⟨_ | _, _⟩ := g <;> exact Nat.le_refl _
    · obtain ⟨_ | k', st⟩ := g
      · exact .inl rfl
      · show (w.state.heap.handles.erase k').get? k = _ ∨ (w.state.heap.handles.erase k').get? k = _
        rw [Table.get?_erase]
        split
        · exact .inr rfl
        · exact .inl rfl
    · rw [Table.get?_erase]
      split
      · exact .inr rfl
      · exact .inl rfl

/-- The boxing methods of a struct are remembered when it is met. -/
theorem meet {info : StructInfo} {f : StructFactory} (e : Log.Event)
    (hn : w.state.bridge.factories.get? info.fullName = none)
    (hf : w.state.foreign.findFactory info = .ok f) :
    w.Gains { w with state := { w.state.report e with bridge := { w.state.bridge with
      factories := w.state.bridge.factories.insert info.fullName f } } } where
  bodies := rfl
  host := rfl
  config := rfl
  helpers := rfl
  types := rfl
  methods _ _ := rfl
  -- A struct that was met before has another name, since this one was unknown until now.
  met {name g} hg := by
    show (w.state.bridge.factories.insert _ _).get? name = some g
    rw [Table.get?_insert, if_neg (by rintro rfl; rw [hn] at hg; cases hg), hg]
  found {name g} hg := by
    change (w.state.bridge.factories.insert _ _).get? name = some g at hg
    rw [Table.get?_insert] at hg
    split at hg
    · rename_i hname
      cases hg
      exact .inr ⟨info, hname, hf⟩
    · exact .inl hg
  bindings _ := rfl
  numbered := id
  next := Nat.le_refl _
  objects _ _ := rfl
  proper _ ha :=
    ha.of_kept rfl (fun _ _ => .inl rfl) (Nat.le_refl _) (Nat.le_refl _) fun _ _ => rfl

/-- How proxies are made for a class is remembered when it is resolved. -/
theorem resolve {c : Address} {b : ProxyBinding} (e : Log.Event)
    (hb : w.state.resolveBinding c = .ok (.ok b)) (hn : w.state.bridge.bindings.get? c = none) :
    w.Gains { w with state := { w.state.report e with bridge := { w.state.bridge with
      bindings := w.state.bridge.bindings.insert c b } } } where
  bodies := rfl
  host := rfl
  config := rfl
  helpers := rfl
  types := rfl
  methods _ _ := rfl
  met := id
  found := .inl
  bindings c' := by
    unfold State.bindingOf
    show (match (w.state.bridge.bindings.insert c b).get? c' with
      | some b => some b
      | none =>
        match w.state.resolveBinding c' with
        | .ok (.ok b) => some b
        | _ => none) = _
    rw [Table.get?_insert]
    -- For the class itself the answer that is remembered is the one that would be found again.
    by_cases hc : c = c'
    · subst hc
      rw [if_pos rfl, hn, hb]
    · rw [if_neg hc]
  numbered := id
  next := Nat.le_refl _
  objects _ _ := rfl
  proper _ ha :=
    ha.of_kept rfl (fun _ _ => .inl rfl) (Nat.le_refl _) (Nat.le_refl _) fun _ _ => rfl

end World.Gains

/-! ## Stock methods -/

/-- Bodies that leave storage alone are run as they are, with calls nested at most so deep. -/
def Invoker.Performs (n : Nat) (call : Invoker σ) : Prop :=
  ∀ {m : Nat} {inv : Invocation} {w u : World σ} {body : Invocation → Program σ}
    {answer : Except ForeignException (Option Address)}, w.bodies[m]? = some body →
    (body inv).run (callAt n) (w.countCall m) = .ok answer u → u.state.memory = w.state.memory →
    call m inv w = .ok answer u

theorem Invoker.performs_callAt (n : Nat) : (callAt (n + 1) : Invoker σ).Performs n := by
  intro m inv w u body answer hb hrun _
  rw [callAt_succ, hb]
  exact hrun

theorem Invoker.performs_guard (n : Nat) (K : Nat → Prop) :
    (Invoker.guard (callAt (n + 1)) K : Invoker σ).Performs n := by
  intro m inv w u body answer hb hrun hm
  have hcall := performs_callAt n hb hrun hm
  refine (guard_of_spares ?_).trans hcall
  unfold Spares
  rw [hcall]
  exact State.keeps_of_memory hm

namespace Act

variable {call : Invoker σ} {w u : World σ} {n m : Nat} {receiver answer : Option Address}
  {args : List Address} {body : Invocation → Program σ}

/-- A stock method answers, and what it answers is gone on with. -/
theorem callMethod_of_body {f : Except ForeignException (Option Address) → Act σ α}
    (hcall : call.Performs n) (hb : w.bodies[m]? = some body)
    (hrun : (body ⟨receiver, args⟩).run (callAt n) (w.countCall m) = .ok (.ok answer) u)
    (hm : u.state.memory = w.state.memory) :
    (callMethod m receiver args >>= f) call w = f (.ok answer) call u :=
  bind_of_ok (hcall hb hrun hm)

end Act

/-! ## Making a proxy -/

/-- Apart from what is noted, only what the object `i` stands for has changed. -/
structure World.Tells (i : Nat) (w v : World σ) : Prop extends World.Remains w v where
  entries : v.state.bridge.entries = w.state.bridge.entries
  heap : v.state.heap = { w.state.heap with objects := v.state.heap.objects }
  numbered : w.state.heap.Numbered → v.state.heap.Numbered
  objects : ∀ j, j ≠ i → v.state.heap.objects.get? j = w.state.heap.objects.get? j

namespace World.Tells

variable {w v u : World σ} {i : Nat}

theorem refl (i : Nat) (w : World σ) : w.Tells i w :=
  ⟨.refl w, rfl, rfl, id, fun _ _ => rfl⟩

theorem trans (h : w.Tells i v) (h' : v.Tells i u) : w.Tells i u where
  toRemains := h.toRemains.trans h'.toRemains
  entries := h'.entries.trans h.entries
  heap := by rw [h'.heap, h.heap]
  numbered hn := h'.numbered (h.numbered hn)
  objects j hj := (h'.objects j hj).trans (h.objects j hj)

theorem countCall (i : Nat) (w : World σ) (m : Nat) : w.Tells i (w.countCall m) :=
  ⟨.countCall w m, rfl, rfl, id, fun _ _ => rfl⟩

theorem setNative (w : World σ) (i : Nat) (native : Address) :
    w.Tells i { w with state := w.state.withHeap (w.state.heap.setNative (.foreign i) native) } := by
  refine ⟨.withHeap _ _, rfl, rfl, fun hn => ?_, fun j hj => ?_⟩
  · show (w.state.heap.setNative (.foreign i) native).Numbered
    unfold Heap.setNative
    exact hn.modify _ _
  · show (w.state.heap.objects.modify i _).get? j = _
    rw [Table.get?_modify, if_neg (Ne.symm hj)]

/-- A cell was lent meanwhile. -/
theorem lent {new : Value} (h : (w.lend new).Tells i u) :
    w.Tells i { u with state := u.state.discard w.state.memory.next } where
  toRemains := (Remains.lend w new).trans (h.toRemains.trans (.discard u _))
  entries := h.entries
  heap := h.heap
  numbered := h.numbered
  objects := h.objects

end World.Tells

namespace Identity

open Act

variable {call : Invoker σ} {w : World σ} {n i m : Nat} {host old : Address} {b : ProxyBinding}
  {E : Failure → World σ → Prop}

/-- The object stands for the host object now, and that is all. -/
def Told (i : Nat) (host : Address) (w v : World σ) : Prop :=
  w.Tells i v ∧ v.state.heap.nativeOf (.foreign i) = some host

/-- A method that connects its receiver is called with the host address. -/
theorem ends_connect (hcall : call.Performs n) (hhost : ∃ j, host = .hostObject j)
    (hb : w.bodies[m]? = some fun inv => (Library.connect inv).toProgram)
    (hi : w.state.heap.nativeOf (.foreign i) = some old) :
    Ends ((callMethod m (some (.foreign i)) [.ofCell w.state.memory.next] >>= fun a =>
        discard (ofForeign a) : Act σ Unit) call (w.lend (.plain host.octets)))
      (fun _ u => Told i host w { u with state := u.state.discard w.state.memory.next })
      fun _ _ => False := by
  let u := (w.lend (.plain host.octets)).countCall m
  have hplace : u.state.addressAt (.ofCell w.state.memory.next) = host :=
    State.addressAt_ofCell (w.get_lend_self _) (Address.fits_of_hostObject hhost)
  have hrun := run_connect (callAt n) u (.foreign i) (.ofCell w.state.memory.next)
  rw [hplace] at hrun
  rw [callMethod_of_body (w := w.lend (.plain host.octets)) hcall hb hrun rfl]
  refine ⟨((World.Tells.countCall i _ m).trans (.setNative u i host)).lent, ?_⟩
  show (u.state.heap.setNative (.foreign i) host).nativeOf (.foreign i) = some host
  rw [Heap.nativeOf_setNative, if_pos rfl, show u.state.heap.nativeOf _ = some old from hi]
  rfl

/-- A method that does nothing is called. -/
theorem ends_idle {receiver : Option Address} {args : List Address} (hcall : call.Performs n)
    (hb : w.bodies[m]? = some fun _ => .done none) (i : Nat) :
    Ends ((callMethod m receiver args >>= fun a => discard (ofForeign a) : Act σ Unit) call w)
      (fun _ u => w.Tells i u ∧ u.state.heap = w.state.heap) E := by
  rw [callMethod_of_body (u := w.countCall m) hcall hb rfl rfl]
  exact ⟨.countCall i w m, rfl⟩

/-- The stock methods connect a new proxy. -/
theorem ends_construct (hcall : call.Performs n) (hhost : ∃ j, host = .hostObject j)
    (hbefore : w.bodies[w.state.bridge.helpers.beforeConstruct]? =
      some fun inv => (Library.connect inv).toProgram)
    (hafter : w.bodies[w.state.bridge.helpers.afterConstruct]? = some fun _ => .done none)
    (hb : w.bodies[b.method]? = some
      (if b.takesNative then fun inv => (Library.connect inv).toProgram else fun _ => .done none))
    (hi : w.state.heap.nativeOf (.foreign i) = some .null) :
    Ends (construct b (.foreign i) host call w) (fun _ v => Told i host w v) fun _ _ => False := by
  unfold construct Engine.beforeConstruct Engine.afterConstruct Engine.withPointer
  refine ends_bind (Q := fun _ v => Told i host w v) (ends_lent ?_) fun _ u hu => ?_
  · exact Act.state_bind ▸ ends_connect hcall hhost hbefore hi
  refine ends_bind (Q := fun _ v => Told i host w v) (ends_lent ?_) fun _ v hv => ?_
  · rw [← hu.1.bodies] at hb
    cases htakes : b.takesNative with
    | true =>
      rw [htakes] at hb
      refine (ends_connect hcall hhost hb hu.2).mono (fun _ x hx => ?_) fun _ _ hf => hf
      exact ⟨hu.1.trans hx.1, hx.2⟩
    | false =>
      rw [htakes] at hb
      refine (ends_idle (w := u.lend _) hcall hb i).mono (fun _ x hx => ?_) fun _ _ hf => hf
      refine ⟨hu.1.trans hx.1.lent, ?_⟩
      show x.state.heap.nativeOf _ = _
      rw [hx.2]
      exact hu.2
  · rw [Act.state_bind, hv.1.helpers]
    rw [← hv.1.bodies] at hafter
    refine (ends_idle hcall hafter i).mono (fun _ x hx => ?_) fun _ _ hf => hf
    exact ⟨hv.1.trans hx.1, by rw [hx.2]; exact hv.2⟩

end Identity

/-- The entry of the object is in order, and its class has a proxy class of which the stock methods
construct instances. -/
structure World.Connects (w : World σ) (host : Address) : Prop where
  proper : w.state.Proper host
  made : ∃ c b, w.state.host.classOf host = .ok c ∧ w.state.bindingOf c = some b ∧
    w.state.foreign.isType b.type = true ∧ w.bodies[b.method]? = some
      (if b.takesNative then fun inv => (Library.connect inv).toProgram else fun _ => .done none)

/-- The methods that values are passed by have the stock bodies; those of a struct copy as many octets
as the parameters `ps` of its type take. -/
structure World.Presents (ps : List Property) (w : World σ) : Prop where
  beforeConstruct : w.bodies[w.state.bridge.helpers.beforeConstruct]? =
    some fun inv => (Library.connect inv).toProgram
  afterConstruct : w.bodies[w.state.bridge.helpers.afterConstruct]? = some fun _ => .done none
  collection : ∀ {p : Property} {make write : Nat},
    w.state.bridge.helpers.collection p = .ok (make, write) →
      w.bodies[make]? = some fun inv => (Library.createCollection inv).toProgram
  softReference : ∀ {p : Property} {make write : Nat},
    w.state.bridge.helpers.softReference p = .ok (make, write) →
      w.bodies[make]? = some fun inv => (Library.createSoftReference inv).toProgram
  /-- A struct was met, or can be found. -/
  met : ∀ {p : Property} {info : StructInfo}, p ∈ ps → p.structInfo = .ok info →
    ∃ f, w.state.bridge.factories.get? info.fullName = some f ∨
      w.state.foreign.findFactory info = .ok f
  struct : ∀ {p : Property} {info : StructInfo} {f : StructFactory}, p ∈ ps →
    p.structInfo = .ok info → (w.state.bridge.factories.get? info.fullName = some f ∨
      ∃ info' : StructInfo, info'.fullName = info.fullName ∧
        w.state.foreign.findFactory info' = .ok f) →
    w.bodies[f.fromNative]? = some fun inv => (Library.boxStruct p.size inv).toProgram

/-- A counter or a size was too large. -/
def Failure.IsOverflow (f : Failure) : Prop := ∃ o, f = .panic (.overflow o)

namespace World.Gains

variable {w v : World σ}

theorem connects (h : w.Gains v) {host : Address} (hw : w.Connects host) : v.Connects host := by
  obtain ⟨hproper, c, b, hclass, hbinding, htype, hbody⟩ := hw
  refine ⟨h.proper host hproper, c, b, h.host ▸ hclass, (h.bindings c).trans hbinding, ?_,
    h.bodies ▸ hbody⟩
  unfold Foreign.isType
  rw [h.types]
  exact htype

theorem presents (h : w.Gains v) {ps : List Property} (hw : w.Presents ps) : v.Presents ps where
  beforeConstruct := by rw [h.bodies, h.helpers]; exact hw.beforeConstruct
  afterConstruct := by rw [h.bodies, h.helpers]; exact hw.afterConstruct
  collection hp := by rw [h.bodies]; exact hw.collection (h.helpers ▸ hp)
  softReference hp := by rw [h.bodies]; exact hw.softReference (h.helpers ▸ hp)
  met {p info} hp hinfo := by
    obtain ⟨f, hf⟩ := hw.met hp hinfo
    exact ⟨f, hf.imp h.met fun hf => (h.finds info).trans hf⟩
  struct hp hinfo hf := by
    rw [h.bodies]
    refine hw.struct hp hinfo ?_
    obtain hf | ⟨info, hname, hf⟩ := hf
    · exact h.found hf
    · exact .inr ⟨info, hname, h.finds info ▸ hf⟩

theorem noted (h : Act.Noted w v) : w.Gains v := by
  obtain ⟨journal, metrics, rfl⟩ := h
  exact of_same rfl rfl ⟨_, _, _, rfl⟩

/-- A new proxy was connected. -/
theorem told {host : Address} {type : Nat} (hn : w.state.heap.Numbered)
    (ht : w.state.foreign.isType type = true)
    (h : Identity.Told w.state.heap.nextObject host
      { w with state := w.state.addProxy host type } v) : w.Gains v := by
  obtain ⟨htells, hnative⟩ := h
  rw [State.addProxy_of_isType ht] at htells
  have hobjects (i : Nat) (hi : i < w.state.heap.nextObject) :
      v.state.heap.objects.get? i = w.state.heap.objects.get? i := by
    refine (htells.objects i (Nat.ne_of_lt hi)).trans ?_
    show (w.state.heap.objects.insert w.state.heap.nextObject _).get? i = _
    rw [Table.get?_insert, if_neg (Nat.ne_of_gt hi)]
  have hnext : v.state.heap.nextObject = w.state.heap.nextObject + 1 := by rw [htells.heap]; rfl
  have hhandle : v.state.heap.nextHandle = w.state.heap.nextHandle + 1 := by rw [htells.heap]; rfl
  have hhandles : v.state.heap.handles = w.state.heap.handles.insert w.state.heap.nextHandle
      ⟨some (.foreign w.state.heap.nextObject), false⟩ := by rw [htells.heap]; rfl
  have hentries : v.state.bridge.entries =
      w.state.bridge.entries.insert host ⟨some w.state.heap.nextHandle, .strong⟩ := htells.entries
  refine ⟨?_, fun _ => htells.numbered ?_, hnext ▸ Nat.le_succ _, hobjects, fun a ha => ?_⟩
  · refine Remains.trans ?_ htells.toRemains
    exact .of_same rfl rfl (fun _ _ => rfl) ⟨_, _, _, _, rfl⟩
  · exact (hn.allocate (.object type .null)).make (.foreign w.state.heap.nextObject) .strong
  -- The entry of the host object leads to the new proxy, which knows it; others are as they were.
  by_cases hhost : host = a
  · subst hhost
    intro g k hg hk
    rw [hentries, Table.get?_insert, if_pos rfl] at hg
    cases hg
    cases hk
    refine ⟨hhandle ▸ Nat.lt_succ_self _, fun c q hc hq => ?_⟩
    rw [hhandles, Table.get?_insert, if_pos rfl] at hc
    cases hc
    cases hq
    exact ⟨⟨_, rfl, hnext ▸ Nat.lt_succ_self _⟩, fun _ => hnative⟩
  · refine ha.of_kept ?_ (fun k hk => .inl ?_) (hhandle ▸ Nat.le_succ _) (hnext ▸ Nat.le_succ _)
      hobjects
    · rw [hentries, Table.get?_insert, if_neg hhost]
    · rw [hhandles, Table.get?_insert, if_neg (Nat.ne_of_gt hk)]

end World.Gains

namespace Identity

open Act

variable {call : Invoker σ} {w : World σ} {n : Nat} {host : Address} {ps : List Property}

/-- A counter that does not overflow is all that is changed. -/
theorem ends_counted (name : String) (k : Nat) : Ends (count name k call w)
    (fun _ v => w.Gains v) fun f _ => f.IsOverflow := by
  cases h : count name k call w with
  | ok _ v => exact .noted (noted_of_count h)
  | error f v =>
    have hends : Ends (count name k call w) _ _ := Redirection.ends_count name k
    rw [h] at hends
    exact hends

theorem ends_bindingFor {c : Address} {b : ProxyBinding} (hb : w.state.bindingOf c = some b)
    {E : Failure → World σ → Prop} :
    Ends (bindingFor c call w) (fun found v => found = .ok b ∧ w.Gains v) E := by
  unfold bindingFor
  rw [Act.state_bind]
  unfold State.bindingOf at hb
  cases hget : w.state.bridge.bindings.get? c with
  | some b' =>
    rw [hget] at hb
    cases hb
    exact ⟨rfl, .refl w⟩
  | none =>
    rw [hget] at hb
    dsimp only at hb ⊢
    split at hb
    · rename_i hresolve
      cases hb
      obtain ⟨info, hinfo⟩ : ∃ info, w.state.host.classInfo c = .ok info := by
        unfold State.resolveBinding at hresolve
        cases hinfo : w.state.host.classInfo c with
        | ok info => exact ⟨info, rfl⟩
        | error e => rw [hinfo] at hresolve; cases hresolve
      rw [hinfo, hresolve]
      exact ⟨rfl, .resolve _ hresolve hget⟩
    · cases hb

/-- An object whose class has a stock proxy gets one. -/
theorem ends_proxyFor (hcall : call.Performs n) (hw : w.Presents ps) (hn : w.state.heap.Numbered)
    (hhost : w.Connects host) :
    Ends (proxyFor host call w)
      (fun q v => w.Gains v ∧ v.state.heap.nativeOf q = some host) fun f _ => f.IsOverflow := by
  unfold proxyFor
  rw [Act.state_bind]
  cases hfind : w.state.findProxy host with
  | some q => exact ⟨.refl w, hhost.proper.nativeOf hfind⟩
  | none =>
    have hdrop := World.Gains.dropEntry w host
    refine ends_bind (Q := fun _ v => v = { w with state := w.state.dropEntry host }) rfl ?_
    rintro _ _ rfl
    obtain ⟨-, c, b, hclass, hbinding, htype, hbody⟩ := hdrop.connects hhost
    rw [Act.state_bind, hclass]
    refine ends_bind (Q := fun c' v => c' = c ∧ v = { w with state := w.state.dropEntry host })
      ⟨rfl, rfl⟩ ?_
    rintro c _ ⟨rfl, rfl⟩
    -- Its class has a stock proxy, which stays so while the bridge finds out.
    refine ends_bind (ends_bindingFor hbinding) ?_
    rintro _ x ⟨rfl, hx⟩
    have hgains := hdrop.trans hx
    have hpresents := hgains.presents hw
    have hnumbered := hgains.numbered hn
    have htype : x.state.foreign.isType b.type = true := by
      unfold Foreign.isType
      rw [hx.types]
      exact htype
    refine ends_bind (Q := fun b' v => b' = b ∧ v = x) ⟨rfl, rfl⟩ ?_
    rintro b x ⟨rfl, rfl⟩
    refine ends_bind (Q := fun (made : Option Address) v =>
      made = some (.foreign x.state.heap.nextObject) ∧
        v = { x with state := (x.state.instantiate b.type).2 }) ?_ ?_
    · exact ⟨congrArg Prod.fst (State.instantiate_of_isType htype), rfl⟩
    rintro _ _ ⟨rfl, rfl⟩
    refine ends_bind (Q := fun _ v => v = { x with state := x.state.addProxy host b.type }) rfl ?_
    rintro _ _ rfl
    -- The three methods that connect and construct are the stock ones, so they do not fail.
    have hconstruct : Ends (construct b (.foreign x.state.heap.nextObject) host call
        { x with state := x.state.addProxy host b.type })
        (fun _ v => Told x.state.heap.nextObject host
          { x with state := x.state.addProxy host b.type } v) fun _ _ => False := by
      rw [State.addProxy_of_isType htype]
      refine ends_construct hcall (Host.isObject_of_classOf hclass)
        hpresents.beforeConstruct hpresents.afterConstruct (hx.bodies ▸ hbody) ?_
      have hnew : (x.state.heap.allocate (.object b.type .null)).2.nativeOf
          (.foreign x.state.heap.nextObject) = some .null := by
        rw [Heap.nativeOf_allocate, if_pos rfl]
        rfl
      refine Eq.trans (Heap.nativeOf_congr ?_ _) hnew
      rfl
    cases hmade : construct b (.foreign x.state.heap.nextObject) host call
      { x with state := x.state.addProxy host b.type } with
    | error f v =>
      rw [hmade] at hconstruct
      exact hconstruct.elim
    | ok _ v =>
      rw [hmade] at hconstruct
      have htold : x.Gains v := .told hnumbered htype hconstruct
      refine ends_bind (Q := fun outcome y => outcome = .ok () ∧ y = v) ?_ ?_
      · rw [attempt_of_ok hmade]
        exact ⟨rfl, rfl⟩
      rintro _ y ⟨rfl, rfl⟩
      refine ends_bind (Q := fun _ z => y.Gains z) (.of_same rfl rfl ⟨_, _, _, rfl⟩) fun _ z hz => ?_
      refine ends_bind (ends_counted _ _) fun _ u hu => ?_
      have hend := hz.trans hu
      exact ⟨hgains.trans (htold.trans hend), hend.nativeOf (htold.numbered hnumbered) hconstruct.2⟩

end Identity

/-! ## Making collections, soft references and boxes -/

section Bodies

variable {call : Invoker σ} {w : World σ} {property place offset : Address}

theorem run_createCollection :
    ((Library.createCollection ⟨none, [property, place]⟩).toProgram).run call w =
      .ok (.ok (some (.foreign w.state.heap.nextObject))) { w with
        state := w.state.withHeap (w.state.heap.allocate
          (.collection (w.state.valueAt (w.state.addressAt place)).contents)).2 } :=
  rfl

theorem run_createSoftReference :
    ((Library.createSoftReference ⟨none, [property, place]⟩).toProgram).run call w =
      .ok (.ok (some (.foreign w.state.heap.nextObject))) { w with
        state := w.state.withHeap (w.state.heap.allocate
          (.soft (w.state.valueAt (w.state.addressAt place)).text)).2 } :=
  rfl

theorem run_boxStruct (size : Nat) :
    ((Library.boxStruct size ⟨none, [place, offset]⟩).toProgram).run call w =
      .ok (.ok (some (.foreign w.state.heap.nextObject))) { w with
        state := w.state.withHeap (w.state.heap.allocate (Heap.box
          ((w.state.readAt (w.state.addressAt place) (wordAt (w.state.readAt offset 4) 0 + size)).drop
            (wordAt (w.state.readAt offset 4) 0)))).2 } :=
  rfl

end Bodies

/-- What lies elsewhere is not changed by lending a cell. -/
theorem World.valueAt_lend {w : World σ} {c o : Nat} (hc : c < w.state.memory.next) (v : Value) :
    (w.lend v).state.valueAt (.cell c o) = w.state.valueAt (.cell c o) := by
  have hget : (w.lend v).state.memory.get c = w.state.memory.get c := by
    show ((w.state.memory.cells.insert _ _).get? c).getD _ = _
    rw [Table.get?_insert, if_neg (Nat.ne_of_gt hc)]
    rfl
  show ((w.lend v).state.memory.get c).skip o = _
  rw [hget]
  rfl

theorem Heap.get?_allocate_self (h : Heap) (object : Managed) :
    (h.allocate object).2.objects.get? h.nextObject = some object :=
  (Table.get?_insert _ _ _ _).trans (if_pos rfl)

namespace Engine

open Act World

variable {call : Invoker σ} {w : World σ} {n m c o : Nat} {body : Invocation → Program σ}
  {E : Failure → World σ → Prop}

/-- A method of the factory makes an object of a host value. -/
theorem ends_create {f : Value → Managed} (hcall : call.Performs n) (hb : w.bodies[m]? = some body)
    (hrun : ∀ property place call (x : World σ), (body ⟨none, [property, place]⟩).run call x =
      .ok (.ok (some (.foreign x.state.heap.nextObject))) { x with
        state := x.state.withHeap
          (x.state.heap.allocate (f (x.state.valueAt (x.state.addressAt place)))).2 })
    (hc : c < w.state.memory.next) :
    Ends (create m (.cell c o) call w)
      (fun made v => made = some (.foreign w.state.heap.nextObject) ∧ w.Gains v ∧
        v.state.heap.objects.get? w.state.heap.nextObject =
          some (f (w.state.valueAt (.cell c o)))) E := by
  let u := w.lend (.plain Address.descriptor.octets)
  let x := (u.lend (.plain (Address.cell c o).octets)).countCall m
  have hvalue : x.state.valueAt (x.state.addressAt (.ofCell u.state.memory.next)) =
      w.state.valueAt (.cell c o) := by
    rw [u.addressAt_lend c o m]
    exact (valueAt_lend (w := u) (Nat.lt_succ_of_lt hc) _).trans (valueAt_lend hc _)
  have hmade := hrun (.ofCell w.state.memory.next) (.ofCell u.state.memory.next) (callAt n) x
  rw [hvalue] at hmade
  unfold create withPointer
  refine ends_lent (ends_lent ?_)
  rw [callMethod_of_body (w := u.lend (.plain (Address.cell c o).octets)) hcall hb hmade rfl]
  have hgains : (u.lend (.plain (Address.cell c o).octets)).Gains _ :=
    (Gains.countCall _ m).trans (.allocate x (f (w.state.valueAt (.cell c o))))
  exact ⟨rfl, hgains.lent.lent, Heap.get?_allocate_self _ _⟩

/-- A method of a struct boxes a host value. -/
theorem ends_boxStruct {size : Nat} {f : StructFactory} (hcall : call.Performs n)
    (hb : w.bodies[f.fromNative]? = some fun inv => (Library.boxStruct size inv).toProgram)
    (hc : c < w.state.memory.next) :
    Ends (boxStruct f (.cell c o) call w)
      (fun made v => made = some (.foreign w.state.heap.nextObject) ∧ w.Gains v ∧
        v.state.heap.objects.get? w.state.heap.nextObject =
          some (Heap.box (w.state.readAt (.cell c o) size))) E := by
  let u := w.lend (.plain (Address.cell c o).octets)
  let x := (u.lend (.plain (wordOctets 0))).countCall f.fromNative
  -- The method is passed two cells: one with the address of the data, and one with the offset in it.
  obtain ⟨hplace, hoffset⟩ := place_and_offset_lend (u := u) (x := x) rfl rfl
  have hreaches : u.state.Reaches (.cell c o) := by
    rintro _ _ ⟨⟩
    exact Nat.lt_succ_of_lt hc
  -- Neither cell is where the data lies.
  have hread : x.state.readAt (.cell c o) size = w.state.readAt (.cell c o) size := by
    refine Eq.trans (readAt_lend hreaches _ size) (readAt_lend ?_ _ size)
    rintro _ _ ⟨⟩
    exact hc
  have hmade : ((Library.boxStruct size ⟨none, [.ofCell w.state.memory.next,
      .ofCell u.state.memory.next]⟩).toProgram).run (callAt n) x = _ := run_boxStruct size
  rw [hplace, hoffset, Nat.zero_add, List.drop_zero, hread] at hmade
  unfold boxStruct withPointer withOffset
  refine ends_lent (ends_lent ?_)
  rw [callMethod_of_body (w := u.lend (.plain (wordOctets 0))) hcall hb hmade rfl]
  have hgains : (u.lend (.plain (wordOctets 0))).Gains _ :=
    (Gains.countCall _ f.fromNative).trans (.allocate x (Heap.box (w.state.readAt (.cell c o) size)))
  exact ⟨rfl, hgains.lent.lent, Heap.get?_allocate_self _ _⟩

/-- The boxing methods of a struct are there. -/
theorem ends_meet {info : StructInfo}
    (h : ∃ f, w.state.bridge.factories.get? info.fullName = some f ∨
      w.state.foreign.findFactory info = .ok f) :
    Ends (structFactory info call w)
      (fun found v => w.Gains v ∧ v.state.memory = w.state.memory ∧ ∃ f, found = .ok f ∧
        (w.state.bridge.factories.get? info.fullName = some f ∨
          w.state.foreign.findFactory info = .ok f)) E := by
  unfold structFactory
  rw [Act.state_bind]
  cases hget : w.state.bridge.factories.get? info.fullName with
  | some f => exact ⟨.refl w, rfl, f, rfl, .inl rfl⟩
  | none =>
    obtain ⟨f, hf | hf⟩ := h
    · rw [hget] at hf
      cases hf
    · rw [hf]
      exact ⟨.meet _ hget hf, rfl, f, rfl, .inr rfl⟩

end Engine

/-! ## Names -/

theorem length_wordOctets (v : Nat) : (wordOctets v).length = 4 := by
  simp [wordOctets]

theorem wordOctets_mod (v : Nat) : wordOctets (v % octetRange 4) = wordOctets v :=
  congrArg (List.map Octet.value) (littleEndian_mod 4 v)

/-- A count is read back as far as it fits. -/
theorem wordAt_wordOctets (v : Nat) (os : List Octet) :
    wordAt (wordOctets v ++ os) 0 = v % octetRange 4 := by
  have htake : ((wordOctets v ++ os).drop 0).take 4 = wordOctets v :=
    List.take_left' (length_wordOctets v)
  have hbytes : (wordOctets v).map Octet.byte = littleEndian 4 v := by
    simp [wordOctets, Octet.byte, Function.comp_def]
  unfold wordAt
  rw [htake, hbytes, ofLittleEndian_littleEndian]

theorem wordAt_append (v : Nat) (os : List Octet) (k : Nat) :
    wordAt (wordOctets v ++ os) (4 + k) = wordAt os k := by
  unfold wordAt
  rw [← List.drop_drop, List.drop_left' (length_wordOctets v)]

namespace NameRecord

/-- The record of a name that was read from memory is that of the name. -/
theorem octets_ofHostName (n : HostName) :
    (ofHostName (HostName.ofOctets n.octets)).octets = (ofHostName n).octets := by
  have hnumber : wordAt n.octets 8 = n.number % octetRange 4 := by
    unfold HostName.octets
    rw [List.append_assoc, wordAt_append _ _ 4, wordAt_append _ _ 0,
      ← List.append_nil (wordOctets n.number), wordAt_wordOctets]
  have hcomparison : wordAt n.octets 0 = n.comparison % octetRange 4 := by
    unfold HostName.octets
    rw [List.append_assoc, wordAt_wordOctets]
  show wordOctets (wordAt n.octets 0) ++ wordOctets (wordAt n.octets 8) = _
  rw [hcomparison, hnumber, wordOctets_mod, wordOctets_mod]
  rfl

/-- A name that is shown as it is compared is the name of its record. -/
theorem octets_toHostName {n : HostName} (hn : n.display = n.comparison) :
    (ofOctets (ofHostName n).octets).toHostName.octets = n.octets := by
  have hnumber : wordAt (ofHostName n).octets 4 = n.number % octetRange 4 := by
    show wordAt (wordOctets _ ++ wordOctets n.number) (4 + 0) = _
    rw [wordAt_append, ← List.append_nil (wordOctets n.number), wordAt_wordOctets]
  have hcomparison : wordAt (ofHostName n).octets 0 = n.comparison % octetRange 4 :=
    wordAt_wordOctets _ _
  show wordOctets (wordAt _ 0) ++ wordOctets (wordAt _ 0) ++ wordOctets (wordAt _ 4) = _
  rw [hcomparison, hnumber, wordOctets_mod, wordOctets_mod]
  unfold HostName.octets
  rw [hn]

end NameRecord
/-! ## Host values -/

/-- A value that the host holds for a property: a name is shown as it is compared, and an object has a
proxy or can get one. -/
def World.IsValue (w : World σ) (p : Property) (v : Value) : Prop :=
  match p.kind with
  | .name => ∃ n : HostName, n.display = n.comparison ∧ v.read 12 = n.octets
  | .object => ∃ a, v.read addressSize = a.octets ∧ (a = .null ∨ w.Connects a)
  | .string | .text | .softObject | .softClass => ∃ text, v = .string text
  | .arrayOf _ | .setOf _ | .mapOf _ _ => ∃ contents, v = .container contents
  | _ => True

theorem World.Gains.isValue {w v : World σ} (h : w.Gains v) {p : Property} {value : Value}
    (hv : w.IsValue p value) : v.IsValue p value := by
  unfold IsValue at hv ⊢
  cases hkind : p.kind with
  | object =>
    rw [hkind] at hv
    obtain ⟨a, ha, hconnects⟩ := hv
    exact ⟨a, ha, hconnects.imp_right h.connects⟩
  | _ =>
    rw [hkind] at hv
    exact hv

namespace Value

variable {p : Property} {src : Value}

/-- What is loaded is what was supplied. -/
theorem read_loaded (hs : p.kind.storage = .plain) : (loaded p src).read p.size = src.read p.size := by
  refine read_eq_iff.2 fun k hk => ?_
  rw [octetAt_loaded (Property.inBlock_of_plain hs)]
  unfold incoming
  rw [hs]
  show (src.read p.size)[k]?.getD .zero = _
  rw [getElem?_read, if_pos hk]
  rfl

/-- Of a flag its own bits are loaded. -/
theorem first_loaded {mask : UInt8} (hkind : p.kind = .bool mask) :
    (loaded p src).octetAt 0 = Octet.merge mask .zero src.first := by
  have hs : p.kind.storage = .flag mask := by
    rw [hkind]
    rfl
  rw [octetAt_loaded (Property.inBlock_of_flag hs)]
  unfold incoming
  rw [hkind]
  rfl

theorem loaded_of_not_plain (hin : p.inBlock = false) (hsrc : src.isPlain = false) :
    loaded p src = src := by
  have hassign : (default p).assign p src = src := by
    unfold Property.inBlock at hin
    unfold assign
    cases hs : p.kind.storage <;> rw [hs] at hin <;> first | rfl | cases hin
  unfold loaded
  rw [hassign, put_of_not_plain (isPlain_default hin) hsrc]

end Value

/-- The first octets of a value in a block. -/
theorem State.Holds.readAt {s : State} {p : Property} {c o k : Nat} {v : Value}
    (h : s.Holds p (.cell c o) v) (hin : p.inBlock = true) (hk : k ≤ p.extent) :
    s.readAt (.cell c o) k = v.read k := by
  unfold Holds at h
  rw [if_pos hin] at h
  exact Value.read_eq_iff.2 fun i hi => Value.read_eq_iff.1 h i (Nat.lt_of_lt_of_le hi hk)

/-- Data that was loaded is read as it was supplied. -/
theorem State.Holds.read_plain {s : State} {p : Property} {c o : Nat} {src : Value}
    (h : s.Holds p (.cell c o) (.loaded p src)) (hs : p.kind.storage = .plain) :
    s.readAt (.cell c o) p.size = src.read p.size := by
  have hextent : p.size ≤ p.extent := Nat.le_of_eq (Property.extent_of_plain hs).symm
  exact (h.readAt (Property.inBlock_of_plain hs) hextent).trans (Value.read_loaded hs)

theorem Octet.isSet_merge (mask : UInt8) (o : Octet) :
    (merge mask .zero o).isSet = anyBit mask o := by
  simp [merge, isSet, anyBit, zero, byte]

namespace Marshaller

/-- The foreign value that a method is handed, as it can hand it on: the octets that a pointer leads
to, or the object that it is. -/
def handed (m : Marshaller) (p : Property) (s : State) (a : Address) : ForeignValue :=
  if m.isReference then .object a else .data (s.readAt a (m.reads p))

/-- A foreign value stands for a host value, and this object was made for it. -/
inductive Renders (s : State) (p : Property) (src : Value) :
    Marshaller → ForeignValue → Option Address → Prop
  | flag {mask : UInt8} {os : List Octet} (hkind : p.kind = .bool mask)
    (hos : os.any Octet.isSet = Octet.anyBit mask src.first) : Renders s p src .bool (.data os) none
  | plain {m : Marshaller} (hm : m = scalar ∨ m = enumeration) :
    Renders s p src m (.data (src.read p.size)) none
  | name {n : HostName} (hn : n.display = n.comparison) (hsrc : src.read 12 = n.octets) :
    Renders s p src .name (.data (NameRecord.ofHostName n).octets) none
  | text {i : Nat} {text : String} (hsrc : src = .string text)
    (hi : s.heap.objects.get? i = some (.string text)) :
    Renders s p src .text (.data (Address.foreign i).octets) (some (.foreign i))
  | string {i : Nat} {text : String} (hsrc : src = .string text)
    (hi : s.heap.objects.get? i = some (.string text)) :
    Renders s p src .string (.object (.foreign i)) (some (.foreign i))
  | null (hsrc : src.read addressSize = Address.null.octets) :
    Renders s p src .object (.object .null) none
  | object {a q : Address} (ha : a ≠ .null) (hsrc : src.read addressSize = a.octets)
    (hq : s.heap.nativeOf q = some a) : Renders s p src .object (.object q) none
  | classRef : Renders s p src .classRef (.data (src.read addressSize)) none
  | struct {made : Option Address} : Renders s p src .struct (.data (src.read p.size)) made
  | softReference {i : Nat} {path : String} (hsrc : src = .string path)
    (hi : s.heap.objects.get? i = some (.soft path)) :
    Renders s p src .softReference (.object (.foreign i)) (some (.foreign i))
  | collection {i : Nat} {contents : Container} (hsrc : src = .container contents)
    (hi : s.heap.objects.get? i = some (.collection contents)) :
    Renders s p src .collection (.object (.foreign i)) (some (.foreign i))

open Act World

variable {call : Invoker σ} {w : World σ} {n c o : Nat} {ps : List Property} {p : Property}
  {m : Marshaller} {src : Value} {slot : Slot}

/-- Data is passed where it lies. -/
theorem ends_present_place (hm : ofTag p.kind.tag = some m) (hb : m = bool ∨ m = scalar ∨ m = enumeration)
    (hh : w.state.Holds p (.cell c o) (.loaded p src)) {E : Failure → World σ → Prop} :
    Ends (m.present p (.cell c o) slot call w)
      (fun shown v => w.Gains v ∧ m.Renders v.state p src (m.handed p v.state shown.1) shown.2) E := by
  have hplain := hh.read_plain
  cases hkind : p.kind <;> rw [hkind] at hm hplain <;> cases hm
  -- Of a flag, the method sees whether any of its bits is set.
  case bool mask =>
    have hs : p.kind.storage = .flag mask := by
      rw [hkind]
      rfl
    have hread := hh.readAt (Property.inBlock_of_flag hs) (Property.one_le_extent hs)
    refine ⟨.refl w, .flag hkind ?_⟩
    show (w.state.readAt (.cell c o) 1).any Octet.isSet = _
    rw [hread, Value.read_one, Value.first_loaded hkind]
    simp [Octet.isSet_merge]
  case scalar =>
    refine ⟨.refl w, ?_⟩
    show Renders _ _ _ _ (.data (w.state.readAt (.cell c o) p.size)) _
    rw [hplain rfl]
    exact .plain (by decide)
  case enumeration =>
    refine ⟨.refl w, ?_⟩
    show Renders _ _ _ _ (.data (w.state.readAt (.cell c o) p.size)) _
    rw [hplain rfl]
    exact .plain (by decide)
  all_goals simp at hb

/-- A record in the scratch memory is passed as its octets. -/
theorem renders_record {os : List Octet} {made : Option Address}
    (hm : m.isReference = false ∧ m.reads p = 8) (hslot : w.state.Writable slot.staging)
    (hos : os.length = 8)
    (h : m.Renders (w.state.writeAt slot.staging os) p src (.data os) made) :
    w.Gains { w with state := w.state.writeAt slot.staging os } ∧
      m.Renders (w.state.writeAt slot.staging os) p src
        (m.handed p (w.state.writeAt slot.staging os) slot.staging) made := by
  have hread := hslot.readAt_writeAt os
  rw [hos] at hread
  refine ⟨.of_same rfl rfl ⟨_, _, _, rfl⟩, ?_⟩
  unfold handed
  rw [hm.1, hm.2, hread]
  exact h

/-- Names and classes are passed as a record of their octets. -/
theorem ends_present_record (hm : ofTag p.kind.tag = some m) (hb : m = name ∨ m = classRef)
    (hsize : p.size = p.kind.hostLayout.size) (hh : w.state.Holds p (.cell c o) (.loaded p src))
    (hv : w.IsValue p src) (hslot : w.state.Writable slot.staging) {E : Failure → World σ → Prop} :
    Ends (m.present p (.cell c o) slot call w)
      (fun shown v => w.Gains v ∧ m.Renders v.state p src (m.handed p v.state shown.1) shown.2) E := by
  have hread {k : Nat} (hs : p.kind.storage = .plain) (hk : p.size = k) :
      w.state.readAt (.cell c o) k = src.read k := hk ▸ hh.read_plain hs
  unfold IsValue at hv
  cases hkind : p.kind <;> rw [hkind] at hm hread hsize hv <;> cases hm
  -- The record of a name is its octets, so writing it again changes nothing.
  case name =>
    obtain ⟨n, hdisplay, hn⟩ := hv
    have hrecord : (NameRecord.ofHostName (w.state.nameAt (.cell c o))).octets =
        (NameRecord.ofHostName n).octets := by
      have hread : w.state.readAt (.cell c o) 12 = src.read 12 := hread rfl hsize
      unfold State.nameAt
      rw [hread, hn, NameRecord.octets_ofHostName]
    unfold present
    rw [Act.state_bind, hrecord]
    exact renders_record ⟨rfl, rfl⟩ hslot (length_octets _) (.name hdisplay hn)
  case classRef =>
    have hread : w.state.readAt (.cell c o) addressSize = src.read addressSize := hread rfl hsize
    unfold present
    rw [Act.state_bind, hread]
    exact renders_record ⟨rfl, rfl⟩ hslot (Value.length_read _ _) .classRef
  all_goals simp at hb

/-- What lies in a cell of its own is what was supplied. -/
theorem value_of_holds {s : State} (hin : p.inBlock = false) (hsrc : src.isPlain = false)
    (hh : s.Holds p (.cell c o) (.loaded p src)) : s.valueAt (.cell c o) = src := by
  unfold State.Holds at hh
  rwa [if_neg (by simp [hin]), Value.loaded_of_not_plain hin hsrc] at hh

/-- Texts and strings are passed as new strings. -/
theorem ends_present_string (hm : ofTag p.kind.tag = some m) (hb : m = text ∨ m = string)
    (hh : w.state.Holds p (.cell c o) (.loaded p src)) (hv : w.IsValue p src)
    (hslot : w.state.Writable slot.staging) {E : Failure → World σ → Prop} :
    Ends (m.present p (.cell c o) slot call w)
      (fun shown v => w.Gains v ∧ m.Renders v.state p src (m.handed p v.state shown.1) shown.2) E := by
  obtain ⟨⟨content, rfl⟩, hin⟩ : (∃ content, src = .string content) ∧ p.inBlock = false := by
    unfold IsValue at hv
    unfold Property.inBlock
    cases hkind : p.kind <;> rw [hkind] at hm hv <;> cases hm
    case string | text => exact ⟨hv, rfl⟩
    all_goals simp at hb
  have htext : w.state.textAt (.cell c o) = content := by
    unfold State.textAt
    rw [value_of_holds hin rfl hh]
    rfl
  have hstring : w.Gains { w with state := (w.state.newString content).2 } := .allocate w _
  have hmade := w.state.heap.get?_allocate_self (.string content)
  unfold present
  rw [Act.state_bind, htext]
  obtain rfl | rfl := hb
  · have hrecord := renders_record (w := { w with state := (w.state.newString content).2 }) (p := p)
      ⟨rfl, rfl⟩ hslot (Address.length_octets (.foreign w.state.heap.nextObject))
      (.text (rfl : Value.string content = _) hmade)
    exact ⟨hstring.trans hrecord.1, hrecord.2⟩
  · exact ⟨hstring, .string rfl hmade⟩

/-- Objects are passed as their proxies. -/
theorem ends_present_object (hcall : call.Performs n) (hw : w.Presents ps)
    (hn : w.state.heap.Numbered) (hkind : p.kind = .object)
    (hsize : p.size = p.kind.hostLayout.size) (hh : w.state.Holds p (.cell c o) (.loaded p src))
    (hv : w.IsValue p src) :
    Ends (object.present p (.cell c o) slot call w)
      (fun shown v => w.Gains v ∧
        object.Renders v.state p src (object.handed p v.state shown.1) shown.2)
      fun f _ => f.IsOverflow := by
  unfold IsValue at hv
  rw [hkind] at hsize hv
  obtain ⟨a, ha, hconnects⟩ := hv
  -- What was loaded is the address that was supplied.
  have haddress : w.state.addressAt (.cell c o) = a := by
    have hsize : p.size = addressSize := hsize
    have hread := hh.read_plain (by rw [hkind]; rfl)
    rw [hsize, ha] at hread
    unfold State.addressAt
    rw [hread, ← List.append_nil a.octets]
    refine Address.ofOctets_octets a [] ?_
    obtain rfl | hconnects := hconnects
    · rintro v ⟨⟩
      decide
    · obtain ⟨_, _, hclass, -⟩ := hconnects.made
      exact Address.fits_of_hostObject (Host.isObject_of_classOf hclass)
  unfold present
  rw [Act.state_bind, haddress]
  unfold proxyOrNull Address.nonNull
  by_cases hnull : a = .null
  · subst hnull
    rw [if_pos rfl]
    exact ⟨.refl w, .null ha⟩
  · rw [if_neg hnull]
    refine ends_bind (Identity.ends_proxyFor hcall hw hn (hconnects.resolve_left hnull)) ?_
    rintro q v ⟨hgains, hq⟩
    exact ⟨hgains, .object hnull ha hq⟩

/-- Soft references and collections are passed as objects that the factory makes. -/
theorem ends_present_made (hcall : call.Performs n) (hw : w.Presents ps)
    (hm : ofTag p.kind.tag = some m) (hb : m = softReference ∨ m = collection)
    (hc : c < w.state.memory.next) (hh : w.state.Holds p (.cell c o) (.loaded p src))
    (hv : w.IsValue p src) {E : Failure → World σ → Prop} :
    Ends (m.present p (.cell c o) slot call w)
      (fun shown v => w.Gains v ∧ m.Renders v.state p src (m.handed p v.state shown.1) shown.2) E := by
  -- Neither kind lies in the block.
  have hin : p.inBlock = false := by
    unfold Property.inBlock
    cases hkind : p.kind <;> rw [hkind] at hm <;> cases hm
    case softObject | softClass | arrayOf | setOf | mapOf => rfl
    all_goals simp at hb
  unfold present
  rw [Act.state_bind]
  obtain rfl | rfl := hb
  · obtain ⟨⟨path, rfl⟩, ms, hms⟩ : (∃ path, src = .string path) ∧
        ∃ ms, w.state.bridge.helpers.softReference p = .ok ms := by
      unfold IsValue at hv
      unfold Helpers.softReference
      cases hkind : p.kind <;> rw [hkind] at hm hv <;> cases hm
      all_goals exact ⟨hv, _, rfl⟩
    dsimp only
    unfold Engine.createSoftReference
    rw [bind_assoc, Act.state_bind, hms]
    refine ends_bind (Engine.ends_create (f := fun v => .soft v.text) hcall (hw.softReference hms)
      (fun _ _ _ _ => run_createSoftReference) hc) ?_
    rintro _ v ⟨rfl, hgains, hget⟩
    rw [value_of_holds hin rfl hh] at hget
    exact ⟨hgains, .softReference rfl hget⟩
  · obtain ⟨⟨contents, rfl⟩, ms, hms⟩ : (∃ contents, src = .container contents) ∧
        ∃ ms, w.state.bridge.helpers.collection p = .ok ms := by
      unfold IsValue at hv
      unfold Helpers.collection
      cases hkind : p.kind <;> rw [hkind] at hm hv <;> cases hm
      all_goals exact ⟨hv, _, rfl⟩
    dsimp only
    unfold Engine.createCollection
    rw [bind_assoc, Act.state_bind, hms]
    refine ends_bind (Engine.ends_create (f := fun v => .collection v.contents) hcall
      (hw.collection hms) (fun _ _ _ _ => run_createCollection) hc) ?_
    rintro _ v ⟨rfl, hgains, hget⟩
    rw [value_of_holds hin rfl hh] at hget
    exact ⟨hgains, .collection rfl hget⟩

/-- The payload of a box of octets is these octets. -/
theorem readAt_box {s : State} {i : Nat} {os : List Octet}
    (hi : s.heap.objects.get? i = some (Heap.box os)) :
    s.readAt (.payload i) os.length = os := by
  unfold State.readAt
  dsimp only
  rw [hi]
  simp [Heap.box, Value.read, Value.octets]

/-- A struct is passed as the payload of a box. -/
theorem ends_present_struct (hcall : call.Performs n) (hw : w.Presents ps) (hp : p ∈ ps)
    (hm : ofTag p.kind.tag = some struct) (hc : c < w.state.memory.next)
    (hh : w.state.Holds p (.cell c o) (.loaded p src)) {E : Failure → World σ → Prop} :
    Ends (struct.present p (.cell c o) slot call w)
      (fun shown v => w.Gains v ∧
        struct.Renders v.state p src (struct.handed p v.state shown.1) shown.2) E := by
  -- The kind names its struct, and so the factory that boxes it.
  obtain ⟨info, hinfo, hs⟩ : ∃ info, p.structInfo = .ok info ∧ p.kind.storage = .plain := by
    unfold Property.structInfo
    cases hkind : p.kind <;> rw [hkind] at hm <;> cases hm
    exact ⟨_, rfl, rfl⟩
  have hread := hh.read_plain hs
  unfold present
  rw [Act.state_bind, hinfo]
  dsimp only
  refine ends_bind (Q := fun i v => i = info ∧ v = w) ⟨rfl, rfl⟩ ?_
  rintro info w ⟨rfl, rfl⟩
  refine ends_bind (Engine.ends_meet (hw.met hp hinfo)) ?_
  rintro _ v ⟨hv, hmemory, f, rfl, hf⟩
  have hbody := hw.struct hp hinfo (hf.imp_right fun hf => ⟨_, rfl, hf⟩)
  rw [← hv.bodies] at hbody
  have hsame : v.state.readAt (.cell c o) p.size = src.read p.size := by
    rw [← hread]
    unfold State.readAt
    dsimp only
    rw [hmemory]
  refine ends_bind (Q := fun f' x => f' = f ∧ x = v) ⟨rfl, rfl⟩ ?_
  rintro f v ⟨rfl, rfl⟩
  refine ends_bind (Engine.ends_boxStruct hcall hbody (hmemory ▸ hc)) ?_
  rintro _ u ⟨rfl, hu, hget⟩
  rw [hsame] at hget
  have hpayload := readAt_box hget
  rw [Value.length_read] at hpayload
  have hget : u.state.heap.get? (.foreign v.state.heap.nextObject) = _ := hget
  -- The new object is a box, so it can be taken apart at once.
  have hunbox : u.state.unbox (.foreign v.state.heap.nextObject) =
      .ok (.payload v.state.heap.nextObject) := by
    unfold State.unbox
    rw [hget]
    rfl
  dsimp only
  rw [Act.state_bind, hunbox]
  refine ⟨hv.trans hu, ?_⟩
  show Renders _ _ _ _ (.data (u.state.readAt (.payload v.state.heap.nextObject) p.size)) _
  rw [hpayload]
  exact .struct

/-- A value of the host is presented as a foreign value that stands for it. -/
theorem ends_present (hcall : call.Performs n) (hw : w.Presents ps) (hn : w.state.heap.Numbered)
    (hp : p ∈ ps) (hm : ofTag p.kind.tag = some m) (hsize : p.size = p.kind.hostLayout.size)
    (hc : c < w.state.memory.next) (hh : w.state.Holds p (.cell c o) (.loaded p src))
    (hv : w.IsValue p src) (hslot : w.state.Writable slot.staging) :
    Ends (m.present p (.cell c o) slot call w)
      (fun shown v => w.Gains v ∧
        m.Renders v.state p src (m.handed p v.state shown.1) shown.2)
      fun f _ => f.IsOverflow := by
  cases m with
  | bool | scalar | enumeration => exact ends_present_place hm (by decide) hh
  | name | classRef => exact ends_present_record hm (by decide) hsize hh hv hslot
  | text | string => exact ends_present_string hm (by decide) hh hv hslot
  | object =>
    have hkind : p.kind = .object := by
      cases hkind : p.kind <;> rw [hkind] at hm <;> cases hm
    exact ends_present_object hcall hw hn hkind hsize hh hv
  | softReference | collection => exact ends_present_made hcall hw hm (by decide) hc hh hv
  | struct => exact ends_present_struct hcall hw hp hm hc hh

end Marshaller

end TwinHeap
