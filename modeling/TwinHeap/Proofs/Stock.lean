import TwinHeap.Proofs.Pairing

/-!
# Stock — programs that leave the connecting of proxies to the bridge

Proxies are connected with their host objects by their constructors and by three methods of the
engine library. A program is tame if it leaves these as the stock library defines them and does not
set by itself what an instance stands for; apart from that it may ask for anything, and so may the
bodies of the methods that it defines.
-/

namespace TwinHeap

variable {σ : Type}

/-- The methods that connect proxies with their host objects. -/
def EngineBinding.Reserves (e : EngineBinding) (s : Signature) : Prop :=
  s.method = ".ctor" ∨ s.nameSpace = e.nameSpace ∧ s.className = e.objectClass ∧
    (s.method = "BeforeConstruct" ∨ s.method = "AfterConstruct" ∨
      s.method = "DisconnectFromNative")

theorem EngineBinding.not_reserves (e : EngineBinding) {space cls name : String}
    {params : Option (List String)}
    (hn : name ∉ [".ctor", "BeforeConstruct", "AfterConstruct", "DisconnectFromNative"]) :
    ¬e.Reserves ⟨space, cls, name, params⟩ := by
  simp only [List.mem_cons, List.not_mem_nil, or_false, not_or] at hn
  rintro (h | ⟨-, -, h | h | h⟩)
  · exact hn.1 h
  · exact hn.2.1 h
  · exact hn.2.2.1 h
  · exact hn.2.2.2 h

/-- A stock constructor: of a proxy class, or of a class of static functions. -/
def IsConstructor (s : Signature) (body : Invocation → Program σ) : Prop :=
  s.method = ".ctor" ∧
    ((s.params = some ["intptr"] ∧ body = fun inv => (Library.connect inv).toProgram) ∨
      (s.params = some [] ∧ body = fun _ => .done none))

/-- A request that neither sets what an instance stands for nor calls a method past the bridge. -/
def Request.Tame (e : EngineBinding) : Request → Prop
  | .setNative .. | .call .. => False
  | .allocate m => ∀ host, m.native? = some host → host = .null
  | .redirect _ m => ¬e.Reserves m.signature
  | _ => True

/-- A program of tame requests, which defines methods with tame bodies and stock constructors. -/
def Program.Tame (e : EngineBinding) : Program σ → Prop
  | .done _ | .throw _ | .panic _ => True
  | .observe next => ∀ s memory, (next s memory).Tame e
  | .remember _ next => next.Tame e
  | .define info body next =>
    ((¬e.Reserves info.signature ∧ ∀ inv, (body inv).Tame e) ∨
      IsConstructor info.signature body) ∧ ∀ i, (next i).Tame e
  | .ask r next => r.Tame e ∧ ∀ reply, (next reply).Tame e

/-! ## Changes keep the pairing -/

namespace State.Paired

variable {s : State} {o : List Owed} {gs : List Grip}

/-- A debt that is no proxy in the making or in removal comes and goes. -/
theorem cons_iff {d : Owed} (hd : d.isMaking = false)
    (hs : ∀ g p, d ≠ .severing g (some p) false) : s.Paired (d :: o) ↔ s.Paired o := by
  have hmaking {host p : Address} {stage : Stage} :
      .making host p stage ∈ d :: o ↔ .making host p stage ∈ o := by
    rw [List.mem_cons, or_iff_right]
    rintro rfl
    cases hd
  have hsevering {g : Grip} {p : Address} :
      .severing g (some p) false ∈ d :: o ↔ .severing g (some p) false ∈ o := by
    rw [List.mem_cons, or_iff_right]
    rintro rfl
    exact hs g p rfl
  constructor
  · exact fun h => h.congr (fun _ _ => hmaking.1) (fun _ _ => hsevering) fun _ _ => hmaking.2
  · exact fun h => h.congr (fun _ _ => hmaking.2) (fun _ _ => hsevering.symm) fun _ _ => hmaking.1

/-- A proxy that is told its host object, or never will be, is made. -/
theorem made {host p : Address} {stage : Stage} (h : s.Paired (.making host p stage :: o))
    (hs : stage ≠ .raw) : s.Paired o := by
  refine h.congr ?_ ?_ fun _ _ hm => List.mem_cons_of_mem _ hm
  · intro host' p' hm
    refine (List.mem_cons.1 hm).resolve_left ?_
    rintro ⟨⟩
    exact hs rfl
  · intro g p'
    simp

theorem writeAt (h : s.Paired o) (a : Address) (os : List Octet) : (s.writeAt a os).Paired o := by
  cases a with
  | payload i => exact h.modify (.foreign i) fun m => by cases m <;> rfl
  | _ => exact h.of_heap rfl rfl

theorem storeAt (h : s.Paired o) (a : Address) (v : Value) : (s.storeAt a v).Paired o := by
  cases a <;> exact h.of_heap rfl rfl

end State.Paired

theorem Request.Outcome.paired {e : EngineBinding} {r : Request} {s s' : State} (ho : r.Outcome s s')
    (hr : r.Tame e) {o : List Owed} {gs : List Grip} (h : s.Paired o) (hb : s.Balanced gs)
    (ht : ∀ host p, .making host p .told ∉ o) : s'.Paired o := by
  cases ho with
  | payload i octets => exact h.writeAt (.payload i) octets
  | allocate => exact h.allocate hb hr
  | instantiate => exact h.allocate hb fun host hhost => (Option.some.inj hhost).symm
  | setNative => exact hr.elim
  | collect full => exact h.collect ht full
  | hold target strength => exact h.hold hb target strength
  | regrip hold strength => exact h.tightenGrip hb hold strength
  | letGo hold => exact h.dropGrip hb hold
  | setRooted hold => exact h.tighten hb hold (Strength.ofRooted_ne_released _)
  | _ => exact h.of_heap rfl rfl

theorem Host.isObject_of_classOf {h : Host} {a classRef : Address} (ha : h.classOf a = .ok classRef) :
    ∃ i, a = .hostObject i := by
  unfold classOf at ha
  cases a with
  | hostObject i => exact ⟨i, rfl⟩
  | _ => cases ha

/-- Every change of the bridge keeps the pairing, where no construction is broken off. -/
theorem Change.paired {e : EngineBinding} {T : Terms} {o o' : List Owed} {s s' : State}
    (hc : Change T o s o' s') (hask : ∀ r, T.mayAsk r → r.Tame e) (h : s.Paired o)
    (hb : s.Balanced (o.filterMap Owed.grip?)) (hready : T.ready o → o.countP Owed.isMaking = 0)
    (hbroken : ∀ host p, .making host p .broken ∉ o) : s'.Paired o' := by
  -- Foreign code may be called only while nothing is under construction.
  have htold (hr : T.ready o) (host p : Address) : .making host p .told ∉ o := by
    intro hm
    have hpos := List.countP_pos_iff.2 ⟨_, hm, (rfl : Owed.isMaking (.making host p .told) = true)⟩
    have hzero := hready hr
    omega
  cases hc with
  | openCell => exact (State.Paired.cons_iff rfl (by rintro _ _ ⟨⟩)).2 (h.of_heap rfl rfl)
  | closeCell => exact ((State.Paired.cons_iff rfl (by rintro _ _ ⟨⟩)).1 h).of_heap rfl rfl
  | write _ os => exact h.writeAt _ os
  | store _ v => exact h.storeAt _ v
  | string text => exact h.allocate hb (by rintro _ ⟨⟩)
  | collect hr full => exact h.collect (htold hr) full
  | clear hn => exact h.dropEntry hb hn
  | make _ hn hcls ht => exact h.addProxy hb hn (Host.isObject_of_classOf hcls) ht
  | made _ hs => exact h.made hs
  | unmake => exact absurd List.mem_cons_self (hbroken _ _)
  | sever hr _ hg => exact h.eraseEntry hb hg (htold hr _)
  | severed => exact ((State.Paired.cons_iff rfl (by rintro _ _ ⟨⟩)).1 h).releaseGrip hb
  | enter => exact (State.Paired.cons_iff rfl (by rintro _ _ ⟨⟩)).2 (h.of_heap rfl rfl)
  | leave => exact ((State.Paired.cons_iff rfl (by rintro _ _ ⟨⟩)).1 h).leave hb _
  | root a => exact h.root hb a
  | alone hr ha hf => exact (Request.outcome hf s).paired (hask _ ha) h hb (htold hr)
  | _ => exact h.of_heap rfl rfl

/-- No construction is broken off by a change. -/
theorem Change.unbroken {T : Terms} {o o' : List Owed} {s s' : State} (hc : Change T o s o' s')
    (h : ∀ host p, .making host p .broken ∉ o) : ∀ host p, .making host p .broken ∉ o' := by
  cases hc with
  | openCell | make | sever | enter => simpa using h
  | closeCell | made | unmake | severed | leave =>
    exact fun host p hm => h host p (List.mem_cons_of_mem _ hm)
  | _ => exact h

/-! ## The methods that are there -/

theorem ok_of_bind {ε α β : Type} {x : Except ε α} {f : α → Except ε β} {b : β}
    (h : x >>= f = .ok b) : ∃ a, x = .ok a ∧ f a = .ok b := by
  cases x with
  | error e => cases h
  | ok a => exact ⟨a, rfl, h⟩

/-- At a place of two lists of one length, each with one more element behind, either both have an
older element or both have the last one. -/
theorem getElem?_concat_cases {α β : Type} {l : List α} {l' : List β} {a x : α} {b y : β} {i : Nat}
    (hl : l.length = l'.length) (hx : (l ++ [a])[i]? = some x) (hy : (l' ++ [b])[i]? = some y) :
    l[i]? = some x ∧ l'[i]? = some y ∨ x = a ∧ y = b := by
  by_cases hlt : i < l.length
  · rw [List.getElem?_append_left hlt] at hx
    rw [List.getElem?_append_left (hl ▸ hlt)] at hy
    exact .inl ⟨hx, hy⟩
  · rw [List.getElem?_append_right (Nat.le_of_not_lt hlt)] at hx
    rw [List.getElem?_append_right (hl ▸ Nat.le_of_not_lt hlt), ← hl] at hy
    cases hi : i - l.length with
    | zero =>
      rw [hi] at hx hy
      exact .inr ⟨(Option.some.inj hx).symm, (Option.some.inj hy).symm⟩
    | succ j => rw [hi] at hx; cases hx

theorem Foreign.methods_of_findMethod {f : Foreign} {assembly : String} {key : Signature} {m : Nat}
    (h : f.findMethod assembly key = .ok m) :
    ∃ info, f.methods[m]? = some info ∧ key.accepts info.signature = true := by
  unfold findMethod lookupMethod at h
  split at h
  · rename_i i hi
    cases h
    obtain ⟨hlt, hp, -⟩ := List.findIdx?_eq_some_iff_getElem.1 hi
    refine ⟨f.methods[m], List.getElem?_eq_getElem hlt, ?_⟩
    simp only [Bool.and_eq_true] at hp
    exact hp.2
  · cases h

namespace State

/-- The key that a method was declared with. -/
def signatureAt (s : State) (m : Nat) : Option Signature :=
  (s.foreign.methods[m]?).map MethodInfo.signature

/-- A method that is there, and does not connect proxies. -/
def Offers (s : State) (e : EngineBinding) (m : Nat) : Prop :=
  ∃ sig, s.signatureAt m = some sig ∧ ¬e.Reserves sig

theorem offers_of_findMethod {s : State} {e : EngineBinding} {assembly : String} {key : Signature}
    {m : Nat} (h : s.foreign.findMethod assembly key = .ok m) (hk : ¬e.Reserves key) :
    s.Offers e m := by
  obtain ⟨info, hinfo, ha⟩ := Foreign.methods_of_findMethod h
  refine ⟨info.signature, by unfold signatureAt; rw [hinfo]; rfl, ?_⟩
  simp only [Signature.accepts, Bool.and_eq_true, beq_iff_eq] at ha
  obtain ⟨⟨⟨hn, hc⟩, hm⟩, -⟩ := ha
  unfold EngineBinding.Reserves at hk ⊢
  rwa [hn, hc, hm] at hk

end State

/-- The methods that the bridge relies on are those of the stock library, and all others are tame. -/
structure World.Stocked (e : EngineBinding) (w : World σ) : Prop where
  length : w.bodies.length = w.state.foreign.methods.length
  tame : ∀ {m : Nat} {sig : Signature} {body : Invocation → Program σ},
    w.state.signatureAt m = some sig → w.bodies[m]? = some body → ¬e.Reserves sig →
    ∀ inv, (body inv).Tame e
  constructor : ∀ {m : Nat} {sig : Signature} {body : Invocation → Program σ},
    w.state.signatureAt m = some sig → w.bodies[m]? = some body → sig.method = ".ctor" →
    IsConstructor sig body
  reserved : ∀ m ∈ [w.state.bridge.helpers.beforeConstruct, w.state.bridge.helpers.afterConstruct,
    w.state.bridge.helpers.disconnect], ∃ sig, w.state.signatureAt m = some sig ∧ e.Reserves sig
  connect : w.bodies[w.state.bridge.helpers.beforeConstruct]? =
    some fun inv => (Library.connect inv).toProgram
  complete : w.bodies[w.state.bridge.helpers.afterConstruct]? = some fun _ => .done none
  disconnect : w.bodies[w.state.bridge.helpers.disconnect]? =
    some fun inv => (Library.disconnect inv).toProgram
  nativePtr : w.bodies[w.state.bridge.helpers.nativePtr]? =
    some fun inv => (Library.nativePtr inv).toProgram
  offered : ∀ m ∈ w.state.bridge.helpers.nativePtr :: w.state.bridge.helpers.ofFactory,
    w.state.Offers e m
  bindings : ∀ {classRef : Address} {b : ProxyBinding},
    w.state.bridge.bindings.get? classRef = some b → ∃ sig,
      w.state.signatureAt b.method = some sig ∧ sig.method = ".ctor" ∧
        sig.params = some (if b.takesNative then ["intptr"] else [])
  factories : ∀ {name : String} {f : StructFactory},
    w.state.bridge.factories.get? name = some f →
      w.state.Offers e f.fromNative ∧ w.state.Offers e f.toNative
  redirectors : ∀ {key : Redirector.Key} {r : Redirector}, w.state.redirector? key = some r →
    ¬e.Reserves r.method.signature ∧ ∀ l m, r.binding = .linked l m → w.state.Offers e m

namespace World.Stocked

variable {e : EngineBinding} {w : World σ} {s' : State}

/-- A change that leaves the methods and the helpers alone. -/
theorem of_methods (h : w.Stocked e)
    (hm : s'.foreign.methods.map MethodInfo.signature =
      w.state.foreign.methods.map MethodInfo.signature)
    (hh : s'.bridge.helpers = w.state.bridge.helpers)
    (hb : ∀ {classRef b}, s'.bridge.bindings.get? classRef = some b →
      w.state.bridge.bindings.get? classRef = some b ∨ ∃ sig,
        w.state.signatureAt b.method = some sig ∧ sig.method = ".ctor" ∧
          sig.params = some (if b.takesNative then ["intptr"] else []))
    (hf : ∀ {name f}, s'.bridge.factories.get? name = some f →
      w.state.bridge.factories.get? name = some f ∨
        w.state.Offers e f.fromNative ∧ w.state.Offers e f.toNative)
    (hr : ∀ {key r}, s'.redirector? key = some r → ¬e.Reserves r.method.signature ∧
      ∀ l m, r.binding = .linked l m → w.state.Offers e m) :
    World.Stocked e { w with state := s' } := by
  -- A signature is read off the methods alone, so every fact that names one carries over.
  have hsig (m : Nat) : s'.signatureAt m = w.state.signatureAt m := by
    unfold State.signatureAt
    rw [← List.getElem?_map, hm, List.getElem?_map]
  have hlength : s'.foreign.methods.length = w.state.foreign.methods.length := by
    simpa using congrArg List.length hm
  have hoffers {m : Nat} : s'.Offers e m ↔ w.state.Offers e m := by
    unfold State.Offers
    rw [hsig]
  refine ⟨h.length.trans hlength.symm, ?_, ?_, ?_, ?_, ?_, ?_, ?_, ?_, ?_, ?_, ?_⟩
  · intro m sig body hs
    exact h.tame ((hsig m).symm.trans hs)
  · intro m sig body hs
    exact h.constructor ((hsig m).symm.trans hs)
  · show ∀ m ∈ [s'.bridge.helpers.beforeConstruct, _, _], _
    rw [hh]
    intro m hmem
    obtain ⟨sig, hs, hres⟩ := h.reserved m hmem
    exact ⟨sig, (hsig m).trans hs, hres⟩
  · exact hh ▸ h.connect
  · exact hh ▸ h.complete
  · exact hh ▸ h.disconnect
  · exact hh ▸ h.nativePtr
  · show ∀ m ∈ s'.bridge.helpers.nativePtr :: _, s'.Offers e m
    rw [hh]
    exact fun m hmem => hoffers.2 (h.offered m hmem)
  · intro classRef b hget
    obtain ⟨sig, hs, hctor⟩ := (hb hget).elim h.bindings id
    exact ⟨sig, (hsig _).trans hs, hctor⟩
  · intro name f hget
    obtain ⟨hfrom, hto⟩ := (hf hget).elim h.factories id
    exact ⟨hoffers.2 hfrom, hoffers.2 hto⟩
  · intro key r hget
    exact ⟨(hr hget).1, fun l m hl => hoffers.2 ((hr hget).2 l m hl)⟩

/-- A change that leaves all of it alone. -/
theorem of_same (h : w.Stocked e) (hm : s'.foreign.methods = w.state.foreign.methods)
    (hb : s'.bridge.helpers = w.state.bridge.helpers ∧
      s'.bridge.bindings = w.state.bridge.bindings ∧
      s'.bridge.factories = w.state.bridge.factories ∧
      s'.bridge.redirectors = w.state.bridge.redirectors) :
    World.Stocked e { w with state := s' } := by
  obtain ⟨hh, hbs, hfs, hrs⟩ := hb
  refine h.of_methods (congrArg _ hm) hh ?_ ?_ ?_
  · intro classRef b hget
    exact .inl (hbs ▸ hget)
  · intro name f hget
    exact .inl (hfs ▸ hget)
  · intro key r hget
    unfold State.redirector? at hget
    rw [hrs] at hget
    exact h.redirectors hget

theorem countCall (h : w.Stocked e) (m : Nat) : (w.countCall m).Stocked e := by
  refine h.of_methods ?_ rfl .inl .inl h.redirectors
  refine List.ext_getElem? fun i => ?_
  show (List.map _ (List.modify _ _ _))[i]? = _
  rw [List.getElem?_map, List.getElem?_map, List.getElem?_modify]
  cases w.state.foreign.methods[i]? with
  | none => rfl
  | some info =>
    show some (MethodInfo.signature (if m = i then _ else info)) = _
    split <;> rfl

/-- A redirector changes, but not what it is bound to. -/
theorem of_modifyRedirector (h : w.Stocked e) (key : Redirector.Key) {f : Redirector → Redirector}
    (hf : ∀ r, w.state.redirector? key = some r → (f r).method = r.method ∧
      ∀ l m, (f r).binding = .linked l m → r.binding = .linked l m ∨ w.state.Offers e m) :
    World.Stocked e { w with state := w.state.modifyRedirector key f } := by
  refine h.of_methods rfl rfl .inl .inl ?_
  intro key' r hget
  unfold State.redirector? State.modifyRedirector at hget
  rw [Table.get?_modify] at hget
  split at hget
  · rename_i hk
    subst hk
    obtain ⟨r', hr', rfl⟩ := Option.map_eq_some_iff.1 hget
    obtain ⟨hm, hl⟩ := hf r' hr'
    rw [hm]
    exact ⟨(h.redirectors hr').1, fun l m hb => (hl l m hb).elim ((h.redirectors hr').2 l m) id⟩
  · exact h.redirectors hget

end World.Stocked

/-- A proxy class is bound to one of its constructors. -/
theorem Foreign.constructor_of_findBinding {f : Foreign} {info : ClassInfo} {b : ProxyBinding}
    (h : f.findBinding info = .ok b) : ∃ m, f.methods[b.method]? = some m ∧
      m.signature.method = ".ctor" ∧
        m.signature.params = some (if b.takesNative then ["intptr"] else []) := by
  unfold findBinding at h
  dsimp only at h
  split at h
  · cases hm : f.findMethod info.assembly (.ofClass info.foreignName ".ctor"
        (if (!info.isLibrary) = true then ["intptr"] else [])) with
    | error e => rw [hm] at h; cases h
    | ok m =>
      rw [hm] at h
      cases h
      obtain ⟨i, hi, ha⟩ := methods_of_findMethod hm
      rw [Signature.accepts_iff_eq rfl] at ha
      exact ⟨i, hi, by rw [ha]; exact ⟨rfl, rfl⟩⟩
  · cases h

theorem State.constructor_of_resolveBinding {s : State} {classRef : Address} {b : ProxyBinding}
    (h : s.resolveBinding classRef = .ok (.ok b)) : ∃ sig, s.signatureAt b.method = some sig ∧
      sig.method = ".ctor" ∧ sig.params = some (if b.takesNative then ["intptr"] else []) := by
  have hinfo : ∃ info, s.foreign.findBinding info = .ok b := by
    unfold resolveBinding at h
    cases hreq : s.host.classInfo classRef with
    | error p => rw [hreq] at h; cases h
    | ok requested =>
      rw [hreq] at h
      dsimp only [bind, Except.bind] at h
      split at h
      · cases h
      · split at h
        · cases h
        · exact ⟨_, Except.ok.inj h⟩
  obtain ⟨info, hinfo⟩ := hinfo
  obtain ⟨m, hm, hctor⟩ := Foreign.constructor_of_findBinding hinfo
  exact ⟨m.signature, by unfold signatureAt; rw [hm]; rfl, hctor⟩

/-- The boxing methods of a struct do not connect proxies. -/
theorem State.offers_of_findFactory {s : State} {e : EngineBinding} {info : StructInfo}
    {f : StructFactory} (h : s.foreign.findFactory info = .ok f) :
    s.Offers e f.fromNative ∧ s.Offers e f.toNative := by
  have hkey {full method : String} {params : List String}
      (hm : method ∉ [".ctor", "BeforeConstruct", "AfterConstruct", "DisconnectFromNative"]) :
      ¬e.Reserves (.ofClass full method params) := e.not_reserves hm
  obtain ⟨fromNative, hfrom, h⟩ := ok_of_bind h
  obtain ⟨toNative, hto, h⟩ := ok_of_bind h
  cases h
  exact ⟨offers_of_findMethod hfrom (hkey (by decide)),
    offers_of_findMethod hto (hkey (by decide))⟩

theorem Redirector.findMethod_of_resolve {registry : Registry} {f : Foreign} {r : Redirector}
    {l : Linkage} {m : Nat} (h : r.resolve registry f = .ok (l, m)) :
    f.findMethod r.method.assembly r.method.signature = .ok m := by
  obtain ⟨i, hm, h⟩ := ok_of_bind h
  dsimp only at h
  split at h
  · cases h
  · obtain ⟨linkage, -, h⟩ := ok_of_bind h
    cases h
    exact hm

theorem State.stocked_dropEntry {e : EngineBinding} {w : World σ} (h : w.Stocked e) (host : Address) :
    World.Stocked e { w with state := w.state.dropEntry host } := by
  unfold dropEntry
  split
  · exact h
  · exact h.of_same rfl ⟨rfl, rfl, rfl, rfl⟩

theorem Request.Outcome.stocked {e : EngineBinding} {r : Request} {w : World σ} {s' : State}
    (ho : r.Outcome w.state s') (hr : r.Tame e) (h : w.Stocked e) :
    World.Stocked e { w with state := s' } := by
  cases ho with
  | redirect =>
    refine h.of_methods rfl rfl .inl .inl ?_
    intro key r hget
    have hget : (w.state.bridge.redirectors.insert _ _).get? key = some r := hget
    rw [Table.get?_insert] at hget
    split at hget
    · cases hget
      exact ⟨hr, by rintro _ _ ⟨⟩⟩
    · exact h.redirectors hget
  | _ => exact h.of_same rfl ⟨rfl, rfl, rfl, rfl⟩

/-- Every change of the bridge leaves it on the stock library. -/
theorem Change.stocked {e : EngineBinding} {T : Terms} {o o' : List Owed} {w : World σ}
    {s' : State} (hc : Change T o w.state o' s') (hask : ∀ r, T.mayAsk r → r.Tame e)
    (h : w.Stocked e) :
    World.Stocked e { w with state := s' } := by
  cases hc with
  | @write _ _ a => cases a <;> exact h.of_same rfl ⟨rfl, rfl, rfl, rfl⟩
  | @store _ _ a => cases a <;> exact h.of_same rfl ⟨rfl, rfl, rfl, rfl⟩
  | @meetStruct _ _ info f hf hn =>
    refine h.of_methods rfl rfl .inl ?_ h.redirectors
    intro name g hget
    rw [Table.get?_insert] at hget
    split at hget
    · cases hget
      exact .inr (State.offers_of_findFactory hf)
    · exact .inl hget
  | @resolve _ _ classRef b hb hn =>
    refine h.of_methods rfl rfl ?_ .inl h.redirectors
    intro c g hget
    rw [Table.get?_insert] at hget
    split at hget
    · cases hget
      exact .inr (State.constructor_of_resolveBinding hb)
    · exact .inl hget
  | @bind _ _ key r b hr hu hb =>
    refine h.of_modifyRedirector key fun r' hr' => ⟨rfl, fun l m hl => .inr ?_⟩
    exact State.offers_of_findMethod (Redirector.findMethod_of_resolve (hb l m hl))
      (h.redirectors hr).1
  | clear => exact State.stocked_dropEntry h _
  | unmake => exact State.stocked_dropEntry h _
  | @make _ _ host _ type =>
    show World.Stocked e { w with state := w.state.addProxy host type }
    unfold State.addProxy State.instantiate
    split <;> exact h.of_same rfl ⟨rfl, rfl, rfl, rfl⟩
  | made => exact h
  | enter key =>
    have hmod := h.of_modifyRedirector key (f := fun r => { r with depth := r.depth + 1 })
      fun r _ => ⟨rfl, fun l m hl => .inl hl⟩
    exact hmod.of_same rfl ⟨rfl, rfl, rfl, rfl⟩
  | @leave _ _ key =>
    have hmod := h.of_modifyRedirector key (f := fun r => { r with depth := r.depth - 1 })
      fun r _ => ⟨rfl, fun l m hl => .inl hl⟩
    unfold State.leave
    dsimp only
    split
    · exact hmod
    · exact hmod.of_same rfl ⟨rfl, rfl, rfl, rfl⟩
  | root a =>
    unfold State.root
    split
    · exact h
    · exact h.of_same rfl ⟨rfl, rfl, rfl, rfl⟩
  | alone _ ha hf => exact (Request.outcome hf _).stocked (hask _ ha) h
  | _ => exact h.of_same rfl ⟨rfl, rfl, rfl, rfl⟩

namespace World.Stocked

/-- A definition adds a tame method or a stock constructor. -/
theorem define {e : EngineBinding} {w : World σ} (h : w.Stocked e) {info : MethodInfo}
    {body : Invocation → Program σ}
    (hb : (¬e.Reserves info.signature ∧ ∀ inv, (body inv).Tame e) ∨
      IsConstructor info.signature body) : (w.define info body).Stocked e := by
  have hold {m : Nat} {sig : Signature} (hs : w.state.signatureAt m = some sig) :
      (w.define info body).state.signatureAt m = some sig := by
    obtain ⟨i, hi, rfl⟩ := Option.map_eq_some_iff.1 hs
    show ((w.state.foreign.methods ++ [info])[m]?).map _ = _
    rw [List.getElem?_append_left (List.getElem?_eq_some_iff.1 hi).1, hi]
    rfl
  have hkeep {m : Nat} {b : Invocation → Program σ} (hm : w.bodies[m]? = some b) :
      (w.define info body).bodies[m]? = some b := by
    show (w.bodies ++ [body])[m]? = some b
    rw [List.getElem?_append_left (List.getElem?_eq_some_iff.1 hm).1, hm]
  have hoffers {m : Nat} (hm : w.state.Offers e m) : (w.define info body).state.Offers e m := by
    obtain ⟨sig, hs, hres⟩ := hm
    exact ⟨sig, hold hs, hres⟩
  -- A method of the new world is the new one or was there before.
  have hcases {m : Nat} {sig : Signature} {b : Invocation → Program σ}
      (hs : (w.define info body).state.signatureAt m = some sig)
      (hm : (w.define info body).bodies[m]? = some b) :
      (w.state.signatureAt m = some sig ∧ w.bodies[m]? = some b) ∨
        (sig = info.signature ∧ b = body) := by
    obtain ⟨i, hi, rfl⟩ := Option.map_eq_some_iff.1 hs
    obtain ⟨hm, hi⟩ | ⟨rfl, rfl⟩ := getElem?_concat_cases h.length hm hi
    · exact .inl ⟨Option.map_eq_some_iff.2 ⟨i, hi, rfl⟩, hm⟩
    · exact .inr ⟨rfl, rfl⟩
  refine ⟨?_, ?_, ?_, ?_, hkeep h.connect, hkeep h.complete, hkeep h.disconnect,
    hkeep h.nativePtr, fun m hm => hoffers (h.offered m hm), ?_, ?_, ?_⟩
  · show (w.bodies ++ [body]).length = (w.state.foreign.methods ++ [info]).length
    rw [List.length_append, List.length_append, h.length]
    rfl
  · intro m sig b hs hm hres
    obtain ⟨hs, hm⟩ | ⟨rfl, rfl⟩ := hcases hs hm
    · exact h.tame hs hm hres
    · exact (hb.resolve_right fun hc => hres (.inl hc.1)).2
  · intro m sig b hs hm hctor
    obtain ⟨hs, hm⟩ | ⟨rfl, rfl⟩ := hcases hs hm
    · exact h.constructor hs hm hctor
    · exact hb.resolve_left fun ht => ht.1 (.inl hctor)
  · intro m hm
    obtain ⟨sig, hs, hres⟩ := h.reserved m hm
    exact ⟨sig, hold hs, hres⟩
  · intro classRef b hget
    obtain ⟨sig, hs, hctor⟩ := h.bindings hget
    exact ⟨sig, hold hs, hctor⟩
  · intro name f hget
    exact ⟨hoffers (h.factories hget).1, hoffers (h.factories hget).2⟩
  · intro key r hget
    exact ⟨(h.redirectors hget).1, fun l m hl => hoffers ((h.redirectors hget).2 l m hl)⟩

end World.Stocked

end TwinHeap
