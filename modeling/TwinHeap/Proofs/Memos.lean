import TwinHeap.Proofs.Runs
import TwinHeap.Proofs.Spots

/-!
# Memos — what is looked up once and remembered

Classes, types and methods are only ever added, each behind those that are there, so what a look up has
found it finds again, whatever was defined since. The bridge relies on this: the binding of a class and
the linkage of a function are looked up once. `State.Evolves` says what each change leaves alone;
`memos_fresh` is what follows for a session.
-/

namespace TwinHeap

variable {σ : Type}

/-! ## Finding again -/

/-- What the one look up finds the other finds, too. -/
def Refinds {ε α : Type} (x y : Except ε α) : Prop := ∀ a, x = .ok a → y = .ok a

namespace Refinds

variable {ε α β : Type} {x y : Except ε α}

theorem refl (x : Except ε α) : Refinds x x := fun _ h => h

theorem bind {f g : α → Except ε β} (h : Refinds x y) (hf : ∀ a, x = .ok a → Refinds (f a) (g a)) :
    Refinds (x >>= f) (y >>= g) := by
  intro b hb
  cases hx : x with
  | error e =>
    rw [hx] at hb
    cases hb
  | ok a =>
    rw [hx] at hb
    rw [h a hx]
    exact hf a hx b hb

theorem map (f : α → β) (h : Refinds x y) : Refinds (f <$> x) (f <$> y) := by
  intro b hb
  cases hx : x with
  | error e =>
    rw [hx] at hb
    cases hb
  | ok a =>
    rw [hx] at hb
    rw [h a hx]
    exact hb

end Refinds

namespace Host

variable {h h' : Host} {a : Address} {c : HostClass} {info : ClassInfo}

theorem classAt_of_prefix (hp : h.classes <+: h'.classes) (ha : h.classAt a = some c) :
    h'.classAt a = some c := by
  cases a with
  | hostClass i =>
    obtain ⟨more, hmore⟩ := hp
    show h'.classes[i]? = some c
    rw [← hmore, List.getElem?_append_left (List.getElem?_eq_some_iff.1 ha).1]
    exact ha
  | _ => cases ha

theorem classInfo_eq_ok : h.classInfo a = .ok info ↔ ∃ c, h.classAt a = some c ∧ c.info = info := by
  unfold classInfo
  cases h.classAt a with
  | none => simp
  | some c => simp

/-- A class that is known stays what it is. -/
theorem refinds_classInfo (hp : h.classes <+: h'.classes) (a : Address) :
    Refinds (h.classInfo a) (h'.classInfo a) := by
  intro info ha
  obtain ⟨c, hc, hinfo⟩ := classInfo_eq_ok.1 ha
  exact classInfo_eq_ok.2 ⟨c, classAt_of_prefix hp hc, hinfo⟩

/-- And it keeps its ancestors. -/
theorem lineage_of_prefix (hp : h.classes <+: h'.classes) (ha : h.classInfo a = .ok info) :
    h'.lineage a = h.lineage a := by
  obtain ⟨c, hc, -⟩ := classInfo_eq_ok.1 ha
  unfold lineage
  rw [hc, classAt_of_prefix hp hc]

theorem refinds_anyForeign (hp : h.classes <+: h'.classes) (chain : List Address) :
    Refinds (h.anyForeign chain) (h'.anyForeign chain) := by
  induction chain with
  | nil => exact .refl _
  | cons a rest ih =>
    unfold anyForeign
    refine (refinds_classInfo hp a).bind fun info _ => ?_
    by_cases hforeign : info.origin = .foreign
    · rw [if_pos hforeign, if_pos hforeign]
      exact .refl _
    · rw [if_neg hforeign, if_neg hforeign]
      exact ih

/-- The class that proxies are made of is found again. -/
theorem refinds_proxyClass (hp : h.classes <+: h'.classes) (editor : Bool) (chain : List Address) :
    Refinds (h.proxyClass editor chain) (h'.proxyClass editor chain) := by
  induction chain with
  | nil => exact .refl _
  | cons a rest ih =>
    unfold proxyClass
    refine (refinds_classInfo hp a).bind fun info _ => ?_
    cases info.origin with
    | native | foreign => exact .refl _
    | editor =>
      have hnext (bindable : Bool) : Refinds
          (if bindable then (pure (some info) : Except Panic _) else h.proxyClass editor rest)
          (if bindable then pure (some info) else h'.proxyClass editor rest) := by
        cases bindable with
        | true => exact .refl _
        | false => exact ih
      cases editor with
      | true => exact ((refinds_anyForeign hp rest).map _).bind fun bindable _ => hnext bindable
      | false => exact hnext false

end Host

namespace Foreign

/-- All types and methods are still there; methods may have been called meanwhile. -/
structure Evolves (f f' : Foreign) : Prop where
  types : ∀ key type, f.types.get? key = some type → f'.types.get? key = some type
  methods : ∀ (i : Nat) (info : MethodInfo), f.methods[i]? = some info →
    ∃ calls, f'.methods[i]? = some { info with calls := calls }

variable {f f' f'' : Foreign}

theorem Evolves.refl (f : Foreign) : f.Evolves f :=
  ⟨fun _ _ h => h, fun _ info h => ⟨info.calls, h⟩⟩

theorem Evolves.trans (h : f.Evolves f') (h' : f'.Evolves f'') : f.Evolves f'' where
  types key type ht := h'.types key type (h.types key type ht)
  methods i info hi := by
    obtain ⟨calls, hi⟩ := h.methods i info hi
    obtain ⟨calls', hi⟩ := h'.methods i _ hi
    exact ⟨calls', hi⟩

theorem evolves_insert {f : Foreign} {assembly fullName : String}
    (hn : f.lookupType assembly fullName = none) (type : Nat) :
    f.Evolves { f with types := f.types.insert (assembly, fullName) type } := by
  refine ⟨fun key known hkey => ?_, fun _ info h => ⟨info.calls, h⟩⟩
  show (f.types.insert _ _).get? key = some known
  rw [Table.get?_insert, if_neg]
  · exact hkey
  · rintro rfl
    exact absurd (hn.symm.trans hkey) (by rintro ⟨⟩)

theorem evolves_defineType (f : Foreign) (assembly fullName : String) :
    f.Evolves (f.defineType assembly fullName).2 := by
  unfold defineType
  split
  · exact .refl f
  · exact evolves_insert ‹_› _

theorem findMethod_eq_ok {assembly : String} {key : Signature} {m : Nat} :
    f.findMethod assembly key = .ok m ↔ f.lookupMethod assembly key = some m := by
  unfold findMethod
  cases f.lookupMethod assembly key with
  | none => simp
  | some m' => simp

namespace Evolves

variable (h : f.Evolves f')

include h

/-- The first method that a key finds stays the first, be the key exact or not. -/
theorem lookupMethod {assembly : String} {key : Signature} {m : Nat}
    (hm : f.lookupMethod assembly key = some m) : f'.lookupMethod assembly key = some m := by
  obtain ⟨hlt, hmatch, hfirst⟩ := List.findIdx?_eq_some_iff_getElem.1 hm
  have hsame (i : Nat) (hi : i < f.methods.length) : ∃ hi' : i < f'.methods.length,
      f'.methods[i].assembly = f.methods[i].assembly ∧
        f'.methods[i].signature = f.methods[i].signature := by
    obtain ⟨calls, hget⟩ := h.methods i _ (List.getElem?_eq_getElem hi)
    obtain ⟨hi', hget⟩ := List.getElem?_eq_some_iff.1 hget
    exact ⟨hi', by rw [hget], by rw [hget]⟩
  obtain ⟨hlt', hassembly, hsignature⟩ := hsame m hlt
  refine List.findIdx?_eq_some_iff_getElem.2 ⟨hlt', ?_, fun j hj => ?_⟩
  · rwa [hassembly, hsignature]
  · obtain ⟨_, hassembly, hsignature⟩ := hsame j (Nat.lt_trans hj hlt)
    rw [hassembly, hsignature]
    exact hfirst j hj

theorem findMethod (assembly : String) (key : Signature) :
    Refinds (f.findMethod assembly key) (f'.findMethod assembly key) := by
  intro m hm
  rw [findMethod_eq_ok] at hm ⊢
  exact h.lookupMethod hm

theorem findBinding (info : ClassInfo) : Refinds (f.findBinding info) (f'.findBinding info) := by
  unfold Foreign.findBinding
  dsimp only
  cases htype : f.lookupType info.assembly info.foreignName with
  | none => exact fun b hb => by cases hb
  | some type =>
    have htype' : f'.lookupType info.assembly info.foreignName = some type := h.types _ _ htype
    rw [htype']
    exact (h.findMethod _ _).bind fun _ _ => .refl _

/-- Linking a function finds what it found. -/
theorem resolve (registry : Registry) (r : Redirector) :
    Refinds (r.resolve registry f) (r.resolve registry f') := by
  unfold Redirector.resolve
  refine (h.findMethod _ _).bind fun m hm => ?_
  obtain ⟨hlt, -⟩ := List.findIdx?_eq_some_iff_getElem.1 (findMethod_eq_ok.1 hm)
  obtain ⟨calls, hget⟩ := h.methods m _ (List.getElem?_eq_getElem hlt)
  have hcount : (f'.methods[m]?).elim 0 MethodInfo.parameterCount =
      (f.methods[m]?).elim 0 MethodInfo.parameterCount := by
    rw [hget, List.getElem?_eq_getElem hlt]
    rfl
  rw [hcount]
  exact .refl _

end Evolves

end Foreign

/-! ## What was found -/

/-- The answer of a look up. -/
inductive Finding
  | type (assembly fullName : String) (type : Nat)
  /-- The first method that a key finds. -/
  | method (assembly : String) (key : Signature) (method : Nat)
  /-- How the proxies of a class are made. -/
  | binding (classRef : Address) (binding : ProxyBinding)
  /-- How a function is linked to a foreign method, and to which. -/
  | linkage (function : Function) (target : ForeignMethod) (linkage : Linkage) (method : Nat)

/-- Looking it up afresh finds just that. -/
def Finding.Holds : Finding → State → Prop
  | type assembly fullName t, s => s.foreign.lookupType assembly fullName = some t
  | method assembly key m, s => s.foreign.lookupMethod assembly key = some m
  | binding classRef b, s => s.resolveBinding classRef = .ok (.ok b)
  | linkage function target l m, s =>
    (Redirector.mk function target .unbound 0).resolve s.bridge.registry s.foreign = .ok (l, m)

/-- The bridge remembers that it was found. -/
inductive State.Recollects (s : State) : Finding → Prop
  | binding {classRef : Address} {b : ProxyBinding} (h : s.bridge.bindings.get? classRef = some b) :
      Recollects s (.binding classRef b)
  | linkage {key : Redirector.Key} {r : Redirector} {l : Linkage} {m : Nat}
      (hr : s.redirector? key = some r) (hl : r.binding = .linked l m) :
      Recollects s (.linkage r.function r.method l m)

/-- What was found is found again, and what is remembered newly holds. -/
structure State.Evolves (s s' : State) : Prop where
  classes : s.host.classes <+: s'.host.classes
  foreign : s.foreign.Evolves s'.foreign
  config : s'.bridge.config = s.bridge.config
  registry : s'.bridge.registry = s.bridge.registry
  newly : ∀ x, s'.Recollects x → s.Recollects x ∨ x.Holds s'

namespace State

variable {s s' s'' : State} {x : Finding}

/-- A class that is resolved has a class in its chain that proxies are made of. -/
theorem resolveBinding_eq_ok {classRef : Address} {b : ProxyBinding} :
    s.resolveBinding classRef = .ok (.ok b) ↔ ∃ requested info,
      s.host.classInfo classRef = .ok requested ∧
      s.host.proxyClass s.bridge.config.bindEditorClasses (s.host.lineage classRef) =
        .ok (some info) ∧ s.foreign.findBinding info = .ok b := by
  unfold resolveBinding
  cases s.host.classInfo classRef with
  | error e => exact iff_of_false (by rintro ⟨⟩) (by rintro ⟨_, _, ⟨⟩, _⟩)
  | ok requested =>
    cases s.host.proxyClass s.bridge.config.bindEditorClasses (s.host.lineage classRef) with
    | error e => exact iff_of_false (by rintro ⟨⟩) (by rintro ⟨_, _, _, ⟨⟩, _⟩)
    | ok found =>
      cases found with
      | none => exact iff_of_false (by rintro ⟨⟩) (by rintro ⟨_, _, _, ⟨⟩, _⟩)
      | some info =>
        constructor
        · exact fun h => ⟨requested, info, rfl, rfl, Except.ok.inj h⟩
        · rintro ⟨_, _, -, ⟨⟩, h⟩
          exact congrArg Except.ok h

/-- Whatever was found is found again. -/
theorem Evolves.holds (h : s.Evolves s') (hx : x.Holds s) : x.Holds s' := by
  cases x with
  | type assembly fullName t => exact h.foreign.types _ _ hx
  | method assembly key m => exact h.foreign.lookupMethod hx
  | binding classRef b =>
    obtain ⟨requested, info, hrequested, hfound, hb⟩ := resolveBinding_eq_ok.1 hx
    have hlineage := Host.lineage_of_prefix h.classes hrequested
    refine resolveBinding_eq_ok.2 ⟨requested, info, Host.refinds_classInfo h.classes _ _ hrequested,
      ?_, h.foreign.findBinding info b hb⟩
    rw [hlineage, h.config]
    exact Host.refinds_proxyClass h.classes _ _ _ hfound
  | linkage function target l m =>
    show Redirector.resolve s'.bridge.registry s'.foreign _ = .ok (l, m)
    rw [h.registry]
    exact h.foreign.resolve _ _ _ hx

theorem Evolves.refl (s : State) : s.Evolves s :=
  ⟨List.prefix_refl _, .refl _, rfl, rfl, fun _ h => .inl h⟩

theorem Evolves.trans (h : s.Evolves s') (h' : s'.Evolves s'') : s.Evolves s'' where
  classes := h.classes.trans h'.classes
  foreign := h.foreign.trans h'.foreign
  config := h'.config.trans h.config
  registry := h'.registry.trans h.registry
  newly x hx := by
    obtain hx | hx := h'.newly x hx
    · exact (h.newly x hx).imp id h'.holds
    · exact .inr hx

/-- A change of other things. -/
theorem evolves_of_same (hclasses : s'.host.classes = s.host.classes)
    (hforeign : s'.foreign.types = s.foreign.types ∧ s'.foreign.methods = s.foreign.methods)
    (hbridge : s'.bridge.config = s.bridge.config ∧ s'.bridge.registry = s.bridge.registry ∧
      s'.bridge.bindings = s.bridge.bindings ∧ s'.bridge.redirectors = s.bridge.redirectors) :
    s.Evolves s' := by
  obtain ⟨htypes, hmethods⟩ := hforeign
  obtain ⟨hconfig, hregistry, hbindings, hredirectors⟩ := hbridge
  refine ⟨hclasses ▸ List.prefix_refl _, ⟨?_, ?_⟩, hconfig, hregistry, fun x hx => .inl ?_⟩
  · rw [htypes]
    exact fun _ _ h => h
  · rw [hmethods]
    exact fun _ info h => ⟨info.calls, h⟩
  · cases hx with
    | binding hb => exact .binding (hbindings ▸ hb)
    | linkage hr hl =>
      unfold redirector? at hr
      rw [hredirectors] at hr
      exact .linkage hr hl

/-- A redirector changes: its function and its method stay, and a new binding is what linking finds. -/
theorem evolves_modifyRedirector (s : State) (key : Redirector.Key) {f : Redirector → Redirector}
    (hf : ∀ r, s.redirector? key = some r → (f r).function = r.function ∧
      (f r).method = r.method ∧ ∀ l m, (f r).binding = .linked l m →
        r.binding = .linked l m ∨ r.resolve s.bridge.registry s.foreign = .ok (l, m)) :
    s.Evolves (s.modifyRedirector key f) := by
  refine ⟨List.prefix_refl _, .refl _, rfl, rfl, fun x hx => ?_⟩
  cases hx with
  | binding hb => exact .inl (.binding hb)
  | @linkage key' r l m hr hl =>
    have hget : (s.bridge.redirectors.modify key f).get? key' = some r := hr
    rw [Table.get?_modify] at hget
    split at hget
    · rename_i hkey
      subst hkey
      obtain ⟨r₀, hr₀, rfl⟩ := Option.map_eq_some_iff.1 hget
      obtain ⟨hfun, hmethod, hbinding⟩ := hf r₀ hr₀
      rw [hfun, hmethod]
      obtain hold | hnew := hbinding l m hl
      · exact .inl (.linkage hr₀ hold)
      · exact .inr hnew
    · exact .inl (.linkage hget hl)

theorem evolves_dropEntry (s : State) (host : Address) : s.Evolves (s.dropEntry host) := by
  unfold dropEntry
  split
  · exact .refl s
  · exact evolves_of_same rfl ⟨rfl, rfl⟩ ⟨rfl, rfl, rfl, rfl⟩

end State

theorem Request.Outcome.evolves {r : Request} {s s' : State} (h : r.Outcome s s') :
    s.Evolves s' := by
  -- Definitions add to what can be found; what is remembered was found before.
  cases h with
  | defineClass =>
    refine ⟨List.prefix_append _ _, .refl _, rfl, rfl, fun x hx => .inl ?_⟩
    cases hx with
    | binding hb => exact .binding hb
    | linkage hr hl => exact .linkage hr hl
  | setReachable object =>
    refine State.evolves_of_same ?_ ⟨rfl, rfl⟩ ⟨rfl, rfl, rfl, rfl⟩
    cases object <;> rfl
  | intern text number =>
    refine State.evolves_of_same ?_ ⟨rfl, rfl⟩ ⟨rfl, rfl, rfl, rfl⟩
    show (s.host.name text number).2.classes = _
    unfold Host.name Host.intern
    cases s.host.names.findIdx? (· == text) <;> rfl
  | defineType hn =>
    refine ⟨List.prefix_refl _, Foreign.evolves_insert hn _, rfl, rfl, fun x hx => .inl ?_⟩
    cases hx with
    | binding hb => exact .binding hb
    | linkage hr hl => exact .linkage hr hl
  | redirect =>
    refine ⟨List.prefix_refl _, .refl _, rfl, rfl, fun x hx => .inl ?_⟩
    cases hx with
    | binding hb => exact .binding hb
    | linkage hr hl => exact .linkage (State.linked_of_register hr hl) hl
  | _ => exact State.evolves_of_same rfl ⟨rfl, rfl⟩ ⟨rfl, rfl, rfl, rfl⟩

/-- Every change of the bridge adds to what can be found, and remembers only what it has found. -/
theorem Change.evolves {T : Terms} {o o' : List Owed} {s s' : State} (h : Change T o s o' s') :
    s.Evolves s' := by
  cases h with
  | @write _ _ a =>
    cases a <;> exact State.evolves_of_same rfl ⟨rfl, rfl⟩ ⟨rfl, rfl, rfl, rfl⟩
  | @store _ _ a =>
    cases a <;> exact State.evolves_of_same rfl ⟨rfl, rfl⟩ ⟨rfl, rfl, rfl, rfl⟩
  | @resolve _ _ classRef b hb hn =>
    refine ⟨List.prefix_refl _, .refl _, rfl, rfl, fun x hx => ?_⟩
    cases hx with
    | @binding c b' hc =>
      have hget : (s.bridge.bindings.insert classRef b).get? c = some b' := hc
      rw [Table.get?_insert] at hget
      split at hget
      · rename_i hclass
        subst hclass
        cases hget
        -- What is remembered anew was found just now.
        exact .inr hb
      · exact .inl (.binding hget)
    | linkage hr hl => exact .inl (.linkage hr hl)
  | @bind _ _ key r b hr hu hb =>
    refine s.evolves_modifyRedirector key fun r' hr' => ⟨rfl, rfl, fun l m hl => .inr ?_⟩
    obtain rfl := Option.some.inj (hr.symm.trans hr')
    exact hb l m hl
  | clear => exact s.evolves_dropEntry _
  | unmake => exact s.evolves_dropEntry _
  | make _ _ _ ht =>
    rw [State.addProxy_of_isType ht]
    exact State.evolves_of_same rfl ⟨rfl, rfl⟩ ⟨rfl, rfl, rfl, rfl⟩
  | made => exact .refl _
  | enter key =>
    exact (s.evolves_modifyRedirector key (f := fun r => { r with depth := r.depth + 1 })
      fun r _ => ⟨rfl, rfl, fun _ _ hl => .inl hl⟩).trans
        (State.evolves_of_same rfl ⟨rfl, rfl⟩ ⟨rfl, rfl, rfl, rfl⟩)
  | @leave _ _ key =>
    refine (s.evolves_modifyRedirector key (f := fun r => { r with depth := r.depth - 1 })
      fun r _ => ⟨rfl, rfl, fun _ _ hl => .inl hl⟩).trans ?_
    unfold State.leave
    dsimp only
    split
    · exact .refl _
    · exact State.evolves_of_same rfl ⟨rfl, rfl⟩ ⟨rfl, rfl, rfl, rfl⟩
  | root a =>
    unfold State.root
    split <;> exact State.evolves_of_same rfl ⟨rfl, rfl⟩ ⟨rfl, rfl, rfl, rfl⟩
  | alone _ _ hf => exact (Request.outcome hf s).evolves
  | _ => exact State.evolves_of_same rfl ⟨rfl, rfl⟩ ⟨rfl, rfl, rfl, rfl⟩

namespace World

theorem evolves_define (w : World σ) (info : MethodInfo) (body : Invocation → Program σ) :
    w.state.Evolves (w.define info body).state := by
  refine ⟨List.prefix_refl _, ⟨fun _ _ h => h, fun i info' hi => ⟨info'.calls, ?_⟩⟩, rfl, rfl,
    fun x hx => .inl ?_⟩
  · exact (List.getElem?_append_left (List.getElem?_eq_some_iff.1 hi).1).trans hi
  · cases hx with
    | binding hb => exact .binding hb
    | linkage hr hl => exact .linkage hr hl

theorem evolves_countCall (w : World σ) (m : Nat) : w.state.Evolves (w.countCall m).state := by
  refine ⟨List.prefix_refl _, ⟨fun _ _ h => h, fun i info hi => ?_⟩, rfl, rfl, fun x hx => .inl ?_⟩
  · show ∃ calls, (w.state.foreign.methods.modify m _)[i]? = _
    rw [List.getElem?_modify, hi]
    by_cases hm : m = i
    · exact ⟨info.calls + 1, by simp [hm]⟩
    · exact ⟨info.calls, by simp [hm]⟩
  · cases hx with
    | binding hb => exact .binding hb
    | linkage hr hl => exact .linkage hr hl

end World

/-! ## What is remembered is never stale -/

namespace World

/-- Whatever the bridge or foreign code remembers to have been found holds. -/
def Certain (notes : σ → Finding → Prop) (w : World σ) : Prop :=
  ∀ x, w.state.Recollects x ∨ notes w.memory x → x.Holds w.state

theorem Certain.evolves {notes : σ → Finding → Prop} {w v : World σ} (h : w.Certain notes)
    (he : w.state.Evolves v.state) (hm : v.memory = w.memory) : v.Certain notes := by
  rintro x (hx | hx)
  · obtain hx | hx := he.newly x hx
    · exact he.holds (h x (.inl hx))
    · exact hx
  · exact he.holds (h x (.inr (hm ▸ hx)))

/-- A bridge starts without memories. -/
theorem not_recollects_connect {config : Config} {registry : Registry} {side : ForeignSide σ}
    {memory : σ} {w : World σ} (h : World.connect config registry side memory = .ok w) (x : Finding) :
    ¬w.state.Recollects x := by
  obtain ⟨helpers, rfl⟩ := World.started_of_connect h
  intro hx
  cases hx with
  | binding hb => cases hb
  | linkage hr => cases hr

end World

/-- Wherever a session comes to, what the bridge remembers of classes and functions is what looking
them up afresh would find, whatever was defined meanwhile. The same goes for all that foreign code or
the host remember of types, methods, classes and functions, if they remembered it where it was found:
the key of a method may leave the parameters open. -/
theorem memos_fresh {config : Config} {registry : Registry} {side : ForeignSide σ} {memory : σ}
    {start : World σ} (hstart : World.connect config registry side memory = .ok start)
    {ps : List (Nat × Program σ)} {x : Spot σ} (hx : Along start ps x) :
    (∀ classRef b, x.world.state.bridge.bindings.get? classRef = some b →
      x.world.state.resolveBinding classRef = .ok (.ok b)) ∧
    (∀ key r l m, x.world.state.redirector? key = some r → r.binding = .linked l m →
      r.resolve x.world.state.bridge.registry x.world.state.foreign = .ok (l, m)) ∧
    ∀ notes : σ → Finding → Prop, (∀ finding, notes memory finding → finding.Holds start.state) →
      (∀ {n es memory next w}, Along start ps ⟨n, es, .remember memory next, w⟩ →
        ∀ finding, notes memory finding → notes w.memory finding ∨ finding.Holds w.state) →
      ∀ finding, notes x.world.memory finding → finding.Holds x.world.state := by
  have hcertain (notes : σ → Finding → Prop)
      (hbefore : ∀ finding, notes memory finding → finding.Holds start.state)
      (hnotes : ∀ {n es memory next w}, Along start ps ⟨n, es, .remember memory next, w⟩ →
        ∀ finding, notes memory finding → notes w.memory finding ∨ finding.Holds w.state) :
      x.world.Certain notes := by
    -- What can be found is only ever added to, so each step keeps what is certain.
    have hupholds : Spot.Upholds (Along start ps) fun _ w => w.Certain notes := by
      refine ⟨.step, fun _ hw => hw, fun hw hc => hw.evolves hc.evolves rfl,
        fun {_ _ _ _ _ _ w} _ hf hw => hw.evolves (Request.outcome hf w.state).evolves rfl,
        fun {_ w} m hw => hw.evolves (w.evolves_countCall m) rfl,
        fun {_ w} info body hw => hw.evolves (w.evolves_define info body) rfl, ?_⟩
      rintro n es memory next - w hg hw finding (hx | hx)
      · cases hx with
        | binding hb => exact hw _ (.inl (.binding hb))
        | linkage hr hl => exact hw _ (.inl (.linkage hr hl))
      · obtain hx | hx := hnotes hg finding hx
        · exact hw finding (.inr hx)
        · exact hx
    have hcertain : start.Certain notes := by
      rintro finding (hx | hx)
      · exact absurd hx (World.not_recollects_connect hstart finding)
      · exact hbefore finding ((World.of_connect hstart).2.1 ▸ hx)
    obtain ⟨_, hw⟩ := hx.upholds hupholds hcertain
    exact hw
  have hbridge := hcertain (fun _ _ => False) (fun _ h => h.elim) fun _ _ h => h.elim
  refine ⟨fun classRef b hb => hbridge _ (.inl (.binding hb)),
    fun key r l m hr hl => hbridge _ (.inl (.linkage hr hl)), fun notes hbefore hnotes finding hx => ?_⟩
  exact hcertain notes hbefore hnotes finding (.inr hx)

namespace Sample

/-- A constructor, and a static method without parameters. -/
def declared : List MethodInfo :=
  [⟨"G", ⟨"", "P", ".ctor", some ["intptr"]⟩, 1, 0⟩, ⟨"G", ⟨"", "P", "Run", some []⟩, 0, 0⟩]

/-- Resolves a class and links a function by a key that leaves the parameters open; then both methods
are defined anew, one of them with other parameters, and the type once more. -/
def overloading : Program Unit :=
  .ask (.defineType "G" "P") fun _ =>
  .ask (.defineClass ⟨"P", "P", "G", .native, false⟩ none) fun c =>
  .ask (.bind c) fun _ =>
  .ask (.redirect ⟨"T", "Run", ⟨true, true, false, false⟩, [], ⟨0, 1⟩⟩ ⟨"G", ⟨"", "P", "Run", none⟩, []⟩)
    fun _ =>
  .ask (.link ("T", "Run")) fun _ =>
  .define ⟨"G", ⟨"", "P", "Run", some ["int"]⟩, 1, 0⟩ (fun _ => .done none) fun _ =>
  .define ⟨"G", ⟨"", "P", ".ctor", some ["intptr"]⟩, 1, 0⟩ (fun _ => .done none) fun _ =>
  .ask (.defineType "G" "P") fun _ => .done none

/-- The class is resolved, the function is linked, and both methods were defined anew. -/
def isOverloaded (w : World Unit) : Bool :=
  (w.state.bridge.bindings.get? (.hostClass 0)).isSome && w.state.foreign.methods.length == 18 &&
    match w.state.redirector? ("T", "Run") with
    | some r => match r.binding with
      | .linked _ m => m == 15
      | _ => false
    | none => false

theorem run_overloading : endsIn 2 overloading (world declared []) isOverloaded = true := by
  decide +kernel

end Sample

/-- `memos_fresh` after methods were defined anew. -/
theorem memos_fresh_of_overloading :
    ∃ (w : World Unit) (b : ProxyBinding) (r : Redirector) (l : Linkage),
      Along (Sample.world Sample.declared []) [(2, Sample.overloading), (2, .done none)]
        ⟨2, [], .done none, w⟩ ∧
      w.state.foreign.methods.length = 18 ∧
      w.state.bridge.bindings.get? (.hostClass 0) = some b ∧
      w.state.resolveBinding (.hostClass 0) = .ok (.ok b) ∧
      w.state.redirector? ("T", "Run") = some r ∧ r.binding = .linked l 15 ∧
      r.resolve w.state.bridge.registry w.state.foreign = .ok (l, 15) := by
  obtain ⟨w, a, hr, -, hrun⟩ := Sample.sees_of_endsIn Sample.run_overloading
  simp only [Sample.isOverloaded, Bool.and_eq_true, beq_iff_eq] at hrun
  obtain ⟨⟨hbound, hlength⟩, hlinked⟩ := hrun
  obtain ⟨b, hb⟩ := Option.isSome_iff_exists.1 hbound
  split at hlinked
  case h_2 => cases hlinked
  rename_i r hredirector
  split at hlinked
  case h_2 => cases hlinked
  rename_i l m hl
  obtain rfl := beq_iff_eq.1 hlinked
  have hx : Along (Sample.world Sample.declared []) [(2, Sample.overloading), (2, .done none)]
      ⟨2, [], .done none, w⟩ := .begins (.ended .start hr) (List.prefix_refl _)
  obtain ⟨hbinding, hlink, -⟩ := memos_fresh (Sample.connect_world _ _) hx
  exact ⟨w, b, r, l, hx, hlength, hb, hbinding _ b hb, hredirector, hl, hlink _ r l _ hredirector hl⟩

end TwinHeap
