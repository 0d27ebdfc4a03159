import Mathlib.Data.List.Forall2
import TwinHeap.Proofs.Severing
import TwinHeap.Proofs.Spelling

/-!
# Selection — the class whose proxies stand for the objects of a class

Looking for it is a walk up the chain of a class, with a second walk at each class made in the editor.
`ClassInfo.selected` says in one look where the walk ends: at the class itself, or at the nearest class
that was not made in the editor. `Foreign.Resolves` says what becomes of the class that is selected,
by what its assembly has. `class_resolution` is what a session sees of both.
-/

namespace TwinHeap

variable {σ : Type}

/-! ## Where the walk ends -/

namespace ClassInfo

/-- A class made in the editor can have a proxy class of its own: the bridge is told to bind such
classes, and no class that it inherits from was generated from a foreign one. -/
def OwnsProxy (editors : Bool) (requested : ClassInfo) (ancestors : List ClassInfo) : Prop :=
  requested.origin = .editor ∧ editors = true ∧ ∀ info ∈ ancestors, info.origin ≠ .foreign

instance (editors : Bool) (requested : ClassInfo) (ancestors : List ClassInfo) :
    Decidable (OwnsProxy editors requested ancestors) :=
  inferInstanceAs (Decidable (_ ∧ _ ∧ _))

/-- The class whose proxies stand for the objects of a class with such ancestors, nearest first. -/
def selected (editors : Bool) (requested : ClassInfo) (ancestors : List ClassInfo) :
    Option ClassInfo :=
  if OwnsProxy editors requested ancestors then some requested
  else (requested :: ancestors).find? fun info => info.origin ≠ .editor

variable {editors : Bool} {requested next : ClassInfo} {ancestors : List ClassInfo}

/-- The class itself is selected unless it was made in the editor and owns no proxy class. -/
theorem selected_of_stays
    (h : ¬(requested.origin = .editor ∧ ¬OwnsProxy editors requested ancestors)) :
    selected editors requested ancestors = some requested := by
  unfold selected
  by_cases howns : OwnsProxy editors requested ancestors
  · rw [if_pos howns]
  · rw [if_neg howns]
    have hother : requested.origin ≠ .editor := fun hedited => h ⟨hedited, howns⟩
    exact List.find?_cons_of_pos (by simpa using hother)

/-- There is none just if the bridge does not bind classes made in the editor and there are no other. -/
theorem selected_eq_none_iff : selected editors requested ancestors = none ↔
    editors = false ∧ ∀ info ∈ requested :: ancestors, info.origin = .editor := by
  unfold selected
  by_cases howns : OwnsProxy editors requested ancestors
  · rw [if_pos howns]
    refine iff_of_false (fun h => by cases h) fun h => ?_
    exact absurd (h.1.symm.trans howns.2.1) (by decide)
  · rw [if_neg howns, List.find?_eq_none]
    constructor
    · intro h
      have hall (info : ClassInfo) (hmem : info ∈ requested :: ancestors) :
          info.origin = .editor := by
        simpa using h info hmem
      refine ⟨?_, hall⟩
      rw [← Bool.not_eq_true]
      intro heditors
      refine howns ⟨hall _ List.mem_cons_self, heditors, fun info hmem hforeign => ?_⟩
      rw [hall info (List.mem_cons_of_mem _ hmem)] at hforeign
      cases hforeign
    · intro h info hmem
      simpa using h.2 info hmem

/-- Where the class itself is not selected, its nearest ancestor would have been asked with the same
end. One that was made in the editor does not stand in the way: what keeps the class from having a
proxy class of its own is above that one, too. -/
theorem selected_cons (hedited : requested.origin = .editor)
    (howns : ¬OwnsProxy editors requested (next :: ancestors)) :
    selected editors requested (next :: ancestors) = selected editors next ancestors := by
  have hskip : (requested :: next :: ancestors).find? (fun info => info.origin ≠ .editor) =
      (next :: ancestors).find? fun info => info.origin ≠ .editor :=
    List.find?_cons_of_neg (by simpa using hedited)
  have hnext : ¬OwnsProxy editors next ancestors := by
    rintro ⟨hnext, heditors, hancestors⟩
    refine howns ⟨hedited, heditors, List.forall_mem_cons.2 ⟨?_, hancestors⟩⟩
    rw [hnext]
    decide
  unfold selected
  rw [if_neg howns, if_neg hnext, hskip]

end ClassInfo

namespace Host

variable {h : Host} {chain : List Address} {infos : List ClassInfo}

/-- The host knows the classes at these addresses. -/
def Knows (h : Host) (chain : List Address) (infos : List ClassInfo) : Prop :=
  List.Forall₂ (fun a info => h.classInfo a = .ok info) chain infos

theorem anyForeign_eq (hknows : h.Knows chain infos) :
    h.anyForeign chain = .ok (infos.any fun info => info.origin = .foreign) := by
  induction hknows with
  | nil => rfl
  | @cons a info chain infos ha _ ih =>
    unfold anyForeign
    rw [ha, List.any_cons]
    show (if info.origin = .foreign then Except.ok true else h.anyForeign chain) = _
    by_cases hforeign : info.origin = .foreign
    · rw [if_pos hforeign, decide_eq_true hforeign, Bool.true_or]
    · rw [if_neg hforeign, decide_eq_false hforeign, Bool.false_or, ih]

/-- The walk goes past a class that was made in the editor and owns no proxy class. -/
theorem proxyClass_cons {editors : Bool} {a : Address} {requested : ClassInfo}
    (ha : h.classInfo a = .ok requested) (hknows : h.Knows chain infos) :
    h.proxyClass editors (a :: chain) =
      if requested.origin = .editor ∧ ¬requested.OwnsProxy editors infos then
        h.proxyClass editors chain
      else .ok (some requested) := by
  rw [proxyClass, ha, anyForeign_eq hknows]
  simp only [bind, Except.bind, Functor.map, Except.map]
  cases horigin : requested.origin with
  | native | foreign => exact (if_neg fun h => Origin.noConfusion h.1).symm
  | editor =>
    cases editors with
    | false => exact (if_pos ⟨rfl, fun howns => Bool.false_ne_true howns.2.1⟩).symm
    | true =>
      have howns : requested.OwnsProxy true infos ↔
          (!infos.any fun info => info.origin = .foreign) = true := by
        simp [ClassInfo.OwnsProxy, horigin]
      dsimp only
      rw [if_pos rfl]
      by_cases hany : (!infos.any fun info => info.origin = .foreign) = true
      · rw [if_pos hany, if_neg fun h => h.2 (howns.2 hany)]
        rfl
      · rw [if_neg hany, if_pos ⟨rfl, fun h => hany (howns.1 h)⟩]

/-- The walk up a chain ends at the class that is selected. -/
theorem proxyClass_eq {editors : Bool} {a : Address} {requested : ClassInfo}
    (hknows : h.Knows (a :: chain) (requested :: infos)) :
    h.proxyClass editors (a :: chain) = .ok (ClassInfo.selected editors requested infos) := by
  -- The induction is on the ancestors: the walk goes on at the next one with the same end.
  induction infos generalizing a chain requested with
  | nil =>
    obtain ⟨ha, hrest⟩ := List.forall₂_cons.1 hknows
    obtain rfl := List.forall₂_nil_right_iff.1 hrest
    rw [proxyClass_cons ha hrest]
    by_cases howns : requested.origin = .editor ∧ ¬requested.OwnsProxy editors []
    · obtain ⟨hedited, howns⟩ := howns
      rw [if_pos ⟨hedited, howns⟩, ClassInfo.selected, if_neg howns,
        List.find?_cons_of_neg (by simpa using hedited)]
      rfl
    · rw [if_neg howns, ClassInfo.selected_of_stays howns]
  | cons next infos ih =>
    obtain ⟨ha, hrest⟩ := List.forall₂_cons.1 hknows
    rw [proxyClass_cons ha hrest]
    by_cases howns : requested.origin = .editor ∧ ¬requested.OwnsProxy editors (next :: infos)
    · obtain ⟨b, chain, hb, hrest', rfl⟩ := List.forall₂_cons_right_iff.1 hrest
      rw [if_pos howns, ih hrest, ClassInfo.selected_cons howns.1 howns.2]
    · rw [if_neg howns, ClassInfo.selected_of_stays howns]

end Host

/-! ## What becomes of the class that is selected -/

/-- The constructor of its proxies; a function library is constructed without a host address. -/
def ClassInfo.proxyConstructor (info : ClassInfo) : Signature :=
  .ofClass info.foreignName ".ctor" (if info.isLibrary then [] else ["intptr"])

namespace Foreign

/-- The assembly of a class has its type. -/
def HasType (f : Foreign) (info : ClassInfo) : Prop :=
  (info.assembly, info.foreignName) ∈ f.types.keys

/-- The assembly of a class declares its constructor. -/
def HasConstructor (f : Foreign) (info : ClassInfo) : Prop :=
  ∃ m ∈ f.methods, m.assembly = info.assembly ∧ m.signature = info.proxyConstructor

/-- The binding makes the proxies of a class, by its type and its constructor. -/
structure Constructs (f : Foreign) (info : ClassInfo) (b : ProxyBinding) : Prop where
  names : b.proxyClass = info.foreignName ∧ b.assembly = info.assembly ∧
    b.constructor = info.proxyConstructor ∧ b.takesNative = !info.isLibrary
  type : f.lookupType info.assembly info.foreignName = some b.type
  method : f.lookupMethod info.assembly info.proxyConstructor = some b.method

/-- What resolving a class answers, by the class that is selected for it and by what the assembly of
that class has. -/
structure Resolves (f : Foreign) (requested : ClassInfo) (selected : Option ClassInfo)
    (answer : Except LinkError ProxyBinding) : Prop where
  /-- There is no class, which is said of the class that was asked for. -/
  noProxyClass : ∀ name, answer = .error (.noProxyClass name) ↔
    selected = none ∧ name = requested.name
  missingType : ∀ assembly full, answer = .error (.missingType assembly full) ↔
    ∃ info, selected = some info ∧ ¬f.HasType info ∧
      assembly = info.assembly ∧ full = info.foreignName
  missingMethod : ∀ assembly key, answer = .error (.missingMethod assembly key) ↔
    ∃ info, selected = some info ∧ f.HasType info ∧ ¬f.HasConstructor info ∧
      assembly = info.assembly ∧ key = info.proxyConstructor.render
  found : (∃ b, answer = .ok b) ↔
    ∃ info, selected = some info ∧ f.HasType info ∧ f.HasConstructor info
  /-- What is found is of the class that was selected, and of no other. -/
  constructs : ∀ b, answer = .ok b → ∃ info, selected = some info ∧ f.Constructs info b
  failed : ∀ e, answer = .error e → (∃ name, e = .noProxyClass name) ∨
    (∃ assembly full, e = .missingType assembly full) ∨ ∃ assembly key, e = .missingMethod assembly key

variable {f : Foreign} {info : ClassInfo}

theorem hasType_iff : f.HasType info ↔ ∃ type, f.lookupType info.assembly info.foreignName = some type := by
  unfold HasType lookupType
  rw [← Option.isSome_iff_exists, Option.isSome_iff_ne_none, Ne, Table.get?_eq_none, Classical.not_not]

theorem hasConstructor_iff :
    f.HasConstructor info ↔ ∃ m, f.lookupMethod info.assembly info.proxyConstructor = some m := by
  unfold HasConstructor
  rw [← exists_findMethod_iff rfl]
  exact exists_congr fun _ => findMethod_eq_ok

/-- The three ways in which the look up of a class can end. -/
theorem findBinding_eq (f : Foreign) (info : ClassInfo) : f.findBinding info =
    match f.lookupType info.assembly info.foreignName with
    | none => .error (.missingType info.assembly info.foreignName)
    | some type => match f.lookupMethod info.assembly info.proxyConstructor with
      | none => .error (.missingMethod info.assembly info.proxyConstructor.render)
      | some m => .ok ⟨info.foreignName, info.assembly, info.proxyConstructor, type, m,
          !info.isLibrary⟩ := by
  have hconstructor : Signature.ofClass info.foreignName ".ctor"
      (if !info.isLibrary then ["intptr"] else []) = info.proxyConstructor := by
    unfold ClassInfo.proxyConstructor
    cases info.isLibrary <;> rfl
  unfold findBinding findMethod
  dsimp only
  rw [hconstructor]
  cases f.lookupType info.assembly info.foreignName with
  | none => rfl
  | some type => cases f.lookupMethod info.assembly info.proxyConstructor <;> rfl

theorem resolves_none (f : Foreign) (requested : ClassInfo) :
    f.Resolves requested none (.error (.noProxyClass requested.name)) where
  noProxyClass name := by simp [eq_comm]
  missingType assembly full := by simp
  missingMethod assembly key := by simp
  found := by simp
  constructs b h := by cases h
  failed e h := .inl ⟨_, (Except.error.inj h).symm⟩

/-- No other class is tried when the one that is selected has no type or no constructor. -/
theorem resolves_findBinding (f : Foreign) (requested info : ClassInfo) :
    f.Resolves requested (some info) (f.findBinding info) := by
  rw [findBinding_eq]
  cases htype : f.lookupType info.assembly info.foreignName with
  | none =>
    have hno : ¬f.HasType info := by simp [hasType_iff, htype]
    exact {
      noProxyClass := by simp
      missingType := by simp [hno, eq_comm]
      missingMethod := by simp [hno]
      found := by simp [hno]
      constructs := fun b h => by cases h
      failed := fun e h => .inr (.inl ⟨_, _, (Except.error.inj h).symm⟩) }
  | some type =>
    have hhas : f.HasType info := hasType_iff.2 ⟨type, htype⟩
    dsimp only
    cases hmethod : f.lookupMethod info.assembly info.proxyConstructor with
    | none =>
      have hno : ¬f.HasConstructor info := by simp [hasConstructor_iff, hmethod]
      exact {
        noProxyClass := by simp
        missingType := by simp [hhas]
        missingMethod := by simp [hhas, hno, eq_comm]
        found := by simp [hno]
        constructs := fun b h => by cases h
        failed := fun e h => .inr (.inr ⟨_, _, (Except.error.inj h).symm⟩) }
    | some m =>
      have hdeclares : f.HasConstructor info := hasConstructor_iff.2 ⟨m, hmethod⟩
      exact {
        noProxyClass := by simp
        missingType := by simp [hhas]
        missingMethod := by simp [hdeclares]
        found := by simp [hhas, hdeclares]
        constructs := fun b h => ⟨info, rfl, by
          cases h
          exact ⟨⟨rfl, rfl, rfl, rfl⟩, htype, hmethod⟩⟩
        failed := fun e h => by cases h }

end Foreign

/-- Resolving a class afresh, in closed form. -/
theorem State.exists_resolves {s : State} {classRef : Address} {requested : ClassInfo}
    {ancestors : List ClassInfo}
    (hknows : s.host.Knows (s.host.lineage classRef) (requested :: ancestors)) :
    s.host.classInfo classRef = .ok requested ∧ ∃ answer, s.resolveBinding classRef = .ok answer ∧
      s.foreign.Resolves requested
        (ClassInfo.selected s.bridge.config.bindEditorClasses requested ancestors) answer := by
  have hrequested : s.host.classInfo classRef = .ok requested := (List.forall₂_cons.1 hknows).1
  have hselected : s.host.proxyClass s.bridge.config.bindEditorClasses (s.host.lineage classRef) =
      .ok (ClassInfo.selected s.bridge.config.bindEditorClasses requested ancestors) :=
    Host.proxyClass_eq hknows
  refine ⟨hrequested, ?_⟩
  unfold resolveBinding
  rw [hrequested, hselected]
  cases ClassInfo.selected s.bridge.config.bindEditorClasses requested ancestors with
  | none => exact ⟨_, rfl, s.foreign.resolves_none requested⟩
  | some info => exact ⟨_, rfl, s.foreign.resolves_findBinding requested info⟩

/-! ## What a session sees -/

/-- What is asked for a second time is answered from memory; a failure is not remembered, and each is
counted. -/
theorem Identity.ends_bindingFor_of_resolve {w : World σ} {classRef : Address} {requested : ClassInfo}
    {answer : Except LinkError ProxyBinding}
    (hrequested : w.state.host.classInfo classRef = .ok requested)
    (hanswer : w.state.resolveBinding classRef = .ok answer)
    (hfresh : ∀ b, w.state.bridge.bindings.get? classRef = some b →
      w.state.resolveBinding classRef = .ok (.ok b)) (call : Invoker σ) :
    Ends (Identity.bindingFor classRef call w)
      (fun found v => found = answer ∧
        (∀ b, answer = .ok b → v.state.bridge.bindings.get? classRef = some b ∧
          v.counter Counter.linkFailures = w.counter Counter.linkFailures) ∧
        ∀ e, answer = .error e → v.state.bridge.bindings = w.state.bridge.bindings ∧
          v.state.bridge.bindings.get? classRef = none ∧
          v.counter Counter.linkFailures = w.counter Counter.linkFailures + 1)
      fun f _ => (∃ e, answer = .error e) ∧ f = .panic (.overflow .addition) ∧
        wordModulus ≤ w.counter Counter.linkFailures + 1 := by
  unfold bindingFor
  rw [Act.state_bind]
  cases hmemo : w.state.bridge.bindings.get? classRef with
  | some b =>
    obtain rfl := Except.ok.inj (hanswer.symm.trans (hfresh b hmemo))
    refine ⟨rfl, fun b' hb => ?_, fun e he => by cases he⟩
    cases hb
    exact ⟨hmemo, rfl⟩
  | none =>
    rw [hrequested, hanswer]
    cases answer with
    | ok b =>
      refine ⟨rfl, fun b' hb => ?_, fun e he => by cases he⟩
      cases hb
      exact ⟨(Table.get?_insert ..).trans (if_pos rfl), rfl⟩
    | error e =>
      let u := w.withState (w.state.report (.linkFailure requested.name e.message))
      show Ends ((Act.count Counter.linkFailures 1 >>= fun _ => pure (.error e) :
        Act σ (Except LinkError ProxyBinding)) call u) _ _
      refine Act.ends_bind (Q := fun _ v => ∃ m, w.state.bridge.metrics.add Counter.linkFailures 1 = .ok m ∧
        v = u.withState { u.state with bridge := { u.state.bridge with metrics := m } }) ?_ ?_
      · exact (Act.count_ends Counter.linkFailures 1 call u).mono (fun _ _ h => h)
          fun f _ h => ⟨⟨e, rfl⟩, h⟩
      · rintro _ _ ⟨m, hm, rfl⟩
        refine ⟨rfl, (fun b hb => by cases hb), fun _ _ => ⟨rfl, hmemo, ?_⟩⟩
        exact (Metrics.counter_of_add hm _).trans (if_pos rfl)

/-- In every state that a session comes to, resolving a class whose chain the host knows selects the
class itself if it was made in the editor, the bridge binds such classes and no ancestor was generated
from a foreign class, and the nearest class at or above it that was not made in the editor otherwise.
There is none just if the bridge does not bind classes made in the editor and the whole chain was made
there. What is answered goes by the class that is selected alone; a binding is remembered, a failure is
not, and each failure is counted. Only a count that does not fit in its word keeps the answer back. -/
theorem class_resolution {config : Config} {registry : Registry} {side : ForeignSide σ} {memory : σ}
    {start : World σ} (hstart : World.connect config registry side memory = .ok start)
    {ps : List (Nat × Program σ)} {x : Spot σ} (hx : Along start ps x) {classRef : Address}
    {requested : ClassInfo} {ancestors : List ClassInfo}
    (hknows : x.world.state.host.Knows (x.world.state.host.lineage classRef) (requested :: ancestors))
    (call : Invoker σ) :
    let editors := x.world.state.bridge.config.bindEditorClasses
    let selected := ClassInfo.selected editors requested ancestors
    (selected = none ↔ editors = false ∧ ∀ info ∈ requested :: ancestors, info.origin = .editor) ∧
    ∃ answer, x.world.state.foreign.Resolves requested selected answer ∧
      Ends (Identity.bindingFor classRef call x.world)
        (fun found v => found = answer ∧
          (∀ b, answer = .ok b → v.state.bridge.bindings.get? classRef = some b ∧
            v.counter Counter.linkFailures = x.world.counter Counter.linkFailures) ∧
          ∀ e, answer = .error e → v.state.bridge.bindings = x.world.state.bridge.bindings ∧
            v.state.bridge.bindings.get? classRef = none ∧
            v.counter Counter.linkFailures = x.world.counter Counter.linkFailures + 1)
        fun f _ => (∃ e, answer = .error e) ∧ f = .panic (.overflow .addition) ∧
          wordModulus ≤ x.world.counter Counter.linkFailures + 1 := by
  obtain ⟨hrequested, answer, hanswer, hresolves⟩ := State.exists_resolves hknows
  refine ⟨ClassInfo.selected_eq_none_iff, answer, hresolves, ?_⟩
  exact Identity.ends_bindingFor_of_resolve hrequested hanswer
    (fun b hb => (memos_fresh hstart hx).1 classRef b hb) call

namespace Sample

def generated : ClassInfo := ⟨"F", "G.F", "G", .foreign, false⟩
def edited : ClassInfo := ⟨"D", "G.D", "G", .editor, false⟩
def editedTwice : ClassInfo := ⟨"E", "G.E", "G", .editor, false⟩

/-- Two classes made in the editor, one on top of the other, inherit from a class that was generated
from a foreign one, the type of which is there while its constructor is missing. The bridge binds
classes made in the editor. -/
def descending : Program Unit :=
  .ask (.defineType "G" "G.F") fun _ =>
  .ask (.defineClass generated none) fun f =>
  .ask (.defineClass edited (some f)) fun d =>
  .ask (.defineClass editedTwice (some d)) fun e =>
  .ask (.bind e) fun _ => .done none

def descended : Host :=
  ⟨[⟨generated, []⟩, ⟨edited, [.hostClass 0]⟩, ⟨editedTwice, [.hostClass 1, .hostClass 0]⟩], [], []⟩

theorem knows_descended : descended.Knows (descended.lineage (.hostClass 2))
    [editedTwice, edited, generated] :=
  .cons rfl (.cons rfl (.cons rfl .nil))

def isDescended (w : World Unit) : Bool :=
  w.state.host == descended && w.state.bridge.config == config &&
    w.state.foreign.types.keys == [("G", "G.F")] && w.state.foreign.methods == library &&
    w.counter Counter.linkFailures == 1

theorem run_descending : endsIn 2 descending (world [] []) isDescended = true := by
  decide +kernel

end Sample

/-- `class_resolution` of a class made in the editor below another one: what is missing is said of the
class that both inherit from, and it is counted again. -/
theorem class_resolution_of_descending :
    ∃ w v : World Unit,
      Along (Sample.world [] []) [(2, Sample.descending), (2, .done none)] ⟨2, [], .done none, w⟩ ∧
      w.counter Counter.linkFailures = 1 ∧
      Identity.bindingFor (.hostClass 2) (callAt 2) w =
        .ok (.error (.missingMethod "G" "G.F:.ctor (intptr)")) v ∧
      v.state.bridge.bindings.get? (.hostClass 2) = none ∧ v.counter Counter.linkFailures = 2 := by
  obtain ⟨w, a, hr, -, hrun⟩ := Sample.sees_of_endsIn Sample.run_descending
  simp only [Sample.isDescended, Bool.and_eq_true, beq_iff_eq] at hrun
  obtain ⟨⟨⟨⟨hhost, hconfig⟩, htypes⟩, hmethods⟩, hcounter⟩ := hrun
  have hx : Along (Sample.world [] []) [(2, Sample.descending), (2, .done none)]
      ⟨2, [], .done none, w⟩ := .begins (.ended .start hr) (List.prefix_refl _)
  have hknows : w.state.host.Knows (w.state.host.lineage (.hostClass 2))
      [Sample.editedTwice, Sample.edited, Sample.generated] := by
    rw [hhost]
    exact Sample.knows_descended
  obtain ⟨-, answer, hresolves, hends⟩ :=
    class_resolution (Sample.connect_world _ _) hx hknows (callAt 2)
  have hanswer : answer = .error (.missingMethod "G" "G.F:.ctor (intptr)") := by
    refine (hresolves.missingMethod _ _).2 ⟨Sample.generated, ?_, ?_, ?_, rfl, by decide⟩
    · rw [hconfig]
      decide
    · unfold Foreign.HasType
      rw [htypes]
      decide
    · unfold Foreign.HasConstructor
      rw [hmethods]
      decide
  subst hanswer
  cases hbind : Identity.bindingFor (.hostClass 2) (callAt 2) w with
  | ok found v =>
    rw [hbind] at hends
    obtain ⟨rfl, -, hfailed⟩ := hends
    obtain ⟨-, hnone, hcount⟩ := hfailed _ rfl
    exact ⟨w, v, hx, hcounter, hbind, hnone, by rw [hcount, hcounter]⟩
  | error f v =>
    rw [hbind] at hends
    have hfull : wordModulus ≤ w.counter Counter.linkFailures + 1 := hends.2.2
    rw [hcounter] at hfull
    exact absurd hfull (by decide)

end TwinHeap
