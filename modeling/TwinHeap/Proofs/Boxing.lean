import TwinHeap.Proofs.Runs

/-!
# Boxing — the methods of a struct, looked up once for each name

The bridge remembers the boxing methods of a struct under its full name. After any requests its memory
is a function of them (`Foreign.firstFound`): it holds what the first struct of a name was found to
have. `boxing_by_name` reads off what a request is answered with: the look up of the first struct of
that name that has the methods, and where no struct of that name had them, its own. The assembly is
part of the look up, but not of what is remembered.
-/

namespace TwinHeap

variable {σ : Type}

namespace StructInfo

/-- The key of the method that boxes the struct. -/
def boxKey (info : StructInfo) : Signature := .ofClass info.fullName "FromNative" ["intptr", "int"]

/-- The key of the method that unboxes the struct. -/
def unboxKey (info : StructInfo) : Signature :=
  .ofClass info.fullName "ToNative" ["intptr", "int", info.fullName ++ "&"]

end StructInfo

namespace Foreign

/-- What looking for the boxing methods of a struct comes to: the two methods, or the first of them
that its assembly has not. -/
inductive Boxes (f : Foreign) (info : StructInfo) : Except LinkError StructFactory → Prop
  | both {box unbox : Nat} : f.lookupMethod info.assembly info.boxKey = some box →
      f.lookupMethod info.assembly info.unboxKey = some unbox →
      Boxes f info (.ok ⟨info.fullName, box, unbox⟩)
  | noBox : f.lookupMethod info.assembly info.boxKey = none →
      Boxes f info (.error (.missingMethod info.assembly info.boxKey.render))
  | noUnbox {box : Nat} : f.lookupMethod info.assembly info.boxKey = some box →
      f.lookupMethod info.assembly info.unboxKey = none →
      Boxes f info (.error (.missingMethod info.assembly info.unboxKey.render))

variable {f : Foreign} {info info' : StructInfo}

theorem findFactory_eq (f : Foreign) (info : StructInfo) : f.findFactory info =
    f.findMethod info.assembly info.boxKey >>= fun box =>
      f.findMethod info.assembly info.unboxKey >>= fun unbox =>
        .ok ⟨info.fullName, box, unbox⟩ := rfl

theorem boxes_findFactory (f : Foreign) (info : StructInfo) : f.Boxes info (f.findFactory info) := by
  rw [findFactory_eq]
  unfold findMethod
  cases hbox : f.lookupMethod info.assembly info.boxKey with
  | none => exact .noBox hbox
  | some box =>
    cases hunbox : f.lookupMethod info.assembly info.unboxKey with
    | none => exact .noUnbox hbox hunbox
    | some unbox => exact .both hbox hunbox

/-- Only the name and the assembly of a struct are looked for. -/
theorem findFactory_congr (hname : info.fullName = info'.fullName)
    (hassembly : info.assembly = info'.assembly) : f.findFactory info = f.findFactory info' := by
  unfold findFactory
  rw [hname, hassembly]

/-- The first struct of a name that has its boxing methods. -/
def firstFound (f : Foreign) (asked : List StructInfo) (name : String) : Option StructInfo :=
  asked.find? fun info => info.fullName == name && (f.findFactory info).isOk

/-- The struct that a request is answered for, after the requests `asked`. -/
def meant (f : Foreign) (asked : List StructInfo) (info : StructInfo) : StructInfo :=
  (f.firstFound asked info.fullName).getD info

variable {asked : List StructInfo} {name : String}

theorem of_firstFound (h : f.firstFound asked name = some info) :
    info ∈ asked ∧ info.fullName = name ∧ ∃ factory, f.findFactory info = .ok factory := by
  unfold firstFound at h
  have hsome := List.find?_some h
  obtain ⟨hname, hok⟩ := Bool.and_eq_true_iff.1 hsome
  refine ⟨List.mem_of_find?_eq_some h, beq_iff_eq.1 hname, ?_⟩
  cases hfind : f.findFactory info with
  | ok factory => exact ⟨factory, rfl⟩
  | error e =>
    rw [hfind] at hok
    cases hok

/-- If no struct of its name was asked for in another assembly, a request is answered for itself. -/
theorem findFactory_meant (h : ∀ earlier ∈ asked, earlier.fullName = info.fullName →
    earlier.assembly = info.assembly) : f.findFactory (f.meant asked info) = f.findFactory info := by
  unfold meant
  cases hfirst : f.firstFound asked info.fullName with
  | none => rfl
  | some first =>
    obtain ⟨hmem, hname, -⟩ := of_firstFound hfirst
    exact findFactory_congr hname (h first hmem hname)

/-- A further struct is found first for its own name, if none was before and it has the methods. -/
theorem firstFound_append :
    f.firstFound (asked ++ [info]) name =
      (f.firstFound asked name).or
        (if info.fullName = name ∧ (f.findFactory info).isOk = true then some info else none) := by
  unfold firstFound
  rw [List.find?_append, List.find?_singleton]
  simp only [Bool.and_eq_true, beq_iff_eq]

/-- A struct that nothing new is found for changes nothing. -/
theorem firstFound_append_of_old
    (h : (f.firstFound asked info.fullName).isSome = true ∨ (f.findFactory info).isOk = false) :
    f.firstFound (asked ++ [info]) name = f.firstFound asked name := by
  rw [firstFound_append]
  cases hfirst : f.firstFound asked name with
  | some first => rfl
  | none =>
    refine if_neg ?_
    rintro ⟨rfl, hok⟩
    obtain h | h := h
    · rw [hfirst] at h
      cases h
    · rw [hok] at h
      cases h

end Foreign

/-- What is remembered of boxing methods is what was found first for each name. -/
def State.Recalls (s : State) (f : Foreign) (asked : List StructInfo) : Prop :=
  ∀ name, s.bridge.factories.get? name =
    (f.firstFound asked name).bind fun info => (f.findFactory info).toOption

namespace Engine

open Act

variable (call : Invoker σ) {w : World σ} {asked : List StructInfo}

/-- A request is answered for the first struct of its name, which is remembered from then on. -/
theorem structFactory_recalls (h : w.state.Recalls w.state.foreign asked) (info : StructInfo) :
    ∃ v, structFactory info call w =
        .ok (w.state.foreign.findFactory (w.state.foreign.meant asked info)) v ∧
      v.state.foreign = w.state.foreign ∧ v.state.Recalls w.state.foreign (asked ++ [info]) := by
  have hget := h info.fullName
  unfold structFactory Foreign.meant
  rw [Act.state_bind]
  cases hfirst : w.state.foreign.firstFound asked info.fullName with
  | some first =>
    obtain ⟨-, -, factory, hfactory⟩ := Foreign.of_firstFound hfirst
    -- What was found for an earlier struct of the name is found for this one as well.
    rw [hfirst, Option.bind_some, hfactory] at hget
    rw [hget]
    refine ⟨w, congrArg (EStateM.Result.ok · w) hfactory.symm, rfl, fun name => ?_⟩
    rw [h name, Foreign.firstFound_append_of_old (.inl (by rw [hfirst]; rfl))]
  | none =>
    rw [hfirst] at hget
    rw [hget]
    dsimp only [Option.getD_none]
    cases hfind : w.state.foreign.findFactory info with
    | error e =>
      -- A search that fails is not remembered.
      refine ⟨w, rfl, rfl, fun name => ?_⟩
      rw [h name, Foreign.firstFound_append_of_old (.inr (by rw [hfind]; rfl))]
    | ok factory =>
      refine ⟨_, rfl, rfl, fun name => ?_⟩
      show (w.state.bridge.factories.insert info.fullName factory).get? name = _
      rw [Table.get?_insert, Foreign.firstFound_append]
      by_cases hname : info.fullName = name
      · subst hname
        rw [if_pos rfl, hfirst, if_pos ⟨rfl, by rw [hfind]; rfl⟩]
        exact (congrArg Except.toOption hfind).symm
      · rw [if_neg hname, if_neg (fun hc => hname hc.1), Option.or_none, h name]

/-- After any requests more, each of them has been answered for the first struct of its name. -/
theorem structFactories_recall (h : w.state.Recalls w.state.foreign asked) (infos : List StructInfo) :
    ∃ answers v, infos.mapM structFactory call w = .ok answers v ∧
      v.state.foreign = w.state.foreign ∧ v.state.Recalls w.state.foreign (asked ++ infos) ∧
      answers.length = infos.length ∧
      ∀ i info, infos[i]? = some info → answers[i]? =
        some (w.state.foreign.findFactory (w.state.foreign.meant (asked ++ infos.take i) info)) := by
  induction infos generalizing asked w with
  | nil => exact ⟨[], w, rfl, rfl, by rwa [List.append_nil], rfl, fun i info hi => by cases hi⟩
  | cons first infos ih =>
    obtain ⟨u, hfirst, hforeign, hrecalls⟩ := structFactory_recalls call h first
    rw [← hforeign] at hrecalls
    obtain ⟨answers, v, hrest, hforeign', hrecalls', hlength, hanswers⟩ := ih hrecalls
    rw [hforeign] at hforeign' hrecalls' hanswers
    let answer := w.state.foreign.findFactory (w.state.foreign.meant asked first)
    refine ⟨answer :: answers, v, ?_, hforeign', ?_, congrArg Nat.succ hlength, fun i info hi => ?_⟩
    · rw [List.mapM_cons, Act.bind_of_ok hfirst, Act.bind_of_ok hrest]
      rfl
    · rwa [List.append_assoc] at hrecalls'
    · cases i with
      | zero =>
        cases hi
        rw [List.take_zero, List.append_nil]
        rfl
      | succ i =>
        have hanswer := hanswers i info hi
        rwa [List.append_assoc] at hanswer

/-- Once nothing is remembered, any requests for boxing methods are answered as their own look up says,
unless an earlier one was for a struct of that name in another assembly: if that has the methods, they
are the answer. -/
theorem boxing_by_name (hnew : w.state.bridge.factories = .empty) (infos : List StructInfo) :
    ∃ answers v, infos.mapM structFactory call w = .ok answers v ∧
      v.state.foreign = w.state.foreign ∧ answers.length = infos.length ∧
      ∀ i info, infos[i]? = some info → ∃ answer, answers[i]? = some answer ∧
        w.state.foreign.Boxes (w.state.foreign.meant (infos.take i) info) answer ∧
        ((∀ earlier ∈ infos.take i, earlier.fullName = info.fullName →
          earlier.assembly = info.assembly) → w.state.foreign.Boxes info answer) := by
  have hrecalls : w.state.Recalls w.state.foreign [] := fun name => by
    rw [hnew]
    rfl
  obtain ⟨answers, v, hrun, hforeign, -, hlength, hanswers⟩ :=
    structFactories_recall call hrecalls infos
  refine ⟨answers, v, hrun, hforeign, hlength, fun i info hi => ⟨_, hanswers i info hi, ?_, ?_⟩⟩
  · exact w.state.foreign.boxes_findFactory _
  · intro hsame
    rw [List.nil_append, Foreign.findFactory_meant hsame]
    exact w.state.foreign.boxes_findFactory info

end Engine

namespace Sample

/-- A struct of one name in the given assembly. -/
def vector (assembly : String) : StructInfo := ⟨"Game.Vector", assembly, ⟨12, 4⟩⟩

/-- The boxing methods of the struct in one assembly. -/
def boxing : List MethodInfo :=
  [⟨"Game", (vector "Game").boxKey, 2, 0⟩, ⟨"Game", (vector "Game").unboxKey, 3, 0⟩]

end Sample

namespace Engine

/-- `boxing_by_name` where the methods are missed first and found then. -/
theorem boxing_by_name_of_vector :
    ∃ answers v,
      [Sample.vector "Mods", Sample.vector "Game"].mapM structFactory (callAt 0)
        (Sample.world Sample.boxing []) = .ok answers v ∧
      (∃ answer, answers[0]? = some answer ∧
        (Sample.world Sample.boxing []).state.foreign.Boxes (Sample.vector "Mods") answer) ∧
      ∃ answer, answers[1]? = some answer ∧
        (Sample.world Sample.boxing []).state.foreign.Boxes (Sample.vector "Game") answer := by
  obtain ⟨answers, v, hrun, -, -, hanswers⟩ := boxing_by_name (callAt 0)
    (w := Sample.world Sample.boxing []) rfl [Sample.vector "Mods", Sample.vector "Game"]
  obtain ⟨missed, hmissed, -, hown⟩ := hanswers 0 _ rfl
  obtain ⟨found, hfound, hmeant, -⟩ := hanswers 1 _ rfl
  refine ⟨answers, v, hrun, ⟨missed, hmissed, hown fun _ hm => by cases hm⟩, found, hfound, ?_⟩
  have hgame : (Sample.world Sample.boxing []).state.foreign.meant [Sample.vector "Mods"]
      (Sample.vector "Game") = Sample.vector "Game" := by decide +kernel
  exact hgame ▸ hmeant

/-- A struct that its assembly has no methods for is given those of another assembly. -/
theorem boxed_by_another :
    ∃ factory v,
      [Sample.vector "Game", Sample.vector "Mods"].mapM structFactory (callAt 0)
        (Sample.world Sample.boxing []) = .ok [.ok factory, .ok factory] v ∧
      (Sample.world Sample.boxing []).state.foreign.findFactory (Sample.vector "Mods") =
        .error (.missingMethod "Mods" (Sample.vector "Mods").boxKey.render) ∧
      ¬(Sample.world Sample.boxing []).state.foreign.Boxes (Sample.vector "Mods") (.ok factory) := by
  refine ⟨_, _, rfl, rfl, ?_⟩
  intro h
  cases h with
  | both hbox => exact absurd hbox (by decide +kernel)

end Engine

end TwinHeap
