import Mathlib.Data.List.Forall2
import TwinHeap.Linkage

/-!
# Linkers — arguments are bound one after the other

What a linker does with one argument is said once (`Linker.bindArg_eq_ok_iff`,
`Linker.bindArg_eq_error_iff`). `Linker.Traces` is what the arguments bound so far have left behind:
one entry for each that is passed, regions that follow each other, a table that leads back from the
parameters to the entries, and the return value that came last. Each step keeps it, so it holds of
every linkage (`Linker.traces_of_link`).
-/

namespace TwinHeap

/-- What a registry resolves is what is registered for the tag. -/
theorem Registry.get?_of_resolve {registry : Registry} {p : Property} {m : Marshaller}
    (h : registry.resolve p = .ok m) : registry.get? p.kind.tag = some m := by
  unfold resolve at h
  split at h <;> cases h
  assumption

/-- Where the elements of two lists belong together one by one, each has a partner. -/
theorem partners_of_forall₂ {α β : Type} {R : α → β → Prop} {xs : List α} {ys : List β}
    (h : List.Forall₂ R xs ys) : (∀ x ∈ xs, ∃ y ∈ ys, R x y) ∧ ∀ y ∈ ys, ∃ x ∈ xs, R x y := by
  induction h with
  | nil => exact ⟨nofun, nofun⟩
  | cons hxy _ ih =>
    refine ⟨fun x hx => ?_, fun y hy => ?_⟩
    · obtain rfl | hx := List.mem_cons.1 hx
      · exact ⟨_, List.mem_cons_self, hxy⟩
      · obtain ⟨y, hy, hR⟩ := ih.1 x hx
        exact ⟨y, List.mem_cons_of_mem _ hy, hR⟩
    · obtain rfl | hy := List.mem_cons.1 hy
      · exact ⟨_, List.mem_cons_self, hxy⟩
      · obtain ⟨x, hx, hR⟩ := ih.2 y hy
        exact ⟨x, List.mem_cons_of_mem _ hx, hR⟩

/-! ## Names -/

/-- The first parameter called `name` is `p`, at index `i`. -/
structure Function.First (f : Function) (name : String) (i : Nat) (p : Property) : Prop where
  get : f.params[i]? = some p
  called : p.name = name
  first : ∀ j < i, ∀ q, f.params[j]? = some q → q.name ≠ name

namespace Function

variable {f : Function} {name : String} {i j : Nat} {p q : Property}

/-- There is only one first parameter of a name. -/
theorem First.unique (h : f.First name i p) (h' : f.First name j q) : i = j ∧ p = q := by
  have hij : i = j := by
    obtain hlt | heq | hlt := Nat.lt_trichotomy i j
    · exact absurd h.called (h'.first i hlt p h.get)
    · exact heq
    · exact absurd h'.called (h.first j hlt q h'.get)
  subst hij
  exact ⟨rfl, Option.some.inj (h.get.symm.trans h'.get)⟩

theorem First.lt (h : f.First name i p) : i < f.params.length :=
  (List.getElem?_eq_some_iff.1 h.get).1

theorem First.indexOf (h : f.First name i p) : f.indexOf name = some i := by
  refine List.findIdx?_eq_some_iff_getElem.2 ⟨h.lt, ?_, fun j hj => ?_⟩
  · rw [(List.getElem?_eq_some_iff.1 h.get).2]
    exact beq_iff_eq.2 h.called
  · have hlt := Nat.lt_trans hj h.lt
    simpa using h.first j hj _ (List.getElem?_eq_getElem hlt)

/-- The index that a name leads to is that of the first parameter so called. -/
theorem indexOf_eq_some_iff : f.indexOf name = some i ↔ ∃ p, f.First name i p := by
  refine ⟨fun h => ?_, fun ⟨p, h⟩ => h.indexOf⟩
  obtain ⟨hlt, hname, hfirst⟩ := List.findIdx?_eq_some_iff_getElem.1 h
  refine ⟨f.params[i], List.getElem?_eq_getElem hlt, beq_iff_eq.1 hname, fun j hj q hq => ?_⟩
  obtain ⟨hj', rfl⟩ := List.getElem?_eq_some_iff.1 hq
  simpa using hfirst j hj

theorem indexOf_eq_none_iff : f.indexOf name = none ↔ ∀ p ∈ f.params, p.name ≠ name := by
  unfold indexOf
  simp

/-- What a name leads to: the index of the first parameter so called, and this parameter. -/
theorem found_cases (f : Function) (name : String) :
    (f.indexOf name = none ∧ (∀ p ∈ f.params, p.name ≠ name)) ∨
      ∃ i p, f.First name i p ∧ f.indexOf name = some i ∧
        (f.params.find? fun p => p.name == name) = some p := by
  cases hi : f.indexOf name with
  | none => exact .inl ⟨rfl, indexOf_eq_none_iff.1 hi⟩
  | some i =>
    obtain ⟨p, hp⟩ := indexOf_eq_some_iff.1 hi
    refine .inr ⟨i, p, hp, rfl, ?_⟩
    rw [List.find?_eq_bind_findIdx?_getElem?]
    change (f.indexOf name).bind _ = _
    rw [hi]
    exact hp.get

end Function

namespace Linker

variable {registry : Registry} {function : Function} {method : ForeignMethod} {k k' : Linker}
  {arg : ForeignArg} {args : List ForeignArg} {e : LinkError} {i : Nat}

/-! ## One argument -/

/-- What is wrong with an argument where the parameters `taken` are bound already: the first of the
four things that can be. -/
inductive Offends (registry : Registry) (function : Function) (method : ForeignMethod)
    (taken : Nat → Prop) (arg : ForeignArg) : LinkError → Prop
  | missing (h : ∀ p ∈ function.params, p.name ≠ arg.name) :
    Offends registry function method taken arg
      (.missingParameter function.qualifiedName method.signature.render arg.name)
  | duplicate {i : Nat} {p : Property} (hp : function.First arg.name i p) (h : taken i) :
    Offends registry function method taken arg
      (.duplicateParameter function.qualifiedName arg.name)
  | unsupported {i : Nat} {p : Property} (hp : function.First arg.name i p) (hfree : ¬taken i)
    (h : registry.get? p.kind.tag = none) :
    Offends registry function method taken arg (.unsupportedKind p.name p.kind.tag)
  | mismatch {i : Nat} {p : Property} {m : Marshaller} (hp : function.First arg.name i p)
    (hfree : ¬taken i) (hm : registry.get? p.kind.tag = some m) (h : arg.isReturn ≠ p.isReturn) :
    Offends registry function method taken arg
      (.returnMismatch function.qualifiedName method.signature.render)

/-- What a linker has become when it has bound an argument. -/
inductive Step (registry : Registry) (function : Function) (k : Linker) (arg : ForeignArg) :
    Linker → Prop
  | result {i : Nat} {p : Property} {m : Marshaller} (hp : function.First arg.name i p)
    (hfree : k.binds i = false) (hm : registry.get? p.kind.tag = some m)
    (harg : arg.isReturn = true) (hret : p.isReturn = true) :
    Step registry function k arg (k.setResult i m)
  | passed {i : Nat} {p : Property} {m : Marshaller} (hp : function.First arg.name i p)
    (hfree : k.binds i = false) (hm : registry.get? p.kind.tag = some m)
    (harg : arg.isReturn = false) (hret : p.isReturn = false) :
    Step registry function k arg (k.addArg i m arg.byRef)

/-- What can become of an argument, case by case. -/
theorem bindArg_cases (registry : Registry) (function : Function) (method : ForeignMethod)
    (k : Linker) (arg : ForeignArg) :
    (∃ e, k.bindArg registry function method arg = .error e ∧
      Offends registry function method (fun i => k.binds i = true) arg e) ∨
    ∃ k', k.bindArg registry function method arg = .ok k' ∧ Step registry function k arg k' := by
  unfold bindArg
  obtain ⟨hi, hnone⟩ | ⟨i, p, hp, hi, hfind⟩ := function.found_cases arg.name
  · rw [hi]
    exact .inl ⟨_, rfl, .missing hnone⟩
  rw [hi, hfind]
  dsimp only
  cases hfree : k.binds i with
  | true => exact .inl ⟨_, rfl, .duplicate hp hfree⟩
  | false =>
    have hfree' : ¬k.binds i = true := Bool.eq_false_iff.1 hfree
    unfold Registry.resolve
    cases hm : registry.get? p.kind.tag with
    | none => exact .inl ⟨_, rfl, .unsupported hp hfree' hm⟩
    | some m =>
      cases harg : arg.isReturn <;> cases hret : p.isReturn
      · exact .inr ⟨_, rfl, .passed hp hfree hm harg hret⟩
      · exact .inl ⟨_, rfl, .mismatch hp hfree' hm (by rw [harg, hret]; decide)⟩
      · exact .inl ⟨_, rfl, .mismatch hp hfree' hm (by rw [harg, hret]; decide)⟩
      · exact .inr ⟨_, rfl, .result hp hfree hm harg hret⟩

/-- An argument whose name is found offends by what the parameter of that name is. -/
theorem Offends.cases_of_first {taken : Nat → Prop} (hp : function.First arg.name i p)
    (h : Offends registry function method taken arg e) :
    taken i ∧ e = .duplicateParameter function.qualifiedName arg.name ∨
    ¬taken i ∧ (registry.get? p.kind.tag = none ∧ e = .unsupportedKind p.name p.kind.tag ∨
      ∃ m, registry.get? p.kind.tag = some m ∧ arg.isReturn ≠ p.isReturn ∧
        e = .returnMismatch function.qualifiedName method.signature.render) := by
  cases h with
  | missing hnone => exact absurd hp.called (hnone p (List.mem_of_getElem? hp.get))
  | duplicate hq htaken =>
    obtain ⟨rfl, rfl⟩ := hp.unique hq
    exact .inl ⟨htaken, rfl⟩
  | unsupported hq hfree hnone =>
    obtain ⟨rfl, rfl⟩ := hp.unique hq
    exact .inr ⟨hfree, .inl ⟨hnone, rfl⟩⟩
  | mismatch hq hfree hm hne =>
    obtain ⟨rfl, rfl⟩ := hp.unique hq
    exact .inr ⟨hfree, .inr ⟨_, hm, hne, rfl⟩⟩

/-- An argument that can be bound has nothing wrong with it. -/
theorem Step.not_offends (h : Step registry function k arg k') (e : LinkError) :
    ¬Offends registry function method (fun i => k.binds i = true) arg e := by
  obtain ⟨i, p, m, hp, hfree, hm, hret⟩ : ∃ i p m, function.First arg.name i p ∧
      k.binds i = false ∧ registry.get? p.kind.tag = some m ∧ arg.isReturn = p.isReturn := by
    cases h with
    | result hp hfree hm harg hret => exact ⟨_, _, _, hp, hfree, hm, harg.trans hret.symm⟩
    | passed hp hfree hm harg hret => exact ⟨_, _, _, hp, hfree, hm, harg.trans hret.symm⟩
  intro ho
  obtain ⟨htaken, -⟩ | ⟨-, ⟨hnone, -⟩ | ⟨_, -, hne, -⟩⟩ := ho.cases_of_first hp
  · rw [hfree] at htaken
    cases htaken
  · cases hm.symm.trans hnone
  · exact hne hret

/-- The first thing that is wrong with an argument is only one. -/
theorem Offends.unique {taken : Nat → Prop} {e' : LinkError}
    (h : Offends registry function method taken arg e)
    (h' : Offends registry function method taken arg e') : e = e' := by
  by_cases hfound : ∃ i p, function.First arg.name i p
  · obtain ⟨i, p, hp⟩ := hfound
    obtain ⟨htaken, rfl⟩ | ⟨hfree, h⟩ := h.cases_of_first hp <;>
      obtain ⟨htaken', rfl⟩ | ⟨hfree', h'⟩ := h'.cases_of_first hp
    · rfl
    · exact absurd htaken hfree'
    · exact absurd htaken' hfree
    · obtain ⟨hnone, rfl⟩ | ⟨m, hm, -, rfl⟩ := h <;> obtain ⟨hnone', rfl⟩ | ⟨m', hm', -, rfl⟩ := h'
      · rfl
      · cases hnone.symm.trans hm'
      · cases hm.symm.trans hnone'
      · rfl
  · -- Only the first kind of offence can do without such a parameter.
    cases h with
    | missing =>
      cases h' with
      | missing => rfl
      | duplicate hp | unsupported hp | mismatch hp => exact absurd ⟨_, _, hp⟩ hfound
    | duplicate hp | unsupported hp | mismatch hp => exact absurd ⟨_, _, hp⟩ hfound

/-- Which error a linker comes to, if any, depends on which parameters it takes for bound. -/
theorem Offends.congr {taken taken' : Nat → Prop} (htaken : ∀ i, taken i ↔ taken' i) :
    Offends registry function method taken arg e ↔
      Offends registry function method taken' arg e := by
  rw [funext fun i => propext (htaken i)]

theorem bindArg_eq_error_iff : k.bindArg registry function method arg = .error e ↔
    Offends registry function method (fun i => k.binds i = true) arg e := by
  obtain ⟨e', he, ho⟩ | ⟨k', hk, hs⟩ := bindArg_cases registry function method k arg
  · rw [he, Except.error.injEq]
    exact ⟨fun h => h ▸ ho, ho.unique⟩
  · rw [hk]
    exact ⟨nofun, fun ho => absurd ho (hs.not_offends e)⟩

theorem bindArg_eq_ok (h : k.bindArg registry function method arg = .ok k') :
    Step registry function k arg k' := by
  obtain ⟨e, he, -⟩ | ⟨_, hk, hs⟩ := bindArg_cases registry function method k arg
  · cases he.symm.trans h
  · cases hk.symm.trans h
    exact hs

end Linker

/-! ## What was bound -/

/-- The region of an argument covers this octet of the scratch memory. -/
def LinkedArg.Covers (a : LinkedArg) (b : Nat) : Prop :=
  a.scratchOffset ≤ b ∧ b < a.scratchOffset + a.marshaller.slotSize

namespace Linkage

/-- A foreign argument is bound to the first parameter of its name. -/
structure Binds (registry : Registry) (function : Function) (arg : ForeignArg) (a : LinkedArg) :
    Prop where
  index : function.indexOf arg.name = some a.param
  byRef : a.byRef = arg.byRef
  property : ∃ p, function.params[a.param]? = some p ∧ p.isReturn = false ∧
    registry.resolve p = .ok a.marshaller

/-- A return value is bound to the first parameter of its name, which is a return value, too. -/
structure BindsReturn (registry : Registry) (function : Function) (arg : ForeignArg)
    (ret : LinkedReturn) : Prop where
  isReturn : arg.isReturn = true
  property : ∃ p, function.First arg.name ret.param p ∧ p.isReturn = true ∧
    registry.get? p.kind.tag = some ret.marshaller

/-- The regions of the arguments follow each other from `start` to `stop`. -/
def Tiles (start : Nat) : List LinkedArg → Nat → Prop
  | [], stop => start = stop
  | a :: as, stop => a.scratchOffset = start ∧ Tiles (start + a.marshaller.slotSize) as stop

namespace Tiles

variable {start stop : Nat} {as : List LinkedArg} {a : LinkedArg}

theorem le (h : Tiles start as stop) : start ≤ stop := by
  induction as generalizing start with
  | nil => exact Nat.le_of_eq h
  | cons a as ih => exact Nat.le_trans (Nat.le_add_right _ _) (ih h.2)

/-- One more region begins where the last one ends. -/
theorem append (h : Tiles start as stop) (ha : a.scratchOffset = stop) :
    Tiles start (as ++ [a]) (stop + a.marshaller.slotSize) := by
  induction as generalizing start with
  | nil =>
    cases h
    exact ⟨ha, rfl⟩
  | cons b as ih => exact ⟨h.1, ih h.2⟩

/-- The regions end where the sizes of all regions take them. -/
theorem foldl_eq (h : Tiles start as stop) :
    as.foldl (fun size a => size + a.marshaller.slotSize) start = stop := by
  induction as generalizing start with
  | nil => exact h
  | cons a as ih => exact ih h.2

theorem within (h : Tiles start as stop) (ha : a ∈ as) :
    start ≤ a.scratchOffset ∧ a.scratchOffset + a.marshaller.slotSize ≤ stop := by
  induction as generalizing start with
  | nil => cases ha
  | cons b as ih =>
    obtain ⟨hb, hrest⟩ := h
    obtain rfl | ha := List.mem_cons.1 ha
    · exact ⟨Nat.le_of_eq hb.symm, hb ▸ hrest.le⟩
    · obtain ⟨hstart, hstop⟩ := ih hrest ha
      exact ⟨Nat.le_trans (Nat.le_add_right _ _) hstart, hstop⟩

/-- Each region ends before the next one begins. -/
theorem apart (h : Tiles start as stop) :
    as.Pairwise fun a b => a.scratchOffset + a.marshaller.slotSize ≤ b.scratchOffset := by
  induction as generalizing start with
  | nil => exact .nil
  | cons a as ih =>
    obtain ⟨ha, hrest⟩ := h
    exact .cons (fun b hb => ha ▸ (hrest.within hb).1) (ih hrest)

/-- There are no gaps between the regions. -/
theorem covers_iff (h : Tiles start as stop) (b : Nat) :
    (start ≤ b ∧ b < stop) ↔ ∃ a ∈ as, a.Covers b := by
  refine ⟨fun hb => ?_, fun ⟨a, ha, hstart, hstop⟩ => ?_⟩
  · induction as generalizing start with
    | nil =>
      cases h
      omega
    | cons a as ih =>
      obtain ⟨ha, hrest⟩ := h
      by_cases hlt : b < start + a.marshaller.slotSize
      · exact ⟨a, List.mem_cons_self, ha ▸ hb.1, ha ▸ hlt⟩
      · obtain ⟨a', ha', hcovers⟩ := ih hrest ⟨Nat.le_of_not_lt hlt, hb.2⟩
        exact ⟨a', List.mem_cons_of_mem _ ha', hcovers⟩
  · have hwithin := h.within ha
    omega

/-- Where the first region begins at a whole word, all of them do. -/
theorem aligned (h : Tiles start as stop) (hstart : addressSize ∣ start) (ha : a ∈ as) :
    addressSize ∣ a.scratchOffset := by
  induction as generalizing start with
  | nil => cases ha
  | cons b as ih =>
    obtain ⟨hb, hrest⟩ := h
    obtain rfl | ha := List.mem_cons.1 ha
    · exact hb ▸ hstart
    · have hslot : addressSize ∣ b.marshaller.slotSize := by cases b.marshaller <;> decide
      exact ih hrest (Nat.dvd_add hstart hslot) ha

end Tiles

end Linkage

/-- The return value that a method declares last. -/
def lastReturn (args : List ForeignArg) : Option ForeignArg :=
  (args.filter ForeignArg.isReturn).getLast?

theorem lastReturn_concat (args : List ForeignArg) (arg : ForeignArg) :
    lastReturn (args ++ [arg]) = if arg.isReturn then some arg else lastReturn args := by
  unfold lastReturn
  cases harg : arg.isReturn <;> simp [harg]

namespace Linker

open Linkage

variable {registry : Registry} {function : Function} {method : ForeignMethod} {k k' : Linker}
  {arg : ForeignArg} {args : List ForeignArg} {i n : Nat}

/-- What is left of the arguments that a linker has bound. -/
structure Traces (registry : Registry) (function : Function) (args : List ForeignArg) (k : Linker) :
    Prop where
  passed : List.Forall₂ (Binds registry function) (args.filter fun a => !a.isReturn) k.linkage.args
  result : Option.Rel (BindsReturn registry function) (lastReturn args) k.linkage.result
  /-- Each was found, and is a return value if what was found is one. -/
  agrees : ∀ arg ∈ args, ∃ i p, function.First arg.name i p ∧ arg.isReturn = p.isReturn
  distinct : (k.linkage.args.map LinkedArg.param).Nodup
  tiles : Tiles 0 k.linkage.args k.scratchSize
  length : k.positions.length = function.params.length
  position : ∀ i n, k.position i = some n ↔ ∃ a, k.linkage.args[n]? = some a ∧ a.param = i

theorem traces_start (registry : Registry) (function : Function) :
    Traces registry function [] (start function) where
  passed := .nil
  result := .none
  agrees := nofun
  distinct := .nil
  tiles := rfl
  length := List.length_replicate
  position i n := by
    refine ⟨fun h => ?_, nofun⟩
    unfold position start at h
    rw [List.getElem?_replicate] at h
    split at h <;> cases h

/-- A parameter that is free has no argument bound to it, and is not what is returned. -/
theorem free_iff (k : Linker) (i : Nat) : k.binds i = false ↔
    k.position i = none ∧ ∀ ret, k.linkage.result = some ret → ret.param ≠ i := by
  unfold binds
  rw [Bool.or_eq_false_iff, Option.isSome_eq_false_iff, Option.isNone_iff_eq_none]
  refine and_congr_right fun _ => ?_
  cases k.linkage.result <;> simp

/-- The position of an argument that was just bound is the last one. -/
theorem position_addArg (hi : i < k.positions.length) (m : Marshaller) (byRef : Bool) (j : Nat) :
    (k.addArg i m byRef).position j =
      if i = j then some k.linkage.args.length else k.position j := by
  unfold position addArg
  dsimp only
  rw [List.getElem?_set]
  split <;> rfl

/-- No argument is bound to a parameter that is free. -/
theorem Traces.param_ne_of_free (h : Traces registry function args k) (hfree : k.binds i = false) :
    ∀ a ∈ k.linkage.args, a.param ≠ i := by
  obtain ⟨hnone, -⟩ := (free_iff k i).1 hfree
  rintro a ha rfl
  obtain ⟨n, hn⟩ := List.mem_iff_getElem?.1 ha
  rw [(h.position _ n).2 ⟨a, hn, rfl⟩] at hnone
  cases hnone

/-- The table still leads back when an argument was added for a parameter that was free. -/
theorem Traces.position_addArg_iff (h : Traces registry function args k)
    (hi : i < function.params.length) (hfree : k.binds i = false) (m : Marshaller) (byRef : Bool)
    (j n : Nat) : (k.addArg i m byRef).position j = some n ↔
      ∃ a, (k.addArg i m byRef).linkage.args[n]? = some a ∧ a.param = j := by
  have hother := h.param_ne_of_free hfree
  rw [position_addArg (h.length ▸ hi)]
  show _ ↔ ∃ a, (k.linkage.args ++ [_])[n]? = some a ∧ a.param = j
  by_cases hj : i = j
  · -- The new argument is the only one that is bound to the parameter.
    subst hj
    rw [if_pos rfl, Option.some.injEq]
    refine ⟨?_, fun ⟨a, ha, hparam⟩ => ?_⟩
    · rintro rfl
      exact ⟨_, List.getElem?_concat_length, rfl⟩
    · obtain hlt | hge := Nat.lt_or_ge n k.linkage.args.length
      · rw [List.getElem?_append_left hlt] at ha
        exact absurd hparam (hother a (List.mem_of_getElem? ha))
      · have hlt := (List.getElem?_eq_some_iff.1 ha).1
        rw [List.length_append] at hlt
        exact Nat.le_antisymm hge (Nat.le_of_lt_succ hlt)
  · rw [if_neg hj, h.position]
    refine exists_congr fun a => and_congr_left fun hparam => ?_
    obtain hlt | hge := Nat.lt_or_ge n k.linkage.args.length
    · rw [List.getElem?_append_left hlt]
    · rw [List.getElem?_eq_none hge, List.getElem?_append_right hge]
      refine ⟨nofun, fun ha => absurd hparam ?_⟩
      obtain rfl := List.mem_singleton.1 (List.mem_of_getElem? ha)
      exact hj

/-- A step adds what it binds to the traces. -/
theorem Traces.step (h : Traces registry function args k) (hs : Step registry function k arg k') :
    Traces registry function (args ++ [arg]) k' := by
  have hagrees {i : Nat} {p : Property} (hp : function.First arg.name i p)
      (hret : arg.isReturn = p.isReturn) : ∀ a ∈ args ++ [arg], ∃ i p,
        function.First a.name i p ∧ a.isReturn = p.isReturn := by
    intro a ha
    obtain ha | ha := List.mem_append.1 ha
    · exact h.agrees a ha
    · obtain rfl := List.mem_singleton.1 ha
      exact ⟨i, p, hp, hret⟩
  cases hs with
  | @result i p m hp hfree hm harg hret =>
    refine { h with passed := ?_, result := ?_, agrees := hagrees hp (harg.trans hret.symm) }
    · rw [List.filter_append, List.filter_cons_of_neg (by simp [harg]), List.filter_nil,
        List.append_nil]
      exact h.passed
    · -- The last argument is a return value, so it is the one that counts.
      rw [lastReturn_concat, if_pos harg]
      exact .some ⟨harg, p, hp, hret, hm⟩
  | @passed i p m hp hfree hm harg hret =>
    refine ⟨?_, ?_, hagrees hp (harg.trans hret.symm), ?_, h.tiles.append rfl,
      List.length_set.trans h.length, h.position_addArg_iff hp.lt hfree m arg.byRef⟩
    · rw [List.filter_append, List.filter_cons_of_pos (by simp [harg])]
      refine List.rel_append h.passed (.cons ⟨hp.indexOf, rfl, p, hp.get, hret, ?_⟩ .nil)
      unfold Registry.resolve
      rw [hm]
    · rw [lastReturn_concat, if_neg (by simp [harg])]
      exact h.result
    · show ((k.linkage.args ++ [_]).map LinkedArg.param).Nodup
      rw [List.map_append, List.nodup_append]
      refine ⟨h.distinct, List.pairwise_singleton _ _, fun j hj j' hj' => ?_⟩
      obtain ⟨a, ha, rfl⟩ := List.mem_map.1 hj
      obtain rfl := List.mem_singleton.1 hj'
      exact h.param_ne_of_free hfree a ha

/-- The traces of the arguments before and of those that are bound now. -/
theorem Traces.foldlM {rest : List ForeignArg} (h : Traces registry function args k)
    (hrest : rest.foldlM (bindArg registry function method) k = .ok k') :
    Traces registry function (args ++ rest) k' := by
  induction rest generalizing args k with
  | nil =>
    cases hrest
    rwa [List.append_nil]
  | cons arg rest ih =>
    rw [List.foldlM_cons] at hrest
    cases hb : k.bindArg registry function method arg with
    | error e => rw [hb] at hrest; cases hrest
    | ok k₁ =>
      rw [hb] at hrest
      rw [List.append_cons]
      exact ih (h.step (bindArg_eq_ok hb)) hrest

theorem traces_of_foldlM (args : List ForeignArg) (k : Linker)
    (h : args.foldlM (bindArg registry function method) (start function) = .ok k) :
    Traces registry function args k :=
  (traces_start registry function).foldlM h

theorem traces_of_link (h : link registry function method = .ok k) :
    Traces registry function method.args k :=
  traces_of_foldlM method.args k h

/-- The result goes to what was declared last as the return value. -/
theorem Traces.of_result (h : Traces registry function args k) {ret : LinkedReturn}
    (hret : k.linkage.result = some ret) :
    ∃ arg, lastReturn args = some arg ∧ BindsReturn registry function arg ret := by
  have hresult := h.result
  rw [hret] at hresult
  generalize lastReturn args = last at hresult ⊢
  cases hresult with
  | some hbinds => exact ⟨_, rfl, hbinds⟩

theorem Traces.of_lastReturn (h : Traces registry function args k)
    (hlast : lastReturn args = some arg) :
    ∃ ret, k.linkage.result = some ret ∧ BindsReturn registry function arg ret := by
  have hresult := h.result
  rw [hlast] at hresult
  generalize k.linkage.result = result at hresult ⊢
  cases hresult with
  | some hbinds => exact ⟨_, rfl, hbinds⟩

/-- What is bound leads to a parameter of the function that is not its return value. -/
theorem Traces.param_of_mem (h : Traces registry function args k) {a : LinkedArg}
    (ha : a ∈ k.linkage.args) :
    ∃ p, function.params[a.param]? = some p ∧ p.isReturn = false := by
  obtain ⟨_, -, hbinds⟩ := (partners_of_forall₂ h.passed).2 a ha
  obtain ⟨p, hp, hret, -⟩ := hbinds.property
  exact ⟨p, hp, hret⟩

/-- Nothing is passed for the parameter that the result goes to. -/
theorem Traces.param_ne_result (h : Traces registry function args k) {ret : LinkedReturn}
    (hret : k.linkage.result = some ret) : ∀ a ∈ k.linkage.args, a.param ≠ ret.param := by
  intro a ha hparam
  obtain ⟨p, hp, hplain⟩ := h.param_of_mem ha
  obtain ⟨_, -, hbinds⟩ := h.of_result hret
  obtain ⟨q, hq, hqret, -⟩ := hbinds.property
  rw [hparam, hq.get] at hp
  cases hp
  cases hplain.symm.trans hqret

/-- The table leads from a parameter to the argument that is bound to it. -/
theorem Traces.forParam_eq_some_iff (h : Traces registry function args k) {a : LinkedArg} :
    k.forParam i = some a ↔ a ∈ k.linkage.args ∧ a.param = i := by
  unfold forParam
  rw [Option.bind_eq_some_iff]
  constructor
  · rintro ⟨n, hn, ha⟩
    obtain ⟨a', ha', hparam⟩ := (h.position i n).1 hn
    cases ha.symm.trans ha'
    exact ⟨List.mem_of_getElem? ha, hparam⟩
  · rintro ⟨ha, hparam⟩
    obtain ⟨n, hn⟩ := List.mem_iff_getElem?.1 ha
    exact ⟨n, (h.position i n).2 ⟨a, hn, hparam⟩, hn⟩

theorem Traces.forParam_eq_none_iff (h : Traces registry function args k) :
    k.forParam i = none ↔ ∀ a ∈ k.linkage.args, a.param ≠ i := by
  refine ⟨fun hnone a ha hparam => ?_, fun hnone => ?_⟩
  · rw [h.forParam_eq_some_iff.2 ⟨ha, hparam⟩] at hnone
    cases hnone
  · cases hk : k.forParam i with
    | none => rfl
    | some a =>
      obtain ⟨ha, hparam⟩ := h.forParam_eq_some_iff.1 hk
      exact absurd hparam (hnone a ha)

/-- The linkage alone leads to the same arguments. -/
theorem Traces.forParam_linkage (h : Traces registry function args k) (i : Nat) :
    k.linkage.forParam i = k.forParam i := by
  cases hk : k.forParam i with
  | none =>
    refine List.find?_eq_none.2 fun a ha => ?_
    simpa using h.forParam_eq_none_iff.1 hk a ha
  | some a =>
    obtain ⟨ha, rfl⟩ := h.forParam_eq_some_iff.1 hk
    cases hfind : k.linkage.forParam a.param with
    | none =>
      have hne := List.find?_eq_none.1 hfind a ha
      simp at hne
    | some b =>
      have hb := List.mem_of_find?_eq_some hfind
      have hparam := List.find?_some hfind
      rw [← h.forParam_eq_some_iff.2 ⟨hb, beq_iff_eq.1 hparam⟩, hk]

end Linker

namespace Linkage

/-- The linkage binds these foreign arguments, each with a parameter and a region of its own. -/
structure Matches (registry : Registry) (function : Function) (args : List ForeignArg)
    (l : Linkage) : Prop where
  args : List.Forall₂ (Binds registry function) (args.filter fun a => !a.isReturn) l.args
  apart : l.args.Pairwise fun a b =>
    a.param ≠ b.param ∧ a.scratchOffset + a.marshaller.slotSize ≤ b.scratchOffset
  within : ∀ a ∈ l.args, a.scratchOffset + a.marshaller.slotSize ≤ l.scratchSize
  result : ∀ ret, l.result = some ret → ∃ p, function.params[ret.param]? = some p ∧
    registry.resolve p = .ok ret.marshaller

variable {registry : Registry} {function : Function} {method : ForeignMethod} {l : Linkage}
  {args : List ForeignArg}

/-- A linkage is what a linker has made. -/
theorem exists_linker (h : link registry function method = .ok l) :
    ∃ k, Linker.link registry function method = .ok k ∧ k.linkage = l := by
  unfold link at h
  cases hk : Linker.link registry function method with
  | error e => rw [hk] at h; cases h
  | ok k =>
    rw [hk] at h
    cases h
    exact ⟨k, rfl, rfl⟩

/-- A successful link binds every argument of the method. -/
theorem matches_of_link (h : link registry function method = .ok l) :
    Matches registry function method.args l := by
  obtain ⟨k, hk, rfl⟩ := exists_linker h
  have htraces := Linker.traces_of_link hk
  refine ⟨htraces.passed, ?_, fun a ha => ?_, fun ret hret => ?_⟩
  · exact (List.pairwise_map.1 htraces.distinct).and htraces.tiles.apart
  · have hstop : k.linkage.scratchSize = k.scratchSize := htraces.tiles.foldl_eq
    exact hstop ▸ (htraces.tiles.within ha).2
  · obtain ⟨arg, -, hbinds⟩ := htraces.of_result hret
    obtain ⟨p, hp, -, hm⟩ := hbinds.property
    refine ⟨p, hp.get, ?_⟩
    unfold Registry.resolve
    rw [hm]

namespace Matches

/-- As many arguments are passed as the method takes. -/
theorem length_args (h : Matches registry function method.args l) :
    l.args.length = method.parameterCount :=
  h.args.length_eq.symm

/-- What is bound was bound for an argument of the method. -/
theorem exists_binds (h : Matches registry function args l) {a : LinkedArg} (ha : a ∈ l.args) :
    ∃ arg, Binds registry function arg a := by
  obtain ⟨arg, -, hbinds⟩ := (partners_of_forall₂ h.args).2 a ha
  exact ⟨arg, hbinds⟩

/-- The argument that is bound to a parameter is the only one. -/
theorem forParam_eq (h : Matches registry function args l) {a : LinkedArg} (ha : a ∈ l.args) :
    l.forParam a.param = some a := by
  have hfind {as : List LinkedArg} (hapart : as.Pairwise fun a b => a.param ≠ b.param)
      (ha : a ∈ as) : (as.find? fun b => b.param == a.param) = some a := by
    induction as with
    | nil => cases ha
    | cons b as ih =>
      obtain ⟨hb, hrest⟩ := List.pairwise_cons.1 hapart
      obtain rfl | ha := List.mem_cons.1 ha
      · simp
      · rw [List.find?_cons_of_neg (by simpa using hb a ha)]
        exact ih hrest ha
  exact hfind (h.apart.imp fun h => h.1) ha

end Matches

end Linkage

/-! ## Every linkage -/

open Linkage in
/-- What linking a function makes, if it succeeds. The arguments that are passed are bound in their
order, each to the first parameter of its name, with the marshaller of its kind. Their regions lie one
after the other, at whole words, and leave no gap. The table leads from each parameter to the argument
that is bound to it and from all others nowhere; so does the linkage, without the table. -/
theorem Linker.well_linked {registry : Registry} {function : Function} {method : ForeignMethod}
    {k : Linker} (h : Linker.link registry function method = .ok k) :
    (k.linkage.args.length = method.parameterCount ∧
      List.Forall₂ (fun (arg : ForeignArg) (a : LinkedArg) => a.byRef = arg.byRef ∧
          ∃ p, function.First arg.name a.param p ∧ registry.get? p.kind.tag = some a.marshaller)
        (method.args.filter fun arg => !arg.isReturn) k.linkage.args) ∧
    ((∀ a ∈ k.linkage.args, addressSize ∣ a.scratchOffset) ∧
      (k.linkage.args.Pairwise fun a b =>
        a.scratchOffset + a.marshaller.slotSize ≤ b.scratchOffset) ∧
      ∀ b, b < k.scratchSize ↔ ∃ a ∈ k.linkage.args, a.Covers b) ∧
    ((k.linkage.args.map LinkedArg.param).Nodup ∧
      ∀ i, (∀ a, k.forParam i = some a ↔ a ∈ k.linkage.args ∧ a.param = i) ∧
        (k.forParam i = none ↔ ∀ a ∈ k.linkage.args, a.param ≠ i) ∧
        (function.params.length ≤ i → k.forParam i = none) ∧
        ∀ p, function.params[i]? = some p → p.isReturn = true → k.forParam i = none) ∧
    Linkage.link registry function method = .ok k.linkage ∧ k.linkage.scratchSize = k.scratchSize ∧
      ∀ i, k.linkage.forParam i = k.forParam i := by
  have htraces := traces_of_link h
  have hcovers (b : Nat) : b < k.scratchSize ↔ ∃ a ∈ k.linkage.args, a.Covers b := by
    rw [← htraces.tiles.covers_iff b]
    simp
  have hlinked : Linkage.link registry function method = .ok k.linkage := by
    unfold Linkage.link
    rw [h]
    rfl
  refine ⟨⟨htraces.passed.length_eq.symm, htraces.passed.imp fun arg a hbinds => ?_⟩,
    ⟨fun a => htraces.tiles.aligned (Nat.dvd_zero _), htraces.tiles.apart, hcovers⟩,
    ⟨htraces.distinct, fun i => ⟨fun a => htraces.forParam_eq_some_iff, htraces.forParam_eq_none_iff,
      fun hi => htraces.forParam_eq_none_iff.2 ?_,
      fun p hp hret => htraces.forParam_eq_none_iff.2 ?_⟩⟩,
    hlinked, htraces.tiles.foldl_eq, htraces.forParam_linkage⟩
  · obtain ⟨p, hp⟩ := Function.indexOf_eq_some_iff.1 hbinds.index
    obtain ⟨q, hq, -, hm⟩ := hbinds.property
    obtain rfl := Option.some.inj (hp.get.symm.trans hq)
    exact ⟨hbinds.byRef, p, hp, Registry.get?_of_resolve hm⟩
  · rintro a ha rfl
    obtain ⟨p, hp, -⟩ := htraces.param_of_mem ha
    exact absurd (List.getElem?_eq_some_iff.1 hp).1 (Nat.not_lt_of_le hi)
  · rintro a ha rfl
    obtain ⟨q, hq, hplain⟩ := htraces.param_of_mem ha
    obtain rfl := Option.some.inj (hp.symm.trans hq)
    rw [hret] at hplain
    cases hplain

namespace Sample

/-- A function whose method declares its parameters in another order, behind what it returns. -/
def spawn : Function :=
  ⟨"Spawner", "Spawn", ⟨true, true, true, false⟩,
    [⟨"Tag", .name, 12, 4, 0, ⟨true, false, false, false, false⟩⟩,
      ⟨"Count", .scalar .int32, 4, 4, 12, ⟨true, true, false, true, false⟩⟩,
      ⟨returnName, .scalar .int32, 4, 4, 16, ⟨true, true, true, false, false⟩⟩], ⟨20, 4⟩⟩

def spawnMethod : ForeignMethod :=
  ⟨"G", ⟨"", "Spawner", "Spawn", some ["int&", "Name"]⟩,
    [⟨returnName, false, true⟩, ⟨"Count", true, false⟩, ⟨"Tag", false, false⟩]⟩

def spawnLinker : Linker :=
  ⟨⟨[⟨1, .scalar, true, 0⟩, ⟨0, .name, false, 8⟩], some ⟨2, .scalar⟩⟩, [some 1, some 0, none], 24⟩

end Sample

/-- `Linker.well_linked` for a function whose method takes the parameters in another order. -/
theorem Linker.well_linked_of_spawn :
    Linker.link .default Sample.spawn Sample.spawnMethod = .ok Sample.spawnLinker ∧
      (Sample.spawnLinker.linkage.args.map LinkedArg.param).Nodup ∧
      (∀ b, b < 24 ↔ ∃ a ∈ Sample.spawnLinker.linkage.args, a.Covers b) ∧
      Sample.spawnLinker.linkage.forParam 0 = some ⟨0, .name, false, 8⟩ ∧
      Sample.spawnLinker.linkage.forParam 2 = none := by
  have hlink : Linker.link .default Sample.spawn Sample.spawnMethod = .ok Sample.spawnLinker := by
    decide +kernel
  obtain ⟨-, ⟨-, -, hcovers⟩, ⟨hdistinct, hparam⟩, -, -, hsame⟩ := Linker.well_linked hlink
  obtain ⟨hbound, -, -, -⟩ := hparam 0
  obtain ⟨-, -, -, hreturn⟩ := hparam 2
  refine ⟨hlink, hdistinct, hcovers, ?_, ?_⟩
  · exact (hsame 0).trans ((hbound _).2 ⟨by decide, rfl⟩)
  · exact (hsame 2).trans (hreturn _ rfl rfl)

end TwinHeap
