import Mathlib.Data.List.Induction
import TwinHeap.Proofs.Decided
import TwinHeap.Proofs.Linker

/-!
# Offences — what is in the way of linking

A linker remembers only the return value that was declared last. So a parameter is taken
(`Function.Taken`) by the arguments that are passed and by that one; where a function has one return
value at most, by all arguments that were met before (`Function.Met`). `returned_again` says what may
be bound more than once, `first_offence` which arguments can be linked and what is reported if they
cannot.
-/

namespace TwinHeap

variable {σ : Type}

/-! ## Parameters that are taken -/

namespace Function

variable {f : Function} {args : List ForeignArg} {i j : Nat} {p q : Property}

/-- No two parameters are return values. -/
def OneReturn (f : Function) : Prop :=
  f.params.Pairwise fun p q => p.isReturn = true → q.isReturn = false

instance : Decidable f.OneReturn := inferInstanceAs (Decidable (List.Pairwise _ _))

theorem OneReturn.eq (h : f.OneReturn) (hp : f.params[i]? = some p) (hq : f.params[j]? = some q)
    (hpr : p.isReturn = true) (hqr : q.isReturn = true) : i = j := by
  have hlt {i j : Nat} {p q : Property} (hp : f.params[i]? = some p) (hq : f.params[j]? = some q)
      (hpr : p.isReturn = true) (hqr : q.isReturn = true) : ¬i < j := by
    intro hij
    obtain ⟨hi, rfl⟩ := List.getElem?_eq_some_iff.1 hp
    obtain ⟨hj, rfl⟩ := List.getElem?_eq_some_iff.1 hq
    have hne := List.pairwise_iff_getElem.1 h i j hi hj hij hpr
    rw [hqr] at hne
    cases hne
  exact Nat.le_antisymm (Nat.le_of_not_lt (hlt hq hp hqr hpr)) (Nat.le_of_not_lt (hlt hp hq hpr hqr))

/-- One of the arguments leads to the parameter at `i`. -/
def Met (f : Function) (args : List ForeignArg) (i : Nat) : Prop :=
  ∃ arg ∈ args, ∃ p, f.First arg.name i p

/-- One of the arguments takes the parameter at `i`: one that is passed, or the last of those that
are return values. -/
def Taken (f : Function) (args : List ForeignArg) (i : Nat) : Prop :=
  (∃ arg ∈ args, arg.isReturn = false ∧ ∃ p, f.First arg.name i p) ∨
    ∃ arg, lastReturn args = some arg ∧ ∃ p, f.First arg.name i p

end Function

theorem mem_of_lastReturn {args : List ForeignArg} {arg : ForeignArg}
    (h : lastReturn args = some arg) : arg ∈ args ∧ arg.isReturn = true :=
  List.mem_filter.1 (List.mem_of_getLast? h)

/-- Where a return value is declared, one is declared last. -/
theorem exists_lastReturn {args : List ForeignArg} {arg : ForeignArg} (ha : arg ∈ args)
    (hret : arg.isReturn = true) : ∃ last, lastReturn args = some last := by
  unfold lastReturn
  cases hlast : (args.filter ForeignArg.isReturn).getLast? with
  | some last => exact ⟨last, rfl⟩
  | none =>
    have hmem := List.mem_filter.2 ⟨ha, hret⟩
    rw [List.getLast?_eq_none_iff.1 hlast] at hmem
    cases hmem

/-- The return value that is declared last is the given one, or is declared behind it. -/
theorem lastReturn_append_cons (front between : List ForeignArg) {arg : ForeignArg}
    (hret : arg.isReturn = true) : ∃ last, lastReturn (front ++ arg :: between) = some last ∧
      (last = arg ∨ last ∈ between) := by
  unfold lastReturn
  rw [List.filter_append, List.filter_cons_of_pos hret, List.getLast?_append, List.getLast?_cons]
  refine ⟨_, rfl, ?_⟩
  cases hlast : (between.filter ForeignArg.isReturn).getLast? with
  | none => exact .inl rfl
  | some last => exact .inr (List.mem_filter.1 (List.mem_of_getLast? hlast)).1

namespace Linker

open Linkage

variable {registry : Registry} {function : Function} {method : ForeignMethod} {k k' : Linker}
  {arg : ForeignArg} {args : List ForeignArg} {e : LinkError} {i : Nat}

/-- There is a place for the result if a return value was declared. -/
theorem Traces.isSome_result_iff (h : Traces registry function args k) :
    k.linkage.result.isSome = true ↔ ∃ arg ∈ args, arg.isReturn = true := by
  constructor
  · intro hsome
    obtain ⟨ret, hret⟩ := Option.isSome_iff_exists.1 hsome
    obtain ⟨arg, hlast, -⟩ := h.of_result hret
    exact ⟨arg, mem_of_lastReturn hlast⟩
  · rintro ⟨arg, harg, hret⟩
    obtain ⟨last, hlast⟩ := exists_lastReturn harg hret
    obtain ⟨ret, hret, -⟩ := h.of_lastReturn hlast
    exact Option.isSome_iff_exists.2 ⟨ret, hret⟩

/-- What a linker has bound is what its arguments have taken. -/
theorem Traces.binds_iff (h : Traces registry function args k) :
    k.binds i = true ↔ function.Taken args i := by
  rw [← Bool.not_eq_false, free_iff, ← not_iff_not, Classical.not_not]
  -- The table leads to what is passed; the result is kept apart from it.
  constructor
  · rintro ⟨hnone, hresult⟩ (⟨arg, harg, hplain, p, hp⟩ | ⟨arg, hlast, p, hp⟩)
    · obtain ⟨a, ha, hbinds⟩ := (partners_of_forall₂ h.passed).1 arg
        (List.mem_filter.2 ⟨harg, by rw [hplain]; rfl⟩)
      obtain ⟨n, hn⟩ := List.mem_iff_getElem?.1 ha
      have hparam : a.param = i := Option.some.inj (hbinds.index.symm.trans hp.indexOf)
      rw [(h.position i n).2 ⟨a, hn, hparam⟩] at hnone
      cases hnone
    · obtain ⟨ret, hret, hbinds⟩ := h.of_lastReturn hlast
      obtain ⟨q, hq, -⟩ := hbinds.property
      exact hresult ret hret (hq.unique hp).1
  · intro hfree
    refine ⟨?_, ?_⟩
    · cases hpos : k.position i with
      | none => rfl
      | some n =>
        obtain ⟨a, ha, hparam⟩ := (h.position i n).1 hpos
        obtain ⟨arg, harg, hbinds⟩ := (partners_of_forall₂ h.passed).2 a (List.mem_of_getElem? ha)
        obtain ⟨harg, hplain⟩ := List.mem_filter.1 harg
        obtain ⟨p, hp⟩ := Function.indexOf_eq_some_iff.1 hbinds.index
        exact absurd (.inl ⟨arg, harg, by simpa using hplain, p, hparam ▸ hp⟩) hfree
    · rintro ret hret rfl
      obtain ⟨arg, hlast, hbinds⟩ := h.of_result hret
      obtain ⟨p, hp, -⟩ := hbinds.property
      exact hfree (.inr ⟨arg, hlast, p, hp⟩)

/-- Where there is one return value at most, the last that is declared is the only one, so everything
that was met is taken. -/
theorem Traces.binds_iff_met (hone : function.OneReturn) (h : Traces registry function args k) :
    k.binds i = true ↔ function.Met args i := by
  rw [h.binds_iff]
  constructor
  · rintro (⟨arg, harg, -, hp⟩ | ⟨arg, hlast, hp⟩)
    · exact ⟨arg, harg, hp⟩
    · exact ⟨arg, (mem_of_lastReturn hlast).1, hp⟩
  · rintro ⟨arg, harg, p, hp⟩
    cases hret : arg.isReturn with
    | false => exact .inl ⟨arg, harg, hret, p, hp⟩
    | true =>
      obtain ⟨last, hlast⟩ := exists_lastReturn harg hret
      obtain ⟨_, _, hp', hagrees⟩ := h.agrees arg harg
      obtain ⟨rfl, rfl⟩ := hp.unique hp'
      obtain ⟨hmem, hlastReturn⟩ := mem_of_lastReturn hlast
      obtain ⟨j, q, hq, hagrees'⟩ := h.agrees last hmem
      obtain rfl : i = j := hone.eq hp.get hq.get (hagrees.symm.trans hret)
        (hagrees'.symm.trans hlastReturn)
      exact .inr ⟨last, hlast, q, hq⟩

/-! ## The first argument that cannot be linked -/

/-- None of the arguments offends in its place, behind those that were declared before it. -/
def Unoffending (registry : Registry) (function : Function) (method : ForeignMethod)
    (taken : List ForeignArg → Nat → Prop) (args : List ForeignArg) : Prop :=
  ∀ front arg back, args = front ++ arg :: back →
    ∀ e, ¬Offends registry function method (taken front) arg e

/-- What is wrong with the first of the arguments that offends. -/
def FirstOffence (registry : Registry) (function : Function) (method : ForeignMethod)
    (taken : List ForeignArg → Nat → Prop) (args : List ForeignArg) (e : LinkError) : Prop :=
  ∃ front arg back, args = front ++ arg :: back ∧
    Unoffending registry function method taken front ∧
    Offends registry function method (taken front) arg e

variable {taken : List ForeignArg → Nat → Prop}

theorem unoffending_nil : Unoffending registry function method taken [] := by
  intro front arg back h
  cases front <;> cases h

theorem unoffending_concat : Unoffending registry function method taken (args ++ [arg]) ↔
    Unoffending registry function method taken args ∧
      ∀ e, ¬Offends registry function method (taken args) arg e := by
  refine ⟨fun h => ⟨fun front a back hargs => h front a (back ++ [arg]) ?_, h args arg [] rfl⟩, ?_⟩
  · rw [hargs, List.append_assoc]
    rfl
  · rintro ⟨hargs, harg⟩ front a back hsplit
    obtain rfl | ⟨back, b, rfl⟩ := List.eq_nil_or_concat back
    · obtain ⟨rfl, hlast⟩ := List.append_inj' hsplit rfl
      cases hlast
      exact harg
    · rw [List.concat_eq_append, ← List.cons_append, ← List.append_assoc] at hsplit
      exact hargs front a back (List.append_inj' hsplit rfl).1

/-- One more argument is bound if those before it were. -/
theorem foldlM_concat : (args ++ [arg]).foldlM (bindArg registry function method) k =
    args.foldlM (bindArg registry function method) k >>= fun k =>
      k.bindArg registry function method arg := by
  rw [List.foldlM_append]
  refine bind_congr fun k => ?_
  rw [List.foldlM_cons]
  exact bind_pure _

section

variable (htaken : ∀ args k,
  args.foldlM (bindArg registry function method) (start function) = .ok k →
    ∀ i, k.binds i = true ↔ taken args i)
include htaken

/-- Where the arguments before it were bound, an argument can be bound unless it offends. -/
theorem bindArg_eq_error_iff_of_taken
    (h : args.foldlM (bindArg registry function method) (start function) = .ok k) :
    k.bindArg registry function method arg = .error e ↔
      Offends registry function method (taken args) arg e :=
  bindArg_eq_error_iff.trans (Offends.congr (htaken args k h))

/-- All arguments can be bound if none of them offends. -/
theorem foldlM_eq_ok_iff :
    (∃ k, args.foldlM (bindArg registry function method) (start function) = .ok k) ↔
      Unoffending registry function method taken args := by
  -- By the last argument: what stands before it decides what is taken.
  induction args using List.reverseRecOn with
  | nil => exact ⟨fun _ => unoffending_nil, fun _ => ⟨_, rfl⟩⟩
  | append_singleton args arg ih =>
    rw [unoffending_concat, ← ih, foldlM_concat]
    cases h : args.foldlM (bindArg registry function method) (start function) with
    | error e => exact ⟨nofun, nofun⟩
    | ok k =>
      have hoffends (e : LinkError) : k.bindArg registry function method arg = .error e ↔
          Offends registry function method (taken args) arg e :=
        bindArg_eq_error_iff_of_taken htaken h
      show (∃ k', k.bindArg registry function method arg = .ok k') ↔ _
      cases hb : k.bindArg registry function method arg with
      | error e =>
        exact ⟨nofun, fun ⟨_, hnone⟩ => absurd ((hoffends e).1 hb) (hnone e)⟩
      | ok k' =>
        refine ⟨fun _ => ⟨⟨k, rfl⟩, fun e ho => ?_⟩, fun _ => ⟨k', rfl⟩⟩
        rw [(hoffends e).2 ho] at hb
        cases hb

/-- The first argument that offends is where binding them ends. -/
theorem foldlM_eq_error_iff :
    args.foldlM (bindArg registry function method) (start function) = .error e ↔
      FirstOffence registry function method taken args e := by
  constructor
  · intro herr
    induction args using List.reverseRecOn with
    | nil => cases herr
    | append_singleton args arg ih =>
      rw [foldlM_concat] at herr
      cases h : args.foldlM (bindArg registry function method) (start function) with
      | error e' =>
        rw [h] at herr
        cases herr
        obtain ⟨front, a, back, rfl, hfront, ho⟩ := ih h
        exact ⟨front, a, back ++ [arg], by rw [List.append_assoc, List.cons_append], hfront, ho⟩
      | ok k =>
        rw [h] at herr
        exact ⟨args, arg, [], rfl, (foldlM_eq_ok_iff htaken).1 ⟨k, h⟩,
          (bindArg_eq_error_iff_of_taken htaken h).1 herr⟩
  · rintro ⟨front, arg, back, rfl, hfront, ho⟩
    obtain ⟨k, hk⟩ := (foldlM_eq_ok_iff htaken).2 hfront
    rw [List.foldlM_append, hk]
    show (arg :: back).foldlM (bindArg registry function method) k = _
    rw [List.foldlM_cons, (bindArg_eq_error_iff_of_taken htaken hk).2 ho]
    rfl

end

/-- What a linker has bound was not taken before. -/
theorem unoffending_taken (h : link registry function method = .ok k) :
    Unoffending registry function method function.Taken method.args :=
  (foldlM_eq_ok_iff fun args k h _ => (traces_of_foldlM args k h).binds_iff).1 ⟨k, h⟩

/-- A second argument for a parameter is bound only if both are return values and the linker has
forgotten the first, as another one was declared in between. -/
theorem returned_between {front between back : List ForeignArg} {a b : ForeignArg}
    (h : link registry function method = .ok k)
    (hargs : method.args = front ++ a :: (between ++ b :: back))
    (hindex : function.indexOf a.name = function.indexOf b.name) :
    a.isReturn = true ∧ b.isReturn = true ∧
      ∃ c ∈ between, c.isReturn = true ∧ function.indexOf c.name ≠ function.indexOf a.name := by
  have hagrees := (traces_of_link h).agrees
  obtain ⟨i, p, hp, hpret⟩ := hagrees a (by simp [hargs])
  obtain ⟨j, q, hq, hqret⟩ := hagrees b (by simp [hargs])
  rw [hp.indexOf, hq.indexOf] at hindex
  cases hindex
  have hsame : p = q := Option.some.inj (hp.get.symm.trans hq.get)
  -- The second was bound, so the parameter was not taken by what was declared before it.
  have hfree : ¬function.Taken (front ++ a :: between) i := fun htaken =>
    unoffending_taken h (front ++ a :: between) b back (by simp [hargs]) _ (.duplicate hq htaken)
  have hret : a.isReturn = true := by
    cases hret : a.isReturn with
    | true => rfl
    | false => exact absurd (.inl ⟨a, by simp, hret, p, hp⟩) hfree
  refine ⟨hret, hqret.trans (hsame ▸ hpret.symm.trans hret), ?_⟩
  obtain ⟨last, hlast, rfl | hmem⟩ := lastReturn_append_cons front between hret
  · exact absurd (.inr ⟨last, hlast, p, hp⟩) hfree
  · refine ⟨last, hmem, (mem_of_lastReturn hlast).2, fun hindex => hfree (.inr ⟨last, hlast, ?_⟩)⟩
    exact Function.indexOf_eq_some_iff.1 (hindex.trans hp.indexOf)

/-- No two arguments lead to one parameter, where none leads to one that was met before it. -/
theorem Unoffending.pairwise (hone : function.OneReturn)
    (h : Unoffending registry function method function.Met args)
    (hagrees : ∀ arg ∈ args, ∃ i p, function.First arg.name i p ∧ arg.isReturn = p.isReturn) :
    args.Pairwise fun a b => function.indexOf a.name ≠ function.indexOf b.name ∧
      (a.isReturn = true → b.isReturn = false) := by
  induction args using List.reverseRecOn with
  | nil => exact .nil
  | append_singleton args arg ih =>
    obtain ⟨hargs, harg⟩ := unoffending_concat.1 h
    refine List.pairwise_append.2 ⟨ih hargs fun a ha => hagrees a (List.mem_append_left _ ha),
      List.pairwise_singleton _ _, fun a ha b hb => ?_⟩
    obtain rfl := List.mem_singleton.1 hb
    obtain ⟨i, p, hp, hpret⟩ := hagrees a (List.mem_append_left _ ha)
    obtain ⟨j, q, hq, hqret⟩ := hagrees b (List.mem_append_right _ hb)
    have hne : i ≠ j := by
      rintro rfl
      exact harg _ (.duplicate hq ⟨a, ha, p, hp⟩)
    refine ⟨?_, fun haret => ?_⟩
    · rw [hp.indexOf, hq.indexOf]
      exact fun h => hne (Option.some.inj h)
    · cases hbret : b.isReturn with
      | false => rfl
      | true =>
        exact absurd (hone.eq hp.get hq.get (hpret.symm.trans haret) (hqret.symm.trans hbret)) hne

end Linker

/-! ## What is bound more than once -/

open Linkage in
/-- The arguments that are passed lead to different parameters, and not to the return value. A
parameter that two arguments lead to is a return value, and so is another one that was declared in
between: the last one gets the result, and the others were forgotten. With one return value at most
no two arguments lead to one parameter, and one is declared as the return value at most. -/
theorem Linker.returned_again {registry : Registry} {function : Function} {method : ForeignMethod}
    {l : Linkage} (h : Linkage.link registry function method = .ok l) :
    ((l.args.map LinkedArg.param).Nodup ∧
      ∀ ret, l.result = some ret → ∀ a ∈ l.args, a.param ≠ ret.param) ∧
    Option.Rel (BindsReturn registry function) (lastReturn method.args) l.result ∧
    (∀ front a between b back, method.args = front ++ a :: (between ++ b :: back) →
      function.indexOf a.name = function.indexOf b.name → a.isReturn = true ∧ b.isReturn = true ∧
        ∃ c ∈ between, c.isReturn = true ∧ function.indexOf c.name ≠ function.indexOf a.name) ∧
    (function.OneReturn → method.args.Pairwise fun a b =>
      function.indexOf a.name ≠ function.indexOf b.name ∧
        (a.isReturn = true → b.isReturn = false)) := by
  obtain ⟨k, hk, rfl⟩ := exists_linker h
  have htraces := traces_of_link hk
  refine ⟨⟨htraces.distinct, fun ret hret => htraces.param_ne_result hret⟩, htraces.result,
    fun front a between b back hargs hindex => returned_between hk hargs hindex, fun hone => ?_⟩
  have hmet := (foldlM_eq_ok_iff fun args k h _ =>
    (traces_of_foldlM args k h).binds_iff_met hone).1 ⟨k, hk⟩
  exact hmet.pairwise hone htraces.agrees

namespace Sample

/-- A function with two return values. -/
def twofold : Function :=
  ⟨"T", "F", ⟨true, true, false, false⟩,
    [⟨"A", .scalar .int32, 4, 4, 0, ⟨true, true, true, false, false⟩⟩,
      ⟨"B", .scalar .int32, 4, 4, 4, ⟨true, true, true, false, false⟩⟩], ⟨8, 4⟩⟩

/-- A method that returns to the first, to the second and to the first again. -/
def twofoldMethod : ForeignMethod :=
  ⟨"G", ⟨"", "T", "F", some []⟩, [⟨"A", false, true⟩, ⟨"B", false, true⟩, ⟨"A", false, true⟩]⟩

def twofoldLinkage : Linkage := ⟨[], some ⟨0, .scalar⟩⟩

end Sample

/-- `Linker.returned_again` for a method that declares one return value twice. -/
theorem Linker.returned_again_of_twofold :
    Linkage.link .default Sample.twofold Sample.twofoldMethod = .ok Sample.twofoldLinkage ∧
      Option.Rel (Linkage.BindsReturn .default Sample.twofold) (some ⟨"A", false, true⟩)
        (some ⟨0, .scalar⟩) ∧
      ∃ c ∈ [(⟨"B", false, true⟩ : ForeignArg)], c.isReturn = true ∧
        Sample.twofold.indexOf c.name ≠ Sample.twofold.indexOf "A" := by
  have hlink : Linkage.link .default Sample.twofold Sample.twofoldMethod = .ok Sample.twofoldLinkage := by
    decide +kernel
  obtain ⟨-, hresult, hagain, -⟩ := Linker.returned_again hlink
  obtain ⟨-, -, hbetween⟩ := hagain [] ⟨"A", false, true⟩ [⟨"B", false, true⟩] ⟨"A", false, true⟩ []
    rfl rfl
  exact ⟨hlink, hresult, hbetween⟩

/-- A function can be linked though two arguments lead to one of its parameters. -/
theorem Linker.bound_twice : ¬∀ (function : Function) (method : ForeignMethod) (l : Linkage),
    Linkage.link .default function method = .ok l →
      (method.args.Pairwise fun a b => function.indexOf a.name ≠ function.indexOf b.name) ∧
        (method.args.filter ForeignArg.isReturn).length ≤ 1 := by
  intro h
  obtain ⟨hpairwise, -⟩ := h Sample.twofold Sample.twofoldMethod Sample.twofoldLinkage (by decide +kernel)
  revert hpairwise
  decide

/-! ## What a redirector reports -/

/-- The first method of the assembly that the signature finds is the one with the number `m`. -/
structure Foreign.Finds (f : Foreign) (assembly : String) (key : Signature) (m : Nat)
    (info : MethodInfo) : Prop where
  get : f.methods[m]? = some info
  inside : info.assembly = assembly
  accepts : key.accepts info.signature = true
  first : ∀ n < m, ∀ other, f.methods[n]? = some other → other.assembly = assembly →
    key.accepts other.signature = false

namespace Foreign

variable {f : Foreign} {assembly : String} {key : Signature} {m n : Nat} {info other : MethodInfo}

theorem Finds.unique (h : f.Finds assembly key m info) (h' : f.Finds assembly key n other) :
    info = other := by
  have hne {m n : Nat} {info other : MethodInfo} (h : f.Finds assembly key m info)
      (h' : f.Finds assembly key n other) : ¬m < n := by
    intro hlt
    have hno := h'.first m hlt info h.get h.inside
    rw [h.accepts] at hno
    cases hno
  obtain rfl : m = n :=
    Nat.le_antisymm (Nat.le_of_not_lt (hne h' h)) (Nat.le_of_not_lt (hne h h'))
  exact Option.some.inj (h.get.symm.trans h'.get)

theorem Finds.not_absent (h : f.Finds assembly key m info) :
    ¬∀ info ∈ f.methods, info.assembly = assembly → key.accepts info.signature = false := by
  intro hnone
  have hno := hnone info (List.mem_of_getElem? h.get) h.inside
  rw [h.accepts] at hno
  cases hno

/-- A key finds a method of the assembly, or there is none that it could find. -/
theorem findMethod_cases (f : Foreign) (assembly : String) (key : Signature) :
    (f.findMethod assembly key = .error (.missingMethod assembly key.render) ∧
      ∀ info ∈ f.methods, info.assembly = assembly → key.accepts info.signature = false) ∨
    ∃ m info, f.findMethod assembly key = .ok m ∧ f.Finds assembly key m info := by
  unfold findMethod lookupMethod
  cases hfind : f.methods.findIdx? fun m => m.assembly == assembly && key.accepts m.signature with
  | none =>
    refine .inl ⟨rfl, fun info hinfo ha => ?_⟩
    simpa [ha] using List.findIdx?_eq_none_iff.1 hfind info hinfo
  | some m =>
    obtain ⟨hlt, hm, hfirst⟩ := List.findIdx?_eq_some_iff_getElem.1 hfind
    obtain ⟨hassembly, haccepts⟩ := Bool.and_eq_true_iff.1 hm
    refine .inr ⟨m, f.methods[m], rfl, List.getElem?_eq_getElem hlt, beq_iff_eq.1 hassembly,
      haccepts, fun n hn other hother ha => ?_⟩
    obtain ⟨_, rfl⟩ := List.getElem?_eq_some_iff.1 hother
    simpa [ha] using hfirst n hn

end Foreign

namespace Redirector

open Linker

variable {registry : Registry} {f : Foreign} {r : Redirector} {e : LinkError}

/-- The first thing that is in the way of linking a function: the method is not there, it takes
another number of arguments than it was declared with, or one of them offends. -/
inductive Hindered (registry : Registry) (f : Foreign) (r : Redirector) : LinkError → Prop
  | absent (h : ∀ info ∈ f.methods, info.assembly = r.method.assembly →
      r.method.signature.accepts info.signature = false) :
    Hindered registry f r (.missingMethod r.method.assembly r.method.signature.render)
  | arity {m : Nat} {info : MethodInfo} (hm : f.Finds r.method.assembly r.method.signature m info)
      (h : info.parameterCount ≠ r.method.parameterCount) :
    Hindered registry f r (.arityMismatch r.method.signature.render info.parameterCount
      r.method.parameterCount)
  | argument {m : Nat} {info : MethodInfo} {e : LinkError}
      (hm : f.Finds r.method.assembly r.method.signature m info)
      (hcount : info.parameterCount = r.method.parameterCount)
      (h : FirstOffence registry r.function r.method r.function.Met r.method.args e) :
    Hindered registry f r e

end Redirector

namespace Linkage

variable {registry : Registry} {function : Function} {method : ForeignMethod} {e : LinkError}

/-- With one return value at most, linking succeeds if no argument offends. -/
theorem link_eq_ok_iff (hone : function.OneReturn) :
    (∃ l, link registry function method = .ok l) ↔
      Linker.Unoffending registry function method function.Met method.args := by
  rw [← Linker.foldlM_eq_ok_iff fun args k h _ =>
    (Linker.traces_of_foldlM args k h).binds_iff_met hone]
  constructor
  · rintro ⟨l, h⟩
    obtain ⟨k, hk, -⟩ := exists_linker h
    exact ⟨k, hk⟩
  · rintro ⟨k, hk⟩
    refine ⟨k.linkage, ?_⟩
    unfold link
    rw [show Linker.link registry function method = .ok k from hk]
    rfl

/-- The first argument that offends decides the error. -/
theorem link_eq_error_iff (hone : function.OneReturn) :
    link registry function method = .error e ↔
      Linker.FirstOffence registry function method function.Met method.args e := by
  rw [← Linker.foldlM_eq_error_iff fun args k h _ =>
    (Linker.traces_of_foldlM args k h).binds_iff_met hone]
  change _ ↔ Linker.link registry function method = .error e
  unfold link
  cases Linker.link registry function method with
  | error e' => exact ⟨fun h => by cases h; rfl, fun h => by cases h; rfl⟩
  | ok k => exact ⟨nofun, nofun⟩

end Linkage

namespace Redirector

variable {registry : Registry} {f : Foreign} {r : Redirector} {e : LinkError}

/-- Linking fails with what is in its way. -/
theorem resolve_eq_error_iff (hone : r.function.OneReturn) :
    r.resolve registry f = .error e ↔ r.Hindered registry f e := by
  unfold resolve
  obtain ⟨hm, habsent⟩ | ⟨m, info, hm, hfinds⟩ :=
    f.findMethod_cases r.method.assembly r.method.signature
  · rw [hm]
    constructor
    · rintro ⟨⟩
      exact .absent habsent
    · intro h
      cases h with
      | absent => rfl
      | arity hfinds | argument hfinds => exact absurd habsent hfinds.not_absent
  rw [hm]
  show (if (f.methods[m]?).elim 0 MethodInfo.parameterCount ≠ r.method.parameterCount then _ else _) =
    _ ↔ _
  rw [hfinds.get]
  show (if info.parameterCount ≠ r.method.parameterCount then _ else _) = _ ↔ _
  -- The number of arguments is looked at before any of them.
  by_cases hcount : info.parameterCount = r.method.parameterCount
  · have hiff : r.Hindered registry f e ↔ Linkage.link registry r.function r.method = .error e := by
      rw [Linkage.link_eq_error_iff hone]
      refine ⟨fun h => ?_, fun h => .argument hfinds hcount h⟩
      cases h with
      | absent habsent => exact absurd habsent hfinds.not_absent
      | arity hfinds' hne =>
        obtain rfl := hfinds'.unique hfinds
        exact absurd hcount hne
      | argument _ _ h => exact h
    rw [if_neg (not_not.2 hcount), hiff]
    cases hl : Linkage.link registry r.function r.method with
    | error e' => exact ⟨fun h => by cases h; rfl, fun h => by cases h; rfl⟩
    | ok l => exact ⟨nofun, nofun⟩
  · rw [if_pos hcount]
    constructor
    · rintro ⟨⟩
      exact .arity hfinds hcount
    · intro h
      cases h with
      | absent habsent => exact absurd habsent hfinds.not_absent
      | arity hfinds' =>
        obtain rfl := hfinds'.unique hfinds
        rfl
      | argument hfinds' heq =>
        obtain rfl := hfinds'.unique hfinds
        exact absurd heq hcount

/-- Only one thing is the first in the way. -/
theorem Hindered.unique (hone : r.function.OneReturn) {e' : LinkError} (h : r.Hindered registry f e)
    (h' : r.Hindered registry f e') : e = e' :=
  Except.error.inj
    (((resolve_eq_error_iff hone).2 h).symm.trans ((resolve_eq_error_iff hone).2 h'))

end Redirector

theorem State.isBound_settle {s : State} {key : Redirector.Key} {r : Redirector}
    (h : s.redirector? key = some r) (c : Binding) : (s.settle key c).IsBound key c := by
  refine ⟨{ r with binding := c }, ?_, rfl⟩
  refine (Table.get?_modify _ _ _ _).trans ?_
  rw [if_pos rfl, show s.bridge.redirectors.get? key = some r from h]
  rfl

/-- With one return value at most, a function is linked if no argument of the method offends, and
else the first that does decides the error. A redirector that is asked to link its function for the
first time says the same, reports it and keeps it, but says before if the method is not there or takes
another number of arguments. -/
theorem first_offence {registry : Registry} {function : Function} {method : ForeignMethod}
    (hone : function.OneReturn) :
    ((∃ l, Linkage.link registry function method = .ok l) ↔
      Linker.Unoffending registry function method function.Met method.args) ∧
    (∀ e, Linkage.link registry function method = .error e ↔
      Linker.FirstOffence registry function method function.Met method.args e) ∧
    ∀ {call : Invoker σ} {w : World σ} {key : Redirector.Key} {r : Redirector},
      w.state.bridge.registry = registry → r.function = function → r.method = method →
      w.state.redirector? key = some r → r.binding = .unbound →
      Ends ((Request.link key).perform call w)
        (fun answer v =>
          (answer = some (.ok ()) ∧ (∀ e, ¬r.Hindered registry w.state.foreign e) ∧
            ∃ l m, v.state.IsBound key (.linked l m)) ∨
          ∃ e, answer = some (.error e) ∧ r.Hindered registry w.state.foreign e ∧
            v.state.IsBound key (.failed e) ∧
            v.state.journal = .linkFailure function.qualifiedName e.message :: w.state.journal)
        fun failure _ => wordModulus ≤ w.state.books.failures + 1 ∧
          (∃ o, failure = .panic (.overflow o)) ∧ ∃ e, r.Hindered registry w.state.foreign e := by
  refine ⟨Linkage.link_eq_ok_iff hone, fun e => Linkage.link_eq_error_iff hone, ?_⟩
  rintro call w key r rfl rfl rfl hr hunbound
  have hhindered (e : LinkError) : r.resolve w.state.bridge.registry w.state.foreign = .error e ↔
      r.Hindered w.state.bridge.registry w.state.foreign e :=
    Redirector.resolve_eq_error_iff hone
  cases hres : r.resolve w.state.bridge.registry w.state.foreign with
  | ok resolved =>
    obtain ⟨l, m⟩ := resolved
    have hcalls := Redirection.calls_of_linked hr
      (fun call => Redirection.linked_of_resolved hunbound hres) rfl
    rw [hcalls.1 call]
    refine .inl ⟨rfl, fun e he => ?_, l, m, State.isBound_settle hr _⟩
    rw [(hhindered e).2 he] at hres
    cases hres
  | error e =>
    have he := (hhindered e).1 hres
    cases hadd : w.state.timed.bridge.metrics.add Counter.linkFailures 1 with
    | ok metrics =>
      rw [(Redirection.perform_of_refused hr (Redirection.linked_of_unresolved hunbound hres hadd)).1]
      exact .inr ⟨e, rfl, he, State.isBound_settle hr _, rfl⟩
    | error o =>
      rw [(Redirection.perform_of_abandoned hr
        (Redirection.linked_of_uncounted hunbound hres hadd)).1]
      have hfull : wordModulus ≤ w.state.timed.books.failures + 1 := Metrics.full_of_add hadd
      rw [State.books_timed] at hfull
      exact ⟨hfull, ⟨o, rfl⟩, e, he⟩

namespace Sample

/-- A function with two parameters of one name, of which the first cannot be marshalled. -/
def tangled : Function :=
  ⟨"T", "F", ⟨true, true, false, false⟩,
    [⟨"A", .delegate "D", 16, 8, 0, ⟨true, false, false, false, false⟩⟩,
      ⟨"A", .scalar .int32, 4, 4, 16, ⟨true, false, false, false, false⟩⟩,
      ⟨"B", .scalar .int32, 4, 4, 20, ⟨true, false, false, false, false⟩⟩,
      ⟨"R", .scalar .int32, 4, 4, 24, ⟨true, true, true, false, false⟩⟩], ⟨28, 8⟩⟩

/-- An argument without a marshaller that should not be the return value either, one without a
parameter, and one whose parameter is taken. -/
def tangledMethod : ForeignMethod :=
  ⟨"G", ⟨"", "T", "F", none⟩,
    [⟨"B", false, false⟩, ⟨"A", false, true⟩, ⟨"Z", false, false⟩, ⟨"B", false, false⟩]⟩

/-- The method as it is declared takes two arguments. -/
def tangledWorld : World Unit :=
  let w := world [⟨"G", ⟨"", "T", "F", some ["int", "int"]⟩, 2, 0⟩] []
  { w with state := (w.state.redirect tangled tangledMethod).2 }

end Sample

/-- `first_offence` for a function where much is wrong: of its arguments the second is reported, and
by the redirector their number. -/
theorem first_offence_of_tangled : Sample.tangled.OneReturn ∧
    Linkage.link .default Sample.tangled Sample.tangledMethod =
      .error (.unsupportedKind "A" .delegate) ∧
    Linker.FirstOffence .default Sample.tangled Sample.tangledMethod Sample.tangled.Met
      Sample.tangledMethod.args (.unsupportedKind "A" .delegate) ∧
    ∃ v, (Request.link ("T", "F")).perform (callAt 0) Sample.tangledWorld =
        .ok (some (.error (.arityMismatch "T:F" 2 3))) v ∧
      v.state.IsBound ("T", "F") (.failed (.arityMismatch "T:F" 2 3)) := by
  have hone : Sample.tangled.OneReturn := by decide
  have hlink : Linkage.link .default Sample.tangled Sample.tangledMethod =
      .error (.unsupportedKind "A" .delegate) := by
    decide +kernel
  obtain ⟨-, herror, hredirector⟩ := @first_offence Unit .default _ Sample.tangledMethod hone
  refine ⟨hone, hlink, (herror _).1 hlink, ?_⟩
  have hends := @hredirector (callAt 0) Sample.tangledWorld ("T", "F")
    ⟨Sample.tangled, Sample.tangledMethod, .unbound, 0⟩ rfl rfl rfl rfl rfl
  have harity : Redirector.Hindered .default Sample.tangledWorld.state.foreign
      ⟨Sample.tangled, Sample.tangledMethod, .unbound, 0⟩ (.arityMismatch "T:F" 2 3) :=
    (Redirector.resolve_eq_error_iff hone).1 (by decide +kernel)
  cases hr : (Request.link ("T", "F")).perform (callAt 0) Sample.tangledWorld with
  | ok answer v =>
    rw [hr] at hends
    obtain ⟨-, hnone, -⟩ | ⟨e, rfl, he, hbound, -⟩ := hends
    · exact absurd harity (hnone _)
    · obtain rfl := he.unique hone harity
      exact ⟨v, rfl, hbound⟩
  | error failure v =>
    rw [hr] at hends
    exact absurd hends.1 (by decide +kernel)

end TwinHeap
