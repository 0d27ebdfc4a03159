import TwinHeap.Proofs.Exceptions
import TwinHeap.Proofs.Linking
import TwinHeap.Proofs.Placement

/-!
# Effects — the storage that a redirected call changes

The caller of a function lends storage for its outputs: for the arguments that it passes by reference
and that the method is bound to by reference, and for the result (`Redirector.Lends`). All other
storage stays as it is, however the call ends. A flag shares its octet with its neighbours, so where
only flags are lent only their bits change: `flagLaw` follows those bits, as `guardLaw` follows whole
cells.
-/

namespace TwinHeap

variable {σ : Type}

/-! ## Flags -/

theorem Octet.or_and (a b bits : UInt8) : (a ||| b) &&& bits = (a &&& bits) ||| (b &&& bits) :=
  UInt8.toBitVec_inj.1 (by simp [BitVec.and_or_distrib_right])

/-- Bits that the mask does not cover stay as they are. -/
theorem Octet.and_setBits {mask bits : UInt8} (h : mask &&& bits = 0) (on : Bool) (o : Octet) :
    (o.setBits mask on).byte &&& bits = o.byte &&& bits := by
  have hnot : ~~~mask &&& bits = bits := by
    have hall : (~~~mask ||| mask) &&& bits = bits := by simp
    rwa [or_and, h, UInt8.or_zero] at hall
  cases on with
  | true =>
    show (o.byte ||| mask) &&& bits = _
    rw [or_and, h, UInt8.or_zero]
  | false =>
    show (o.byte &&& ~~~mask) &&& bits = _
    rw [UInt8.and_assoc, hnot]

/-- Of the bits that the mask covers all are set, or none. -/
theorem Octet.setBits_and (mask : UInt8) (on : Bool) (o : Octet) :
    (o.setBits mask on).byte &&& mask = if on then mask else 0 := by
  cases on with
  | true =>
    show (o.byte ||| mask) &&& mask = mask
    apply UInt8.toBitVec_inj.1
    ext i
    simp only [UInt8.toBitVec_and, UInt8.toBitVec_or, BitVec.getElem_and, BitVec.getElem_or]
    cases mask.toBitVec[i] <;> simp
  | false =>
    show o.byte &&& ~~~mask &&& mask = 0
    apply UInt8.toBitVec_inj.1
    ext i
    simp

namespace Value

/-- The values agree but for the bits of flags, which lie where `lent` says. -/
structure FlagsApart (lent : Property → Nat → Prop) (v v' : Value) : Prop where
  same : (∀ p i, ¬lent p i) → v' = v
  shape : v' = v ∨ ∃ os os', v = .plain os ∧ v' = .plain os'
  octet : ∀ i, (∀ p, ¬lent p i) → v'.octetAt i = v.octetAt i
  bits : ∀ i bits, (∀ p mask, lent p i → p.kind = .bool mask → mask &&& bits = 0) →
    (v'.octetAt i).byte &&& bits = (v.octetAt i).byte &&& bits

variable {lent : Property → Nat → Prop} {v v' v'' : Value}

theorem FlagsApart.refl (v : Value) : v.FlagsApart lent v :=
  ⟨fun _ => rfl, .inl rfl, fun _ _ => rfl, fun _ _ _ => rfl⟩

theorem FlagsApart.trans (h : v.FlagsApart lent v') (h' : v'.FlagsApart lent v'') :
    v.FlagsApart lent v'' where
  same hn := (h'.same hn).trans (h.same hn)
  shape := by
    obtain rfl | ⟨os, os', rfl, rfl⟩ := h.shape
    · exact h'.shape
    · obtain rfl | ⟨_, os'', -, rfl⟩ := h'.shape
      · exact .inr ⟨os, os', rfl, rfl⟩
      · exact .inr ⟨os, os'', rfl, rfl⟩
  octet i hn := (h'.octet i hn).trans (h.octet i hn)
  bits i bits hn := (h'.bits i bits hn).trans (h.bits i bits hn)

/-- Setting a flag changes no bits but its own. -/
theorem flagsApart_splice {p : Property} {mask : UInt8} {i : Nat} (hl : lent p i)
    (hp : p.kind = .bool mask) (on : Bool) (v : Value) :
    v.FlagsApart lent (v.splice i [(v.octetAt i).setBits mask on]) := by
  cases v with
  | plain os =>
    refine ⟨fun hn => absurd hl (hn p i), .inr ⟨os, _, rfl, rfl⟩, ?_, ?_⟩
    · intro j hn
      have hj : j ≠ i := by
        rintro rfl
        exact hn p hl
      rw [octetAt_splice, if_neg (by simp; omega)]
    · intro j bits hn
      by_cases hj : j = i
      · subst hj
        rw [octetAt_splice, if_pos (by simp), Nat.sub_self]
        exact Octet.and_setBits (hn p mask hl hp) on _
      · rw [octetAt_splice, if_neg (by simp; omega)]
  | _ => exact .refl _

/-- Resetting a flag clears its bits. -/
theorem put_reset_flag {p : Property} {mask : UInt8} (hp : p.kind = .bool mask) (v : Value)
    (i : Nat) :
    v.put i ((v.skip i).reset p) = v.splice i [(v.octetAt i).setBits mask false] := by
  have hreset : (v.skip i).reset p = (v.skip i).write [(v.octetAt i).setBits mask false] := by
    have hfirst : (v.skip i).first = v.octetAt i := by
      rw [first_eq_octetAt, octetAt_skip, Nat.add_zero]
    unfold reset Kind.storage
    rw [hp, ← hfirst]
  rw [hreset]
  cases v with
  | plain os => exact put_write os _ i
  | _ => rfl

end Value

namespace State

/-- In the cells `K` nothing changed but bits of flags that are lent. -/
def FlagsApart (K : Nat → Prop) (lent : Property → Address → Prop) (s s' : State) : Prop :=
  ∀ c, K c → Option.Rel (Value.FlagsApart fun p i => lent p (.cell c i))
    (s.memory.cells.get? c) (s'.memory.cells.get? c)

variable {K : Nat → Prop} {lent : Property → Address → Prop} {s s' s'' : State}

theorem FlagsApart.refl (s : State) : s.FlagsApart K lent s := by
  intro c _
  cases s.memory.cells.get? c with
  | none => exact .none
  | some v => exact .some (.refl v)

theorem FlagsApart.keeps (h : s.FlagsApart K lent s') (hk : s'.Keeps K s'') :
    s.FlagsApart K lent s'' :=
  fun c hc => (hk c hc).symm ▸ h c hc

theorem FlagsApart.modify (h : s.FlagsApart K lent s') {cell : Nat} {f : Value → Value}
    (hm : s''.memory = s'.memory.modify cell f) (hf : ∀ v, s'.memory.cells.get? cell = some v →
      v.FlagsApart (fun p i => lent p (.cell cell i)) (f v)) : s.FlagsApart K lent s'' := by
  intro c hc
  have hold := h c hc
  have hget : s''.memory.cells.get? c = if cell = c then (s'.memory.cells.get? c).map f
      else s'.memory.cells.get? c := by
    rw [hm]
    exact Table.get?_modify _ _ _ _
  rw [hget]
  split
  · rename_i hcell
    subst hcell
    cases hv : s'.memory.cells.get? cell with
    | none => rwa [hv] at hold
    | some v =>
      rw [hv] at hold
      generalize s.memory.cells.get? cell = old at hold
      cases hold with
      | some h => exact .some (h.trans (hf v hv))
  · exact hold

/-- Setting a flag that is lent leaves the other bits alone. -/
theorem FlagsApart.write (h : s.FlagsApart K lent s') {p : Property} {mask : UInt8} {a : Address}
    (hl : lent p a) (hp : p.kind = .bool mask) (on : Bool) :
    s.FlagsApart K lent (s'.writeAt a ((s'.readAt a 1).map (Octet.setBits mask on))) := by
  cases a with
  | cell c i =>
    refine h.modify rfl fun v hv => ?_
    have hread : s'.readAt (.cell c i) 1 = [v.octetAt i] := by
      show (((s'.memory.cells.get? c).getD _).skip i).read 1 = _
      rw [hv]
      exact v.read_skip_one i
    rw [hread]
    exact Value.flagsApart_splice hl hp on v
  | _ => exact h

/-- So does resetting it. -/
theorem FlagsApart.reset (h : s.FlagsApart K lent s') {p : Property} {mask : UInt8} {a : Address}
    (hl : lent p a) (hp : p.kind = .bool mask) : s.FlagsApart K lent (s'.resetAt p a) := by
  cases a with
  | cell c i =>
    refine h.modify rfl fun v hv => ?_
    have hvalue : s'.valueAt (.cell c i) = v.skip i := by
      show ((s'.memory.cells.get? c).getD _).skip i = _
      rw [hv]
      rfl
    rw [hvalue, Value.put_reset_flag hp]
    exact Value.flagsApart_splice hl hp false v
  | _ => exact h

theorem frameCells_writeAt (s : State) (a : Address) (os : List Octet) :
    (s.writeAt a os).frameCells = s.frameCells ∧
      (s.writeAt a os).memory.next = s.memory.next := by
  cases a <;> exact ⟨rfl, rfl⟩

end State

/-! ## The law -/

namespace World.Guards

variable {K : Nat → Prop} {old : State} {o : List Owed} {w : World σ}

/-- The cells are guarded from now on, whatever they were before. -/
theorem again (h : w.Guards K old o) {s : State} (hf : s.frameCells = w.state.frameCells)
    (hn : s.memory.next = w.state.memory.next) : World.Guards K s o { w with state := s } where
  below c hc := hn.symm ▸ h.below c hc
  keeps := .refl s
  owed := h.owed
  frames := by
    show ∀ cells ∈ s.frameCells.take _, _
    rw [hf]
    exact h.frames

end World.Guards

/-- In the cells `K` only bits of flags change that are lent, where foreign code leaves `K` alone. -/
noncomputable def flagLaw (n : Nat) (K : Nat → Prop) (lent : Property → Address → Prop)
    (old : State) : Law σ where
  toTerms := .guarding K
  call := Invoker.guard (callAt n) K
  course := .any _
  holds o w := w.Guards K w.state o ∧ old.FlagsApart K lent w.state
  grows := (guardLaw n K old).grows
  ready_cons _ _ := trivial
  fresh h := h.1.fresh
  change {_ _ w _} h hc := by
    have hguards := (guardLaw n K w.state).change h.1 hc
    exact ⟨hguards.again rfl rfl, h.2.keeps hguards.keeps⟩
  called {o o' b w m inv} h hr _ := by
    have hcalled := ends_iff.1 ((guardLaw n K w.state).called h.1 hr trivial)
    have hafter {o : List Owed} {v : World σ} (hv : v.Guards K w.state o) :
        v.Guards K v.state o ∧ old.FlagsApart K lent v.state :=
      ⟨hv.again rfl rfl, h.2.keeps hv.keeps⟩
    exact ends_iff.2 ⟨fun a v hv => hafter (hcalled.1 a v hv),
      fun f v hf hne => hafter (hcalled.2 f v hf hne)⟩

section Flags

variable {n : Nat} {K : Nat → Prop} {lent : Property → Address → Prop} {old : State}
  {o : List Owed} {w : World σ} {p : Property} {a : Address}

/-- An output other than a flag is lent no cell of `K`. -/
theorem outside_of_lent (hK : ∀ c, K c → ∀ p i, lent p (.cell c i) → ∃ mask, p.kind = .bool mask)
    (hl : lent p a) (hp : ∀ mask, p.kind ≠ .bool mask) : a.Outside K := by
  rintro c i rfl hc
  obtain ⟨mask, hmask⟩ := hK c hc p i hl
  exact hp mask hmask

/-- Writing an output to a place that is lent for it keeps the law. -/
theorem Marshaller.toHost_flags
    (hK : ∀ c, K c → ∀ p i, lent p (.cell c i) → ∃ mask, p.kind = .bool mask) (hl : lent p a)
    {m : Marshaller} (hm : ∀ mask, p.kind = .bool mask → m = .bool) (foreign : Address) :
    (m.toHost p a foreign : Act σ Unit).Obeys (flagLaw n K lent old) .plain o w := by
  by_cases hp : ∃ mask, p.kind = .bool mask
  · obtain ⟨mask, hp⟩ := hp
    obtain rfl := hm mask hp
    unfold Marshaller.toHost
    refine .ofPanic_bind fun mask' hmask => .ofPanic_bind fun data _ => .edit_of_holds ?_ ?_
    · rintro ⟨hguards, hflags⟩
      obtain rfl : mask' = mask := by
        unfold Property.flagMask at hmask
        rw [hp] at hmask
        exact (Except.ok.inj hmask).symm
      obtain ⟨hf, hn⟩ := w.state.frameCells_writeAt a _
      exact ⟨hguards.again hf hn, hflags.write hl hp _⟩
    · exact w.state.grows_writeAt a _
  · exact Marshaller.toHost_obeys m p foreign
      (outside_of_lent hK hl fun mask hmask => hp ⟨mask, hmask⟩)

/-- So does resetting it. -/
theorem resetAt_flags
    (hK : ∀ c, K c → ∀ p i, lent p (.cell c i) → ∃ mask, p.kind = .bool mask) (hl : lent p a) :
    (Act.edit (·.resetAt p a) : Act σ Unit).Obeys (flagLaw n K lent old) .plain o w := by
  by_cases hp : ∃ mask, p.kind = .bool mask
  · obtain ⟨mask, hp⟩ := hp
    refine .edit_of_holds ?_ (w.state.grows_storeAt a _)
    rintro ⟨hguards, hflags⟩
    obtain ⟨hf, hn⟩ := w.state.frameCells_storeAt a _
    exact ⟨hguards.again hf hn, hflags.reset hl hp⟩
  · exact .edit (.store (outside_of_lent hK hl fun mask hmask => hp ⟨mask, hmask⟩) _) trivial

end Flags

/-! ## What is lent -/

/-- The linkage that a call of the function goes by, unless it cannot be linked. -/
def Redirector.linkage? (r : Redirector) (s : State) : Option Linkage :=
  match r.binding with
  | .linked l _ => some l
  | .failed _ => none
  | .unbound =>
    match r.resolve s.bridge.registry s.foreign with
    | .ok (l, _) => some l
    | .error _ => none

/-- The outputs that a call is lent a place for. -/
inductive Redirector.Lends (r : Redirector) (s : State) (stack : ArgStack)
    (result : Option Address) : Property → Address → Prop
  /-- The caller passes the storage by reference, and the parameter is bound by reference. -/
  | argument {l : Linkage} {i : Nat} {p : Property} {arg : LinkedArg} {a : StackArg}
      (hl : r.linkage? s = some l) (hp : r.function.params[i]? = some p)
      (harg : l.forParam i = some arg) (hby : arg.byRef = true)
      (ha : stack.argFor r.function.params i = some a) (hlent : a.byRef = true) :
      Lends r s stack result p (.ofCell a.cell)
  /-- The method is linked to return a value, and the caller wants it. -/
  | result {l : Linkage} {p : Property} {m : Marshaller} {place : Address}
      (hl : r.linkage? s = some l) (hreturn : Redirection.returnOf r.function l = some (p, m))
      (hplace : result = some place) : Lends r s stack result p place

namespace Redirection

open Act

variable {call : Invoker σ} {key : Redirector.Key} {r : Redirector} {stack rest : ArgStack}
  {target result receiver : Option Address} {w v u : World σ} {l : Linkage} {m n : Nat}
  {params : List Parameter} {pointers : List Address} {staged : List StagedArg}

theorem linkage?_of_linked (h : linked key r call w = .ok (.ok (l, m)) v) :
    r.linkage? w.state = some l := by
  unfold Redirector.linkage?
  obtain ⟨-, ⟨l', m', hb, hfound⟩ | ⟨e, -, hfound⟩ | ⟨hb, hfound⟩⟩ := linked_cases h
  · cases hfound
    rw [hb]
  · cases hfound
  · rw [hb, ← hfound]

/-- Whatever a call goes by was found by linking its function. -/
theorem link_of_linkage? {s : State} (hs : s.Bound) (hr : s.redirector? key = some r)
    (h : r.linkage? s = some l) :
    Linkage.link s.bridge.registry r.function r.method = .ok l := by
  unfold Redirector.linkage? at h
  cases hb : r.binding with
  | linked l' m =>
    rw [hb] at h
    cases h
    exact (hs key r l m hr hb).1
  | failed => rw [hb] at h; cases h
  | unbound =>
    rw [hb] at h
    cases hres : r.resolve s.bridge.registry s.foreign with
    | error e => rw [hres] at h; cases h
    | ok lm =>
      rw [hres] at h
      cases h
      exact (Redirector.fitting_of_resolve hres).1

/-- Wherever a session comes to, a call that goes by a linkage goes by the one that linking makes. -/
theorem link_of_linked {config : Config} {registry : Registry} {side : ForeignSide σ} {memory : σ}
    {start : World σ} {rs : List Request}
    (hstart : World.connect config registry side memory = .ok start)
    (hsees : Session.Sees (fun _ _ => True) (fun _ => True) start rs w)
    (hr : w.state.redirector? key = some r) (h : linked key r call w = .ok (.ok (l, m)) v) :
    Linkage.link registry r.function r.method = .ok l := by
  rw [← hsees.registry hstart]
  exact link_of_linkage? (hsees.bound hstart) hr (linkage?_of_linked h)

/-- An output that is written back goes to a place of the call's own or to one that is lent for it. -/
theorem output_lent (result : Option Address) {s : State} {j : Nat} {param : Parameter}
    {t : StagedArg} (hloaded : Loaded r.function.params stack params rest)
    (hl : r.linkage? s = some l)
    (hprepare : prepare r.function l target params call w = .ok (pointers, staged, receiver) u)
    (hparam : params[j]? = some param)
    (ht : (staged.find? fun t => t.arg.param == j) = some t) (hby : t.arg.byRef = true) :
    t.arg ∈ l.args ∧ r.function.params[t.arg.param]? = some param.property ∧
      (param.output = param.place ∨
        r.Lends s stack result param.property param.output) := by
  obtain ⟨_, hstages, -⟩ := stages_of_prepare hprepare
  rw [hstages.find?_eq (List.getElem?_eq_some_iff.1 hparam).1] at ht
  obtain ⟨arg, harg, rfl⟩ := Option.map_eq_some_iff.1 ht
  have hindex : arg.param = j := by
    have hindex := List.find?_some harg
    exact beq_iff_eq.1 hindex
  have hproperty : r.function.params[j]? = some param.property := by
    rw [← hloaded.properties, List.getElem?_map, hparam]
    rfl
  refine ⟨List.mem_of_find?_eq_some harg, hindex ▸ hproperty, ?_⟩
  have hout := hloaded.output hparam
  split at hout
  · exact .inl hout
  obtain ⟨a, ha, hout⟩ := hout
  split at hout
  · exact .inr (hout ▸ .argument hl hproperty harg hby ha ‹_›)
  · exact .inl hout

/-- A call changes no cell of `K` but for bits of flags that are lent. -/
theorem invoke_flags {K : Nat → Prop} {old : State} {o : List Owed}
    (hr : w.state.redirector? key = some r) (hbound : w.state.Bound)
    (hbool : ∀ m, w.state.bridge.registry.get? .bool = some m → m = .bool)
    (hK : ∀ c, K c → ∀ p i, r.Lends w.state stack result p (.cell c i) →
      ∃ mask, p.kind = .bool mask) (target : Option Address) :
    (invoke key r target stack result : Act σ _).Obeys
      (flagLaw n K (r.Lends w.state stack result) old) .redirected o w := by
  refine invoke_obeys_of_finish (Identity.makesProxies fun _ => trivial) hr target stack result ?_
  intro l m v params rest u pointers staged receiver u' answer v' hlinked hload hparams hprepare
  have hl := linkage?_of_linked hlinked
  have hmatches := Linkage.matches_of_link (link_of_linkage? hbound hr hl)
  have hflag {p : Property} {m : Marshaller}
      (hm : w.state.bridge.registry.resolve p = .ok m) (mask : UInt8) (hp : p.kind = .bool mask) :
      m = .bool := by
    unfold Registry.resolve Kind.tag at hm
    rw [hp] at hm
    split at hm
    · cases hm
      exact hbool _ ‹_›
    · cases hm
  -- What is done before the method has answered writes to the call's own storage only.
  cases answer with
  | error x =>
    refine .bind (report_moves _) fun _ _ _ _ => .bind (count_moves _ _) fun _ v _ _ => ?_
    refine .seq (y := []) ?_ fun _ _ _ => .fail
    show (edit (resetResult r.function l result) : Act σ Unit).Obeys _ _ _ v
    unfold resetResult
    cases hreturn : returnOf r.function l with
    | none => exact .edit (.note v.state.journal v.state.bridge.metrics) trivial
    | some pm =>
      cases result with
      | none => exact .edit (.note v.state.journal v.state.bridge.metrics) trivial
      | some place => exact resetAt_flags hK (.result hl hreturn rfl)
  | ok returned =>
    refine .seq (writeBack_obeys_of_toHost ?_) fun _ v _ => ?_
    · intro j param t hj ht hby foreign v
      rw [Nat.zero_add] at ht
      obtain ⟨harg, hproperty, hout⟩ := output_lent result
        (Loads.loaded ⟨_, hlinked, hload⟩) hl hprepare hj ht hby
      -- An output without an argument by reference stays in the place of its parameter.
      obtain hout | hlends := hout
      · refine Marshaller.toHost_obeys _ _ _ (hout.symm ▸ ?_)
        exact (hparams param (List.mem_of_getElem? hj)).1
      · obtain ⟨_, hbinds⟩ := hmatches.exists_binds harg
        obtain ⟨p, hp, -, hm⟩ := hbinds.property
        cases hproperty.symm.trans hp
        exact Marshaller.toHost_flags hK hlends (hflag hm) foreign
    · unfold copyResult
      split
      · rename_i p m value place hreturn
        obtain ⟨ret, hret, hp⟩ := Option.bind_eq_some_iff.1 hreturn
        obtain ⟨p', hp', hpm⟩ := Option.bind_eq_some_iff.1 hp
        cases hpm
        obtain ⟨p'', hp'', hm⟩ := hmatches.result ret hret
        cases hp'.symm.trans hp''
        refine .seq (Marshaller.unwrap_obeys _ _ _) fun a _ _ => ?_
        exact Marshaller.toHost_flags hK (.result hl hreturn rfl) (hflag hm) a
      · exact .pure trivial

end Redirection

/-! ## Every call -/

/-- Of the cells `K` only those have changed that outputs are lent, and where all these outputs are
flags only their bits have. -/
def State.OutputsOnly (K : Nat → Prop) (lent : Property → Address → Prop) (s s' : State) : Prop :=
  ∀ c, K c →
    ((∀ p i, ¬lent p (.cell c i)) → s'.memory.cells.get? c = s.memory.cells.get? c) ∧
    ((∀ p i, lent p (.cell c i) → ∃ mask, p.kind = .bool mask) →
      Option.Rel (Value.FlagsApart fun p i => lent p (.cell c i)) (s.memory.cells.get? c)
        (s'.memory.cells.get? c))

theorem State.FlagsApart.get?_eq {K : Nat → Prop} {lent : Property → Address → Prop} {s s' : State}
    (h : s.FlagsApart K lent s') {c : Nat} (hc : K c) (hn : ∀ p i, ¬lent p (.cell c i)) :
    s'.memory.cells.get? c = s.memory.cells.get? c := by
  have hcell := h c hc
  generalize s.memory.cells.get? c = old at hcell ⊢
  generalize s'.memory.cells.get? c = new at hcell ⊢
  cases hcell with
  | none => rfl
  | some h => rw [h.same hn]

namespace Sample

/-- A function that takes a flag by reference. -/
def clear : Redirector where
  function := ⟨"T", "Clear", ⟨true, true, true, false⟩,
    [⟨"Flag", .bool 4, 1, 1, 0, ⟨true, true, false, true, false⟩⟩], ⟨1, 1⟩⟩
  method := ⟨"G", ⟨"", "T", "Fill", some ["T"]⟩, [⟨"Flag", true, false⟩]⟩
  binding := .unbound
  depth := 0

/-- Registers the function, with a cell in which the flag has neighbours. -/
def clearing : Program Unit :=
  .ask (.redirect clear.function clear.method) fun _ =>
  .ask (.allot (.plain [.value 255])) fun _ => .done none

/-- What the caller finds in the cell after the call. -/
def cleared (w : World Unit) : Option Value :=
  match Redirection.invoke ("T", "Clear") clear none ⟨[⟨0, true⟩], 0⟩ none (callAt 2) w with
  | .ok (.ok (), _) v => some (v.state.valueAt (.ofCell 0))
  | _ => none

theorem run_clearing : endsIn 1 clearing throwingStart (fun w =>
      w.state.redirector? ("T", "Clear") == some clear && w.state.memory.next == 1 &&
      w.bodies.length == 16 && cleared w == some (.plain [.value 251])) = true := by
  decide +kernel

end Sample

end TwinHeap
