import TwinHeap.Proofs.Linking
import TwinHeap.Proofs.Placement

/-!
# Staging — what the method is passed

An argument is staged from the place of its own parameter, into its own region of the scratch memory.
As foreign code leaves the cells of the call alone while it goes on, each value is still where it was
loaded when it is passed, and everything that was passed is still as it was when the method is called.
-/

namespace TwinHeap

variable {σ : Type}

/-! ## One argument -/

namespace State

variable {K : Nat → Prop} {c lo n : Nat} {s : State}

@[simp] theorem length_readAt (s : State) (a : Address) (n : Nat) : (s.readAt a n).length = n := by
  unfold readAt
  split
  · exact Value.length_read _ _
  · split
    · exact Value.length_read _ _
    · exact List.length_replicate
  · exact List.length_replicate

/-- Writing octets touches these octets. -/
theorem touches_writeAt {os : List Octet} {offset : Nat}
    (hplain : ∃ old, s.memory.cells.get? c = some (.plain old)) (hn : os.length ≤ n) :
    Touches K c offset n s (s.writeAt (.cell c offset) os) := by
  obtain ⟨old, hold⟩ := hplain
  have hget (d : Nat) : (s.writeAt (.cell c offset) os).memory.cells.get? d =
      if c = d then (s.memory.cells.get? d).map fun v => v.splice offset os
      else s.memory.cells.get? d :=
    Table.get?_modify _ _ _ _
  refine touches_of_splice hold ?_ (fun d hd => ?_) hn
  · rw [hget, if_pos rfl, hold]
    rfl
  · rw [hget, if_neg (Ne.symm hd)]

end State

namespace Marshaller

open Act

variable {K : Nat → Prop} {n : Nat} {w v : World σ} {m : Marshaller} {p : Property}
  {host pointer : Address} {made : Option Address} {slot : Slot} {byRef : Bool}

/-- Presenting a value writes at most its staging record. -/
theorem present_touches
    (h : m.present p host slot (Invoker.guard (callAt n) K) w = .ok (pointer, made) v)
    (hK : ∀ c, K c → c < w.state.memory.next) (hs : K slot.cell)
    (hplain : ∃ os, w.state.memory.cells.get? slot.cell = some (.plain os)) :
    State.Touches K slot.cell (slot.offset + addressSize) m.scratchBytes w.state v.state := by
  have hquiet (hm : m.scratchBytes = 0) :
      State.Touches K slot.cell (slot.offset + addressSize) m.scratchBytes w.state v.state := by
    have hpresent : (m.present p host slot : Act σ _).Moves (guardLaw n K w.state) .plain []
        [] [] [] w _ :=
      present_moves (Identity.makesProxies fun _ => trivial) m p host
        fun hpos => absurd hm (Nat.ne_of_gt hpos)
    have hmoves := hpresent List.nil_suffix trivial trivial (.start hK)
    exact State.touches_of_keeps (hmoves.ok _ _ h).1.keeps hs
  -- Only these three write a record; the others write to nothing that is guarded.
  cases m with
  | name =>
    obtain ⟨_, _, hstate, h⟩ := ok_of_bind h
    cases hstate
    obtain ⟨_, _, hrecord, h⟩ := ok_of_bind h
    cases hrecord
    cases h
    exact State.touches_writeAt hplain (by simp [NameRecord.octets, wordOctets, scratchBytes])
  | text =>
    obtain ⟨_, _, hstate, h⟩ := ok_of_bind h
    cases hstate
    obtain ⟨_, _, hstring, h⟩ := ok_of_bind h
    cases hstring
    obtain ⟨_, _, hrecord, h⟩ := ok_of_bind h
    cases hrecord
    cases h
    have hstring : State.Touches K slot.cell (slot.offset + addressSize) 8 w.state
        (w.state.newString (w.state.textAt host)).2 :=
      State.touches_of_keeps (State.keeps_of_memory rfl) hs
    exact hstring.trans
      (State.touches_writeAt (hstring.plain hplain) (Nat.le_of_eq (Address.length_octets _)))
  | classRef =>
    obtain ⟨_, _, hstate, h⟩ := ok_of_bind h
    cases hstate
    obtain ⟨_, _, hrecord, h⟩ := ok_of_bind h
    cases hrecord
    cases h
    exact State.touches_writeAt hplain (by simp [scratchBytes, addressSize])
  | _ => exact hquiet rfl

/-- Passing a value writes to the region of its argument. -/
theorem pass_touches
    (h : m.pass p host slot byRef (Invoker.guard (callAt n) K) w = .ok (pointer, made) v)
    (hK : ∀ c, K c → c < w.state.memory.next) (hs : K slot.cell)
    (hplain : ∃ os, w.state.memory.cells.get? slot.cell = some (.plain os)) :
    State.Touches K slot.cell slot.offset m.slotSize w.state v.state := by
  obtain ⟨⟨presented, made'⟩, u, hpresent, h⟩ := ok_of_bind h
  have hu := present_touches hpresent hK hs hplain
  have hregion := slotSize_eq m
  cases byRef with
  | false =>
    cases h
    exact hu.mono (Nat.le_add_right _ _) (by omega)
  | true =>
    obtain ⟨_, u', hedit, h⟩ := ok_of_bind h
    cases hedit
    have hwrite : State.Touches K slot.cell slot.offset m.slotSize u.state
        (u.state.writeAt slot.pointer presented.octets) :=
      State.touches_writeAt (hu.plain hplain)
        (by rw [Address.length_octets, hregion]; exact Nat.le_add_right _ _)
    have hv : v = { u with state := u.state.writeAt slot.pointer presented.octets } := by
      split at h <;> cases h <;> rfl
    subst hv
    exact (hu.mono (Nat.le_add_right _ _) (by omega)).trans hwrite

end Marshaller

/-- The value that enters a call: what the caller supplied, or the default for an output. -/
def Value.entering (byRef : Bool) (p : Property) (src : Value) : Value :=
  if byRef then .default p else .loaded p src

namespace Redirection

open Act

/-- The cells of a call, from its block to its scratch memory. -/
def Own (block scratch : Nat) (c : Nat) : Prop := block ≤ c ∧ c ≤ scratch

/-- The parameters of a call lie between its block and its scratch memory. -/
structure Laid (block scratch : Nat) (params : List Parameter) (s : State) : Prop where
  order : block < scratch
  below : scratch < s.memory.next
  place : ∀ param ∈ params, param.property.inBlock = true ∧
      param.place = .cell block param.property.offset ∨
    param.property.inBlock = false ∧ ∃ c, param.place = .ofCell c ∧ block < c ∧ c < scratch
  apart : params.Pairwise Parameter.Apart
  block : ∃ os, s.memory.cells.get? block = some (.plain os)
  scratch : ∃ os, s.memory.cells.get? scratch = some (.plain os)

variable {block scratch n : Nat} {params : List Parameter} {s s' : State} {param : Parameter}

namespace Laid

theorem cell (h : Laid block scratch params s) (hp : param ∈ params) :
    ∃ c o, param.place = .cell c o ∧ block ≤ c ∧ c < scratch := by
  have := h.order
  obtain ⟨-, hplace⟩ | ⟨-, c, hplace, hle, hlt⟩ := h.place param hp
  · exact ⟨block, _, hplace, Nat.le_refl _, h.order⟩
  · exact ⟨c, 0, hplace, Nat.le_of_lt hle, hlt⟩

/-- The cells of the call are all that matters. -/
theorem of_memory (h : Laid block scratch params s) (hm : s'.memory = s.memory) :
    Laid block scratch params s' :=
  ⟨h.order, hm ▸ h.below, h.place, h.apart, hm ▸ h.block, hm ▸ h.scratch⟩

theorem own_scratch (h : Laid block scratch params s) : Own block scratch scratch :=
  ⟨Nat.le_of_lt h.order, Nat.le_refl _⟩

/-- The cells of the call stay what they are. -/
theorem touches (h : Laid block scratch params s) {c lo n : Nat}
    (ht : State.Touches (Own block scratch) c lo n s s') (hn : s.memory.next ≤ s'.memory.next) :
    Laid block scratch params s' := by
  have hplain {d : Nat} (hd : Own block scratch d)
      (hp : ∃ os, s.memory.cells.get? d = some (.plain os)) :
      ∃ os, s'.memory.cells.get? d = some (.plain os) := by
    by_cases hc : d = c
    · subst hc
      exact ht.plain hp
    · obtain ⟨os, hos⟩ := hp
      exact ⟨os, (ht.others d ⟨hd, hc⟩).trans hos⟩
  exact ⟨h.order, Nat.lt_of_lt_of_le h.below hn, h.place, h.apart,
    hplain ⟨Nat.le_refl _, Nat.le_of_lt h.order⟩ h.block, hplain h.own_scratch h.scratch⟩

/-- Different parameters do not overlap. -/
theorem apart_of_ne (h : Laid block scratch params s) {i j : Nat} {a b : Parameter} (hij : i ≠ j)
    (ha : params[i]? = some a) (hb : params[j]? = some b) : a.Apart b := by
  obtain ⟨hi, rfl⟩ := List.getElem?_eq_some_iff.1 ha
  obtain ⟨hj, rfl⟩ := List.getElem?_eq_some_iff.1 hb
  obtain hlt | hgt := Nat.lt_or_gt_of_ne hij
  · exact List.pairwise_iff_getElem.1 h.apart i j hi hj hlt
  · exact (List.pairwise_iff_getElem.1 h.apart j i hj hi hgt).symm

/-- What a parameter holds is left alone by what touches other octets only. -/
theorem holds (h : Laid block scratch params s) (hp : param ∈ params) {c lo n : Nat} {v : Value}
    (hh : s.Holds param.property param.place v)
    (ht : State.Touches (Own block scratch) c lo n s s')
    (hclear : ∀ o, param.place = .cell c o → param.property.inBlock = true ∧
      (o + param.property.extent ≤ lo ∨ lo + n ≤ o)) :
    s'.Holds param.property param.place v := by
  obtain ⟨d, o, hplace, hle, hlt⟩ := h.cell hp
  rw [hplace] at hh ⊢
  exact hh.of_touches ht ⟨hle, Nat.le_of_lt hlt⟩ fun hd => hclear o (hd ▸ hplace)

/-- Resetting a parameter touches nothing else. -/
theorem resetAt (h : Laid block scratch params s) (hp : param ∈ params) {src : Value}
    (hh : s.Holds param.property param.place (.loaded param.property src)) :
    (s.resetAt param.property param.place).Holds param.property param.place
        (.default param.property) ∧
      ∃ c o, param.place = .cell c o ∧ c ≠ scratch ∧
        State.Touches (Own block scratch) c o param.property.extent s
          (s.resetAt param.property param.place) := by
  obtain ⟨hin, hplace⟩ | ⟨hin, c, hplace, hle, hlt⟩ := h.place param hp
  · obtain ⟨os, hos⟩ := h.block
    rw [hplace] at hh ⊢
    obtain ⟨hdefault, htouch⟩ := State.resetAt_block (K := Own block scratch) hin hos hh
    exact ⟨hdefault, block, _, rfl, Nat.ne_of_lt h.order, htouch⟩
  · rw [hplace] at hh ⊢
    obtain ⟨hdefault, htouch⟩ := State.resetAt_own (K := Own block scratch) hin hh
    exact ⟨hdefault, c, 0, rfl, Nat.ne_of_lt hlt, htouch.mono (Nat.le_refl _) (Nat.le_add_right _ _)⟩

end Laid

/-- While foreign code leaves the cells of the call alone. -/
noncomputable abbrev guarded (n block scratch : Nat) : Invoker σ :=
  Invoker.guard (callAt n) (Own block scratch)

/-- One argument was passed: the world it was passed in, and the one it left. -/
structure Passes (call : Invoker σ) (scratch : Nat) (a : LinkedArg) (param : Parameter)
    (src : Value) (pointer : Address) (w v : World σ) : Prop where
  /-- The place of its parameter holds what enters the call. -/
  holds : w.state.Holds param.property param.place (.entering a.byRef param.property src)
  below : scratch < w.state.memory.next
  plain : ∃ os, w.state.memory.cells.get? scratch = some (.plain os)
  pass : ∃ made, a.marshaller.pass param.property param.place ⟨scratch, a.scratchOffset⟩ a.byRef
    call w = .ok (pointer, made) v

/-- Staging an argument passes the value of its parameter, and touches the places of both only. -/
theorem passes_of_stage {w v : World σ} {a : LinkedArg} {src : Value} {pointer : Address}
    {made : Option Address} (hL : Laid block scratch params w.state) (hp : param ∈ params)
    (hh : w.state.Holds param.property param.place (.loaded param.property src))
    (h : a.marshaller.stage param.property param.place ⟨scratch, a.scratchOffset⟩ a.byRef
      (guarded n block scratch) w = .ok (pointer, made) v) :
    ∃ u, Passes (guarded n block scratch) scratch a param src pointer u v ∧
      Laid block scratch params u.state ∧ w.state.Grows u.state ∧
      State.Touches (Own block scratch) scratch a.scratchOffset a.marshaller.slotSize
        u.state v.state ∧
      ∃ c o, param.place = .cell c o ∧ c ≠ scratch ∧
        State.Touches (Own block scratch) c o param.property.extent w.state u.state := by
  have hpass {u : World σ} (hu : Laid block scratch params u.state)
      (h : a.marshaller.pass param.property param.place ⟨scratch, a.scratchOffset⟩ a.byRef
        (guarded n block scratch) u = .ok (pointer, made) v) :
      State.Touches (Own block scratch) scratch a.scratchOffset a.marshaller.slotSize
        u.state v.state :=
    Marshaller.pass_touches h (fun c hc => Nat.lt_of_le_of_lt hc.2 hu.below) hu.own_scratch hu.scratch
  unfold Marshaller.stage at h
  cases hby : a.byRef with
  | false =>
    rw [hby] at h
    obtain ⟨c, o, hplace, hle, hlt⟩ := hL.cell hp
    refine ⟨w, ⟨?_, hL.below, hL.scratch, made, ?_⟩, hL, .refl _, hpass hL (hby ▸ h), c, o, hplace,
      Nat.ne_of_lt hlt, ?_⟩
    · rw [hby]
      exact hh
    · rw [hby]
      exact h
    · exact State.touches_of_keeps (.refl _) ⟨hle, Nat.le_of_lt hlt⟩
  | true =>
    rw [hby] at h
    obtain ⟨_, u, hedit, h⟩ := ok_of_bind h
    cases hedit
    -- An output is reset before it is passed, and is its default from there on.
    obtain ⟨hdefault, c, o, hplace, hne, htouch⟩ := hL.resetAt hp hh
    have hnext := (State.frameCells_storeAt w.state param.place
      ((w.state.valueAt param.place).reset param.property)).2
    have hu := hL.touches htouch (Nat.le_of_eq hnext.symm)
    refine ⟨_, ⟨?_, hu.below, hu.scratch, made, ?_⟩, hu, w.state.grows_storeAt _ _,
      hpass hu (hby ▸ h), c, o, hplace, hne, htouch⟩
    · rw [hby]
      exact hdefault
    · rw [hby]
      exact h

/-- What became of arguments that were staged one after the other. -/
structure Staged (call : Invoker σ) (block scratch : Nat) (params : List Parameter)
    (src : Nat → Value) (args : List LinkedArg) (w : World σ) (pointers : List Address)
    (v : World σ) : Prop where
  length : pointers.length = args.length
  /-- Each was passed from its parameter, which still holds what was passed; and its region of the
  scratch memory is still as it was left. -/
  passed : ∀ {j : Nat} {a : LinkedArg} {pointer : Address}, args[j]? = some a →
    pointers[j]? = some pointer → ∃ param u u', params[a.param]? = some param ∧
      Passes call scratch a param (src a.param) pointer u u' ∧
      v.state.Holds param.property param.place
        (.entering a.byRef param.property (src a.param)) ∧
      ∀ k, a.scratchOffset ≤ k → k < a.scratchOffset + a.marshaller.slotSize →
        (v.state.memory.get scratch).octetAt k = (u'.state.memory.get scratch).octetAt k
  /-- The parameters of other arguments hold what they held. -/
  others : ∀ {i : Nat} {param : Parameter} {value : Value}, params[i]? = some param →
    (∀ a ∈ args, a.param ≠ i) → w.state.Holds param.property param.place value →
    v.state.Holds param.property param.place value
  /-- The regions of other arguments are as they were. -/
  beside : ∀ k, (∀ a ∈ args, k < a.scratchOffset ∨ a.scratchOffset + a.marshaller.slotSize ≤ k) →
    (v.state.memory.get scratch).octetAt k = (w.state.memory.get scratch).octetAt k
  laid : Laid block scratch params v.state
  grows : w.state.Grows v.state
  /-- The boxing methods of every struct that was passed are remembered. -/
  met : ∀ a ∈ args, a.marshaller = .struct → ∀ param info, params[a.param]? = some param →
    param.property.structInfo = .ok info →
    ∃ f, v.state.bridge.factories.get? info.fullName = some f

theorem memory_rooted (made : Option Address) (w : World σ) :
    (rooted made w).state.memory = w.state.memory := by
  unfold rooted
  split
  · show (w.state.root _).memory = _
    unfold State.root
    split <;> rfl
  · rfl

theorem grows_rooted (made : Option Address) (w : World σ) : w.state.Grows (rooted made w).state := by
  unfold rooted
  split
  · exact w.state.grows_root _
  · exact .refl _

/-- What passing a value leaves behind apart from storage. -/
theorem Passes.settled {w v : World σ} {a : LinkedArg} {src : Value} {pointer : Address}
    (h : Passes (guarded n block scratch) scratch a param src pointer w v) :
    w.state.Grows v.state ∧ (a.marshaller = .struct → ∀ info, param.property.structInfo = .ok info →
      ∃ f, v.state.bridge.factories.get? info.fullName = some f) := by
  obtain ⟨made, hpass⟩ := h.pass
  have hgrows : (guarded n block scratch : Invoker σ).Grows :=
    (guardLaw n (Own block scratch) w.state).grows
  have hpasses : (a.marshaller.pass param.property param.place ⟨scratch, a.scratchOffset⟩ a.byRef :
      Act σ _).Moves (.free _ hgrows) .plain [] [] [] [] w _ :=
    Marshaller.pass_moves (Identity.makesProxies fun _ => trivial) _ _ _ trivial trivial _
  have hmoves := hpasses List.nil_suffix trivial trivial trivial
  exact (hmoves.ok _ _ hpass).2

/-- Every argument is passed from its own parameter, and none disturbs another. -/
theorem Stages.staged {w v : World σ} {src : Nat → Value} {args : List LinkedArg}
    {pointers : List Address} {staged : List StagedArg}
    (h : Stages (guarded n block scratch) params scratch args w pointers staged v)
    (hL : Laid block scratch params w.state) (hbound : ∀ a ∈ args, a.param < params.length)
    (hapart : args.Pairwise fun a b =>
      a.param ≠ b.param ∧ a.scratchOffset + a.marshaller.slotSize ≤ b.scratchOffset)
    (hholds : ∀ a ∈ args, ∀ param, params[a.param]? = some param →
      w.state.Holds param.property param.place (.loaded param.property (src a.param))) :
    Staged (guarded n block scratch) block scratch params src args w pointers v := by
  induction h with
  | nil => exact ⟨rfl, nofun, fun _ _ hh => hh, fun _ _ => rfl, hL, .refl _, nofun⟩
  | skip hparam =>
    obtain ⟨hlt, -⟩ := List.forall_mem_cons.1 hbound
    rw [List.getElem?_eq_getElem hlt] at hparam
    cases hparam
  | @cons a as w u v param pointer made pointers staged hparam hstage _ ih =>
    obtain ⟨-, hbounds⟩ := List.forall_mem_cons.1 hbound
    obtain ⟨ha, hapart⟩ := List.pairwise_cons.1 hapart
    obtain ⟨hheld, hhelds⟩ := List.forall_mem_cons.1 hholds
    have hmem := List.mem_of_getElem? hparam
    obtain ⟨x, hpasses, hLx, hgx, hslot, c, o, hplace, hne, htouch⟩ :=
      passes_of_stage hL hmem (hheld param hparam) hstage
    obtain ⟨hgu, hmet⟩ := hpasses.settled
    have hmemory := memory_rooted made u
    have hLu : Laid block scratch params (rooted made u).state :=
      (hLx.touches hslot hgu.next).of_memory hmemory
    have hroot : State.Touches (Own block scratch) scratch a.scratchOffset a.marshaller.slotSize
        x.state (rooted made u).state :=
      hslot.trans (State.touches_of_keeps (State.keeps_of_memory hmemory) hL.own_scratch)
    -- No parameter lies in the scratch memory.
    have hfar {b : Parameter} (hb : b ∈ params) {value : Value}
        (hh : x.state.Holds b.property b.place value) :
        (rooted made u).state.Holds b.property b.place value := by
      refine hLx.holds hb hh hroot fun o' hb' => ?_
      obtain ⟨d, o'', hplace', -, hlt⟩ := hL.cell hb
      cases hb'.symm.trans hplace'
      exact absurd hlt (Nat.lt_irrefl _)
    -- Other parameters are left alone while this one is reset.
    have hothers {i : Nat} {b : Parameter} (hi : i ≠ a.param) (hb : params[i]? = some b)
        {value : Value} (hh : w.state.Holds b.property b.place value) :
        (rooted made u).state.Holds b.property b.place value := by
      have hbmem := List.mem_of_getElem? hb
      refine hfar hbmem (hL.holds hbmem hh htouch fun o' hplace' => ?_)
      obtain ⟨hin, -, hrange⟩ := hL.apart_of_ne hi hb hparam c o' o hplace' hplace
      exact ⟨hin, hrange⟩
    have hrest := ih hLu hbounds hapart fun a' ha' param' hparam' =>
      hothers (Ne.symm (ha a' ha').1) hparam' (hhelds a' ha' param' hparam')
    refine ⟨congrArg (· + 1) hrest.length, ?_, ?_, ?_, hrest.laid, ?_, ?_⟩
    · intro j a' pointer' ha' hpointer
      cases j with
      | zero =>
        cases ha'
        cases hpointer
        refine ⟨param, x, u, hparam, hpasses, ?_, fun k hlo hhi => ?_⟩
        · exact hrest.others hparam (fun a' ha' => Ne.symm (ha a' ha').1) (hfar hmem hpasses.holds)
        · rw [hrest.beside k fun a' ha' => .inl (Nat.lt_of_lt_of_le hhi (ha a' ha').2), hmemory]
      | succ j => exact hrest.passed ha' hpointer
    · intro i b value hb hall hh
      obtain ⟨hi, hall⟩ := List.forall_mem_cons.1 hall
      exact hrest.others hb hall (hothers (Ne.symm hi) hb hh)
    · intro k hk
      obtain ⟨hk, hks⟩ := List.forall_mem_cons.1 hk
      have hreset : x.state.memory.get scratch = w.state.memory.get scratch := by
        unfold Memory.get
        rw [htouch.others scratch ⟨hL.own_scratch, Ne.symm hne⟩]
      rw [hrest.beside k hks, hroot.octets k hk, hreset]
    · exact ((hgx.trans hgu).trans (grows_rooted made u)).trans hrest.grows
    · refine List.forall_mem_cons.2 ⟨fun hstruct param' info hparam' hinfo => ?_, hrest.met⟩
      cases hparam.symm.trans hparam'
      obtain ⟨f, hf⟩ := hmet hstruct info hinfo
      exact ⟨f, ((grows_rooted made u).trans hrest.grows).factory _ _ hf⟩

/-! ## All that comes before the method -/

/-- What follows leaves the cells of the call alone. -/
theorem Staged.after {call : Invoker σ} {w v v' : World σ} {src : Nat → Value}
    {args : List LinkedArg} {pointers : List Address}
    (h : Staged call block scratch params src args w pointers v)
    (hk : v.state.Keeps (Own block scratch) v'.state) (hg : v.state.Grows v'.state) :
    Staged call block scratch params src args w pointers v' := by
  have htouch : State.Touches (Own block scratch) scratch 0 0 v.state v'.state :=
    State.touches_of_keeps hk h.laid.own_scratch
  have hheld {b : Parameter} (hb : b ∈ params) {value : Value}
      (hh : v.state.Holds b.property b.place value) : v'.state.Holds b.property b.place value := by
    refine h.laid.holds hb hh htouch fun o hplace => ?_
    obtain ⟨d, o', hplace', -, hlt⟩ := h.laid.cell hb
    cases hplace.symm.trans hplace'
    exact absurd hlt (Nat.lt_irrefl _)
  have hscratch (k : Nat) : (v'.state.memory.get scratch).octetAt k =
      (v.state.memory.get scratch).octetAt k := htouch.octets k (.inr (Nat.zero_le k))
  refine ⟨h.length, ?_, ?_, fun k hk => (hscratch k).trans (h.beside k hk),
    h.laid.touches htouch hg.next, h.grows.trans hg, ?_⟩
  · intro j a pointer ha hpointer
    obtain ⟨param, u, u', hparam, hpasses, hheld', hregion⟩ := h.passed ha hpointer
    exact ⟨param, u, u', hparam, hpasses, hheld (List.mem_of_getElem? hparam) hheld',
      fun k hlo hhi => (hscratch k).trans (hregion k hlo hhi)⟩
  · exact fun hparam hall hh => hheld (List.mem_of_getElem? hparam) (h.others hparam hall hh)
  · intro a ha hstruct param info hparam hinfo
    obtain ⟨f, hf⟩ := h.met a ha hstruct param info hparam hinfo
    exact ⟨f, hg.factory _ _ hf⟩

/-- Where calls are not guarded the same was passed. -/
theorem Passes.unguarded {w v : World σ} {a : LinkedArg} {src : Value} {pointer : Address}
    (h : Passes (guarded n block scratch) scratch a param src pointer w v) :
    Passes (callAt n) scratch a param src pointer w v := by
  obtain ⟨made, hpass⟩ := h.pass
  have hpasses : (a.marshaller.pass param.property param.place ⟨scratch, a.scratchOffset⟩ a.byRef :
      Act σ _).Obeys (.free _ (callAt_grows n)) .plain [] w :=
    Marshaller.pass_obeys (Identity.makesProxies fun _ => trivial) _ _ _ trivial trivial _
  have hobeys := hpasses List.nil_suffix trivial trivial trivial
  exact ⟨h.holds, h.below, h.plain, made,
    hobeys.strict.ok Failure.isFatal_exhausted (Invoker.guard_until _ _) hpass⟩

/-- The values that a caller supplies on a stack, by the parameters that they are for. -/
def supplied (ps : List Property) (stack : ArgStack) (s : State) (i : Nat) : Value :=
  ((stack.argFor ps i).map fun a => s.valueAt (.ofCell a.cell)).getD (.plain [])

/-- After loading, a call has its cells laid out. -/
theorem Placed.laid {ps : List Property} {stack : ArgStack} {w : World σ}
    (h : Placed block ps stack s params w.state) (hnext : s.memory.next = block + 1) :
    Laid block w.state.memory.next params (w.state.frameCell (.plain [])).2 := by
  have hmemory : (w.state.frameCell (.plain [])).2.memory = (w.state.memory.allot (.plain [])).2 :=
    rfl
  have hkeeps : w.state.Keeps (fun c => c < w.state.memory.next)
      (w.state.frameCell (.plain [])).2 := State.keeps_allot (fun c hc => hc) hmemory
  have hlt : block < w.state.memory.next := by
    have := h.next
    omega
  refine ⟨hlt, Nat.lt_succ_self _, fun param hp => ?_, h.apart, ?_, [], ?_⟩
  · have hplace := h.place param hp
    unfold InPlace at hplace
    split at hplace
    · exact .inl ⟨‹_›, hplace⟩
    · obtain ⟨c, hplace, hle, hlt⟩ := hplace
      exact .inr ⟨eq_false_of_ne_true ‹_›, c, hplace, by omega, hlt⟩
  · obtain ⟨os, hos⟩ := h.plain
    exact ⟨os, (hkeeps block hlt).trans hos⟩
  · rw [hmemory]
    show (w.state.memory.cells.insert _ _).get? _ = _
    rw [Table.get?_insert, if_pos rfl]

section Loaded

variable {key : Redirector.Key} {r : Redirector} {stack rest : ArgStack} {l : Linkage} {m : Nat}
  {w u v : World σ} {registry : Registry}

/-- A call that has loaded its parameters holds for each argument of its method what the caller
supplied. -/
theorem Loads.supplies {call : Invoker σ} (hloads : Loads call key r stack w l m params rest u)
    (ha : isPowerOfTwo (max r.function.block.align 1) = true)
    (hlength : stack.cursor + r.function.params.countP (fun p => !p.isReturn) ≤ stack.args.length)
    (hapart : r.function.Apart) (hargs : ∀ a ∈ stack.args, a.cell < w.state.memory.next)
    (hmatches : Linkage.Matches registry r.function r.method.args l) :
    Laid w.state.memory.next u.state.memory.next params (u.state.frameCell (.plain [])).2 ∧
      ∀ a ∈ l.args, ∃ param, params[a.param]? = some param ∧
        r.function.params[a.param]? = some param.property ∧
        (u.state.frameCell (.plain [])).2.Holds param.property param.place
          (.loaded param.property (supplied r.function.params stack w.state a.param)) := by
  obtain ⟨s, hplaced, hnext, hkeeps⟩ := hloads.placed ha hlength hapart hargs
  have hL := hplaced.laid hnext
  have hloaded := hloads.loaded
  refine ⟨hL, fun a hmem => ?_⟩
  obtain ⟨arg, hbinds⟩ := hmatches.exists_binds hmem
  obtain ⟨p, hp, hret, -⟩ := hbinds.property
  have hindex : a.param < params.length := by
    rw [← List.length_map (f := Parameter.property), hplaced.properties]
    exact (List.getElem?_eq_some_iff.1 hp).1
  have hparam := List.getElem?_eq_getElem hindex
  generalize params[a.param] = param at hparam
  obtain rfl : param.property = p := by
    rw [← hplaced.properties, List.getElem?_map, hparam] at hp
    exact Option.some.inj hp
  refine ⟨param, hparam, hp, ?_⟩
  have hout := hloaded.output hparam
  rw [if_neg (by simp [hret])] at hout
  obtain ⟨b, hb, -⟩ := hout
  -- What the caller supplied was not written to before the call was placed.
  have hvalue : supplied r.function.params stack w.state a.param = s.valueAt (.ofCell b.cell) := by
    unfold supplied
    rw [hb]
    exact (valueAt_of_keeps hkeeps (hargs b (ArgStack.mem_of_argFor hb))).symm
  have hold := hplaced.holds hparam hb
  obtain ⟨c, o, hplace, -, hlt⟩ := hL.cell (List.mem_of_getElem? hparam)
  rw [hvalue]
  rw [hplace] at hold ⊢
  exact hold.of_keeps (State.keeps_allot (fun c hc => hc) rfl) hlt

/-- Finding the receiver leaves the cells of the call alone. -/
theorem keeps_of_receiverOf {function : Function} {target receiver : Option Address}
    (hL : Laid block scratch params w.state)
    (h : receiverOf function target (guarded n block scratch) w = .ok receiver v) :
    w.state.Keeps (Own block scratch) v.state ∧ w.state.Grows v.state := by
  have hobeys := receiverOf_obeys (L := guardLaw n (Own block scratch) w.state) (o := []) (w := w)
    (Identity.makesProxies fun _ => trivial) function target
  have hstart : (guardLaw n (Own block scratch) w.state).holds [] w :=
    .start fun c hc => Nat.lt_of_le_of_lt hc.2 hL.below
  obtain ⟨hguards, hgrows, -⟩ := (hobeys List.nil_suffix trivial trivial hstart).ok _ _ h
  exact ⟨hguards.keeps, hgrows⟩

/-- A call that has loaded its parameters stages them and finds its receiver. -/
theorem staged_of_prepare {target receiver : Option Address} {pointers : List Address}
    {staged : List StagedArg} (hloads : Loads (callAt n) key r stack w l m params rest u)
    (ha : isPowerOfTwo (max r.function.block.align 1) = true)
    (hlength : stack.cursor + r.function.params.countP (fun p => !p.isReturn) ≤ stack.args.length)
    (hapart : r.function.Apart) (hargs : ∀ a ∈ stack.args, a.cell < w.state.memory.next)
    (hmatches : Linkage.Matches registry r.function r.method.args l)
    (h : prepare r.function l target params
      (guarded n w.state.memory.next u.state.memory.next) u = .ok (pointers, staged, receiver) v) :
    ∃ u₁, Staged (guarded n w.state.memory.next u.state.memory.next) w.state.memory.next
      u.state.memory.next params (supplied r.function.params stack w.state) l.args u₁ pointers v := by
  obtain ⟨hL, hheld⟩ := hloads.supplies ha hlength hapart hargs hmatches
  obtain ⟨u', hstages, hreceiver⟩ := stages_of_prepare h
  have hholds (a : LinkedArg) (ha : a ∈ l.args) (param : Parameter)
      (hparam : params[a.param]? = some param) :
      (u.state.frameCell (.plain [])).2.Holds param.property param.place
        (.loaded param.property (supplied r.function.params stack w.state a.param)) := by
    obtain ⟨param', hparam', -, hholds⟩ := hheld a ha
    cases hparam.symm.trans hparam'
    exact hholds
  have hstaged := hstages.staged hL (fun a ha => ?_) hmatches.apart hholds
  · obtain ⟨hkeeps, hgrows⟩ := keeps_of_receiverOf hstaged.laid hreceiver
    exact ⟨_, hstaged.after hkeeps hgrows⟩
  · obtain ⟨param, hparam, -⟩ := hheld a ha
    exact (List.getElem?_eq_some_iff.1 hparam).1

end Loaded

end Redirection

end TwinHeap
