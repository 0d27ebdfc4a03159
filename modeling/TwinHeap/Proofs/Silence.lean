import Mathlib.Data.List.Pairwise
import TwinHeap.Proofs.Exchange
import TwinHeap.Proofs.Hiding

/-!
# Silence — what a method is called with does not tell what its outputs held

Of two calls whose storage for outputs differs both load the same parameters, but for what they hold
(`Loads.alike`). Each output is reset before it is staged, and so in both calls the method is passed the
same pointers, and finds the same behind them (`prepare_follows`): only the storage of the callers is
left to differ.
-/

namespace TwinHeap

open Act

variable {σ : Type}

namespace Veil

/-- In the cells of `K` anything may differ. -/
def upon (K : Nat → Prop) : Veil := fun c v v' => K c ∨ v = v'

variable {K : Nat → Prop} {c : Nat}

theorem upon_admits (K : Nat → Prop) (c : Nat) : (upon K).Admits c := by
  intro f v v' hv
  exact hv.imp_right fun h => congrArg f h

theorem upon_shows (hc : ¬K c) : (upon K).Shows c := fun _ _ h => h.resolve_left hc

end Veil

/-- The cells that hold what the caller supplies for the parameters that are bound by reference. -/
def Linkage.Outlet (l : Linkage) (ps : List Property) (stack : ArgStack) (c : Nat) : Prop :=
  ∃ a ∈ l.args, a.byRef = true ∧ ∃ b, stack.argFor ps a.param = some b ∧ b.cell = c

namespace Redirection

variable {K : Nat → Prop} {s s' : State} {block scratch : Nat} {call call' : Invoker σ}
  {V : Veil} {params pending : List Parameter} {param : Parameter} {key : Redirector.Key}
  {r : Redirector} {stack rest : ArgStack} {l : Linkage} {m : Nat} {w w' u v : World σ}

/-- When all outputs are reset only the cells of `K` differ. -/
theorem upon_of_veil (c : Nat) (x x' : Value) (h : veil K s s' block [] c x x') :
    Veil.upon K c x x' := by
  by_cases hk : K c
  · exact .inl hk
  · exact .inr (eq_of_unsettled (h.2 hk))

/-! ## Loading -/

theorem linked_blind (key : Redirector.Key) (r : Redirector) :
    (linked key r : Act σ _).Blind V call call' := by
  unfold linked
  split
  · exact .pure _
  · exact .pure _
  · refine .state_bind (fun _ _ => rfl) fun s => .bind (.recordTiming _) fun _ => ?_
    cases r.resolve s.bridge.registry s.foreign with
    | ok found =>
      exact .bind (.report _) fun _ => .bind (.edit_aside fun _ _ => ⟨rfl, rfl⟩) fun _ => .pure _
    | error e =>
      exact .bind (.report _) fun _ => .bind (.count _ _) fun _ =>
        .bind (.edit_aside fun _ _ => ⟨rfl, rfl⟩) fun _ => .pure _

theorem checkFrame_blind (size align : Nat) :
    (checkFrame size align : Act σ Unit).Blind V call call' := by
  unfold checkFrame
  split
  · exact .pure _
  · exact .abandon _
  · exact .abandon _

theorem frameCell_blind (v : Value) : (editGet (·.frameCell v) : Act σ Nat).Blind V call call' :=
  .editGet fun _ _ h => h.frameCell v

theorem openFrame_blind (key : Redirector.Key) (r : Redirector) (l : Linkage) :
    (openFrame key r l : Act σ Nat).Blind V call call' :=
  .state_bind (fun _ _ => rfl) fun _ => .bind (.report _) fun _ => .bind (.count _ _) fun _ =>
    .bind (checkFrame_blind _ _) fun _ => .bind (checkFrame_blind _ _) fun _ => frameCell_blind _

theorem paramPlace_blind (block : Nat) (p : Property) :
    (paramPlace block p : Act σ Address).Blind V call call' := by
  unfold paramPlace
  split
  · exact .pure _
  · exact .pure _
  · exact .bind (frameCell_blind _) fun _ => .pure _

/-- Below the block only the cells in `K` differ. -/
theorem valueAt_of_below {c : Nat} (hw : w.Alike (veil K s s' block pending) w')
    (hplace : ∀ q ∈ pending, InCall block q) (hc : c < block) (hK : ¬K c) :
    w'.state.valueAt (.ofCell c) = w.state.valueAt (.ofCell c) := by
  have hshows : (veil K s s' block pending).Shows c := fun v v' hv =>
    eq_of_below hplace hc (hv.2 hK)
  exact congrArg (·.skip 0) (hw.state.get_of_shows hshows)

/-- Parameters are loaded alike, if those are still to be reset that are given different values. -/
theorem loadParams_alike {ps : List Property}
    (hrun : loadParams block ps stack call w = .ok (params, rest) v)
    (hw : w.Alike (veil K s s' block pending) w') (hK : ∀ c, K c → c < block)
    (hplace : ∀ q ∈ pending, InCall block q)
    (hparams : ∀ param ∈ params, InCall block param ∧ ∀ q ∈ pending, q = param ∨ param.Apart q)
    (hargs : ∀ {i : Nat} {param : Parameter} {a : StackArg}, params[i]? = some param →
      stack.argFor ps i = some a → a.cell < block ∧ (param ∈ pending ∨ ¬K a.cell)) :
    ∃ v', loadParams block ps stack call' w' = .ok (params, rest) v' ∧
      v.Alike (veil K s s' block pending) v' := by
  induction ps generalizing stack params w w' with
  | nil =>
    cases hrun
    exact ⟨w', rfl, hw⟩
  | cons p ps ih =>
    unfold loadParams at hrun ⊢
    -- Opening a place reads nothing of what may differ.
    obtain ⟨place, u, hpplace, hrun⟩ := Act.ok_of_bind hrun
    obtain ⟨u', hplace', hu⟩ : ∃ u', paramPlace block p call' w' = .ok place u' ∧
        u.Alike (veil K s s' block pending) u' := by
      have hfollows : Follows _ _ (paramPlace block p call w) (paramPlace block p call' w') :=
        paramPlace_blind block p hw
      rwa [hpplace] at hfollows
    rw [bind_of_ok hplace']
    cases hret : p.isReturn with
    | true =>
      rw [hret] at hrun
      obtain ⟨⟨params', rest'⟩, v₁, hrest, hrun⟩ := Act.ok_of_bind hrun
      cases hrun
      obtain ⟨v', hrest', hv⟩ := ih hrest hu (List.forall_mem_cons.1 hparams).2 fun hi ha =>
        hargs (i := _ + 1) hi ((ArgStack.argFor_succ_of_return hret _).trans ha)
      exact ⟨v', bind_of_ok hrest', hv⟩
    | false =>
      rw [hret] at hrun
      obtain ⟨⟨a, stack'⟩, u₁, hnext, hrun⟩ := Act.ok_of_bind hrun
      obtain ⟨_, u₂, hassign, hrun⟩ := Act.ok_of_bind hrun
      obtain ⟨⟨params', rest'⟩, v₁, hrest, hrun⟩ := Act.ok_of_bind hrun
      cases hrun
      cases hassign
      obtain ⟨hnext', rfl⟩ := ok_of_ofPanic hnext
      obtain ⟨ha, rfl⟩ := ArgStack.next_eq_ok.1 hnext'
      rw [hnext']
      obtain ⟨⟨hparam, hsep⟩, hothers⟩ := List.forall_mem_cons.1 hparams
      obtain ⟨hbelow, hsrc⟩ :=
        hargs (i := 0) rfl ((ArgStack.argFor_zero stack ps hret).trans ha)
      -- A place outside of the block is a cell that holds no octets.
      have hown (c : Nat) (hc : place = .ofCell c) (hin : p.inBlock = false) :
          ∃ v, u₁.state.memory.cells.get? c = some v ∧ v.isPlain = false := by
        obtain ⟨hin', -⟩ | ⟨-, rfl, hmemory⟩ := paramPlace_cases hpplace
        · rw [hin] at hin'
          cases hin'
        · cases hc
          refine ⟨.default p, ?_, Value.isPlain_default hin⟩
          rw [hmemory]
          show (w.state.memory.cells.insert _ _).get? _ = _
          rw [Table.get?_insert, if_pos rfl]
      -- The argument is the same in both, or its parameter is among those that are still to be reset.
      have hassign := alike_assignAt hu.state hK hparam hplace hsep hown
        (hsrc.imp_right fun hK => (valueAt_of_below hu hplace hbelow hK).symm)
      obtain ⟨v', hrest', hv⟩ := ih hrest (hu.withState hassign) hothers fun hi ha =>
        hargs (i := _ + 1) hi ((ArgStack.argFor_succ hret _).trans ha)
      exact ⟨v', bind_of_ok hrest', hv⟩

/-- What differs only in `K` differs in what is found there. -/
theorem alike_veil (h : s.Alike (.upon K) s') (hK : ∀ c, K c → c < s.memory.next) :
    s.Alike (veil K s s' block pending) s' := by
  obtain ⟨cells, hcells, -⟩ := h
  refine ⟨cells, fun c => ?_, fun c hc v => ⟨fun hk => ?_, fun _ => .inl rfl⟩⟩
  · have hrel := hcells c
    unfold veil Veil.covering
    show Option.Rel (fun v v' => (K c → s.memory.cells.get? c = some v ∧ cells.get? c = some v') ∧
      (¬K c → unsettled block pending c v v')) (s.memory.cells.get? c) (cells.get? c)
    generalize s.memory.cells.get? c = x at hrel ⊢
    generalize cells.get? c = x' at hrel ⊢
    cases hrel with
    | none => exact .none
    | some hv => exact .some ⟨fun _ => ⟨rfl, rfl⟩, fun hk => .inl (hv.resolve_left hk)⟩
  · have := hK c hk
    omega

theorem mem_outputsOf {args : List LinkedArg} :
    param ∈ outputsOf params args ↔
      ∃ a ∈ args, a.byRef = true ∧ params[a.param]? = some param := by
  unfold outputsOf
  rw [List.mem_filterMap]
  refine exists_congr fun a => and_congr_right fun _ => ?_
  cases a.byRef <;> simp

/-- Where two calls differ in nothing but what the caller supplies for outputs, both load the same
parameters, and these differ in nothing but the outputs. -/
theorem Loads.alike (h : Loads call key r stack w l m params rest u)
    (halign : isPowerOfTwo (max r.function.block.align 1) = true)
    (hlength : stack.cursor + r.function.params.countP (fun p => !p.isReturn) ≤ stack.args.length)
    (hapart : r.function.Apart) (hcells : ∀ a ∈ stack.args, a.cell < w.state.memory.next)
    (hw : w.Alike (.upon K) w') (hK : ∀ c, K c → c < w.state.memory.next)
    (hbeside : ∀ {i : Nat} {b : StackArg}, stack.argFor r.function.params i = some b → K b.cell →
      ∃ a ∈ l.args, a.byRef = true ∧ a.param = i) :
    ∃ u', Loads call' key r stack w' l m params rest u' ∧
      u.Alike (veil K w.state w'.state w.state.memory.next (outputsOf params l.args)) u' := by
  obtain ⟨s₀, hplaced, hnext, -⟩ := h.placed halign hlength hapart hcells
  have hinCall (param : Parameter) (hp : param ∈ params) : InCall w.state.memory.next param := by
    have hplace := hplaced.place param hp
    unfold InPlace at hplace
    split at hplace
    · exact .inl ⟨‹_›, hplace⟩
    · obtain ⟨c, hplace, hle, -⟩ := hplace
      exact .inr ⟨eq_false_of_ne_true ‹_›, c, hplace, by omega⟩
  have hmem (q : Parameter) (hq : q ∈ outputsOf params l.args) : q ∈ params := by
    obtain ⟨a, -, -, hq⟩ := mem_outputsOf.1 hq
    exact List.mem_of_getElem? hq
  have hsep (param : Parameter) (hp : param ∈ params) (q : Parameter)
      (hq : q ∈ outputsOf params l.args) : q = param ∨ param.Apart q := by
    have hsymm : Std.Symm Parameter.Apart := ⟨fun _ _ h => h.symm⟩
    by_cases hne : q = param
    · exact .inl hne
    · exact .inr (hplaced.apart.forall hp (hmem q hq) (Ne.symm hne))
  obtain ⟨v, hlinked, hload⟩ := h
  -- Before anything is loaded, the veil hides nothing more than the cells of the outputs.
  have hveil : w.Alike (veil K w.state w'.state w.state.memory.next (outputsOf params l.args)) w' :=
    hw.withState (alike_veil hw.state hK)
  have hlinks : Follows _ _ (linked key r call w) (linked key r call' w') := linked_blind key r hveil
  rw [hlinked] at hlinks
  obtain ⟨v', hlinked', hv⟩ := hlinks
  have henter := hv.withState (hv.state.aside (f := (·.enter key)) fun _ _ => ⟨rfl, rfl⟩)
  rw [load_eq] at hload
  obtain ⟨block, x, hopen, hparams⟩ := Act.ok_of_bind hload
  have hopens : Follows _ _ (openFrame key r l call { v with state := v.state.enter key })
    (openFrame key r l call' { v' with state := v'.state.enter key }) := openFrame_blind key r l henter
  rw [hopen] at hopens
  obtain ⟨x', hopen', hx⟩ := hopens
  obtain rfl : block = w.state.memory.next := by
    have hends : Ends (openFrame key r l call { v with state := v.state.enter key }) _ _ :=
      ends_openFrame halign
    rw [hopen] at hends
    exact hends.1.trans (congrArg Memory.next (apart_of_linked hlinked).1)
  have hargs {i : Nat} {param : Parameter} {a : StackArg} (hi : params[i]? = some param)
      (ha : stack.argFor r.function.params i = some a) :
      a.cell < w.state.memory.next ∧ (param ∈ outputsOf params l.args ∨ ¬K a.cell) := by
    refine ⟨hcells a (ArgStack.mem_of_argFor ha), ?_⟩
    by_cases hk : K a.cell
    · obtain ⟨b, hb, hby, rfl⟩ := hbeside ha hk
      exact .inl (mem_outputsOf.2 ⟨b, hb, hby, hi⟩)
    · exact .inr hk
  obtain ⟨u', hload', hu⟩ := loadParams_alike hparams hx hK (fun q hq => hinCall q (hmem q hq))
    (fun param hp => ⟨hinCall param hp, hsep param hp⟩) hargs
  refine ⟨u', ⟨v', hlinked', ?_⟩, hu⟩
  rw [load_eq]
  exact (Act.bind_of_ok hopen').trans hload'

/-! ## Staging -/

section Staging

variable {s₁ s₁' s₀ : State} {a : LinkedArg} {args : List LinkedArg}

theorem Laid.inCall (h : Laid block scratch params s) (hp : param ∈ params) :
    InCall block param := by
  obtain ⟨hin, hplace⟩ | ⟨hin, c, hplace, hlt, -⟩ := h.place param hp
  · exact .inl ⟨hin, hplace⟩
  · exact .inr ⟨hin, c, hplace, hlt⟩

/-- What the bridge looks at in a parameter that is not to be reset any more is the same. -/
theorem glance_eq {m : Marshaller} (h : s₁.Alike (veil K s s' block pending) s₁')
    (hK : ∀ c, K c → c < block) (hparam : InCall block param)
    (hplace : ∀ q ∈ pending, InCall block q) (hbeside : ∀ q ∈ pending, param.Apart q)
    (hm : Marshaller.ofTag param.property.kind.tag = some m)
    (hsize : param.property.size = param.property.kind.hostLayout.size) :
    m.glance s₁' param.place = m.glance s₁ param.place := by
  have hread (hin : param.property.inBlock = true) {n : Nat} (hn : n ≤ param.property.extent) :
      s₁'.readAt param.place n = s₁.readAt param.place n := by
    obtain ⟨-, hcell⟩ | ⟨hin', -⟩ := hparam
    · rw [hcell]
      refine Value.read_eq_iff.2 fun k hk => ?_
      rw [Value.octetAt_skip, Value.octetAt_skip]
      -- The cell of the block differs at most in the octets of those that are to be reset, and the
      -- parameter lies beside them.
      obtain hsame | hv := h.get block
      · rw [hsame]
      · refine (octetAt_of_beside hplace hcell hbeside (hv.2 fun hk => ?_) (Nat.le_add_right _ _)
          (by omega)).symm
        exact Nat.lt_irrefl _ (hK block hk)
    · rw [hin] at hin'
      cases hin'
  have htext (hin : param.property.inBlock = false) : s₁'.textAt param.place = s₁.textAt param.place := by
    obtain ⟨hin', -⟩ | ⟨-, c, hcell, hlt⟩ := hparam
    · rw [hin] at hin'
      cases hin'
    · have hshows : (veil K s s' block pending).Shows c := fun v v' hv =>
        eq_of_beside hcell hin hbeside hplace (hv.2 fun hk => Nat.lt_asymm hlt (hK c hk))
      rw [hcell]
      exact congrArg (fun v : Value => (v.skip 0).text) (h.get_of_shows hshows)
  have hplain (hs : param.property.kind.storage = .plain) :
      param.property.inBlock = true ∧ param.property.extent = param.property.size :=
    ⟨Property.inBlock_of_plain hs, Property.extent_of_plain hs⟩
  have hown (hs : param.property.kind.storage = .string) : param.property.inBlock = false := by
    unfold Property.inBlock
    rw [hs]
  unfold Marshaller.glance
  cases hkind : param.property.kind <;> rw [hkind] at hm hsize hplain hown <;> cases hm
  case name | object | classRef =>
    obtain ⟨hin, hextent⟩ := hplain rfl
    exact congrArg (·, "") (hread hin (Nat.le_of_eq (hextent.trans hsize).symm))
  case text | string => exact congrArg (([] : List Octet), ·) (htext (hown rfl))
  all_goals rfl

/-- No parameter lies in the scratch memory, so nothing of it is hidden. -/
theorem admits_scratch (hL : Laid block scratch params s₀) (hK : ∀ c, K c → c < block)
    (hpending : ∀ q ∈ pending, q ∈ params) : (veil K s s' block pending).Admits scratch := by
  have hlend : ¬K scratch := fun hk => Nat.lt_asymm hL.order (hK scratch hk)
  have hshows : (veil K s s' block pending).Shows scratch := by
    refine fun v v' hv => eq_of_unsettled (unsettled_mono (fun q hq => hL.inCall (hpending q hq))
      (fun q hq => .inr fun o hcell => ?_) (hv.2 hlend))
    obtain ⟨c, o', hplace, -, hlt⟩ := hL.cell (hpending q hq)
    cases hcell.symm.trans hplace
    exact Nat.lt_irrefl _ hlt
  exact hshows.admits fun v => ⟨fun hk => absurd hk hlend, fun _ => .inl rfl⟩

/-- Every argument is served by the marshaller of its kind, and its parameter is as large as the host
stores that. -/
def Fitting (params : List Parameter) (args : List LinkedArg) : Prop :=
  ∀ a ∈ args, ∀ param, params[a.param]? = some param →
    Marshaller.ofTag param.property.kind.tag = some a.marshaller ∧
      param.property.size = param.property.kind.hostLayout.size

/-- One argument is staged alike, as those that are still to be reset are not its own. -/
theorem stage_follows (hL : Laid block scratch params s₀) (hK : ∀ c, K c → c < block)
    (hparam : params[a.param]? = some param) (hfit : Fitting params [a])
    (hdistinct : ∀ b ∈ args, a.param ≠ b.param)
    (hcalls : (a.marshaller.stage param.property param.place ⟨scratch, a.scratchOffset⟩ a.byRef :
      Act σ _).OnlyCalls call w (call.Overlooks (veil K s s' block (outputsOf params args))))
    (hw : w.Alike (veil K s s' block (outputsOf params (a :: args))) w') :
    Follows (veil K s s' block (outputsOf params args)) (veil K s s' block (outputsOf params args))
      (a.marshaller.stage param.property param.place ⟨scratch, a.scratchOffset⟩ a.byRef call w)
      (a.marshaller.stage param.property param.place ⟨scratch, a.scratchOffset⟩ a.byRef call w') := by
  have hmem := List.mem_of_getElem? hparam
  have hpending (args : List LinkedArg) (q : Parameter) (hq : q ∈ outputsOf params args) :
      q ∈ params := by
    obtain ⟨b, -, -, hq⟩ := mem_outputsOf.1 hq
    exact List.mem_of_getElem? hq
  have hplace (args : List LinkedArg) (q : Parameter) (hq : q ∈ outputsOf params args) :
      InCall block q := hL.inCall (hpending args q hq)
  have hbeside (q : Parameter) (hq : q ∈ outputsOf params args) : param.Apart q := by
    obtain ⟨b, hb, -, hq⟩ := mem_outputsOf.1 hq
    exact hL.apart_of_ne (hdistinct b hb) hparam hq
  -- The argument itself differs no more, as an input or because it has been reset.
  obtain ⟨hm, hsize⟩ := hfit a List.mem_cons_self param hparam
  have hpass (call' : Invoker σ)
      (hc : Invoker.Blind (veil K s s' block (outputsOf params args)) call' call) :
      (a.marshaller.pass param.property param.place ⟨scratch, a.scratchOffset⟩ a.byRef : Act σ _).Blind
        (veil K s s' block (outputsOf params args)) call' call :=
    Marshaller.pass_blind hc (admits_scratch hL hK (hpending args))
      (fun _ _ h => glance_eq h hK (hL.inCall hmem) (hplace args) hbeside hm hsize) _
  unfold Marshaller.stage at hcalls ⊢
  cases hby : a.byRef with
  | false =>
    rw [hby] at hcalls hpass
    have houtputs : outputsOf params (a :: args) = outputsOf params args := by
      unfold outputsOf
      rw [List.filterMap_cons, hby]
      rfl
    rw [houtputs] at hw
    exact Act.OnlyCalls.follows hcalls hpass hw
  | true =>
    rw [hby] at hcalls hpass
    have houtputs : outputsOf params (a :: args) = param :: outputsOf params args := by
      unfold outputsOf
      rw [List.filterMap_cons, hby, if_pos rfl, hparam]
    rw [houtputs] at hw
    have hreset := hw.withState (alike_resetAt hw.state hK (hL.inCall hmem)
      (List.forall_mem_cons.2 ⟨hL.inCall hmem, hplace args⟩)
      (List.forall_mem_cons.2 ⟨.inl rfl, fun q hq => .inr (hbeside q hq)⟩)
      (List.forall_mem_cons.2 ⟨.inl rfl, fun q hq => .inr hq⟩))
    exact Act.OnlyCalls.follows (w := { w with state := w.state.resetAt param.property param.place })
      hcalls hpass hreset

/-- While arguments are staged, the foreign code that is called for each takes no notice of what is
hidden then, with the ones after it still to be staged. -/
def Discreet (call : Invoker σ) (hidden : List LinkedArg → Veil) (params : List Parameter)
    (scratch : Nat) (args : List LinkedArg) (w : World σ) : Prop :=
  ∀ before a after param pointers staged v, args = before ++ a :: after →
    Stages call params scratch before w pointers staged v → params[a.param]? = some param →
    (a.marshaller.stage param.property param.place ⟨scratch, a.scratchOffset⟩ a.byRef :
      Act σ _).OnlyCalls call v (call.Overlooks (hidden after))

/-- When all arguments have been staged, no parameter differs any more. -/
theorem stageArgs_follows (hL : Laid block scratch params s₀) (hK : ∀ c, K c → c < block)
    (hfit : Fitting params args) (hdistinct : args.Pairwise fun a b => a.param ≠ b.param)
    (hcalls : Discreet call (fun args => veil K s s' block (outputsOf params args)) params scratch
      args w)
    (hw : w.Alike (veil K s s' block (outputsOf params args)) w') :
    Follows (veil K s s' block []) .any (stageArgs params scratch args call w)
      (stageArgs params scratch args call w') := by
  induction args generalizing w w' with
  | nil => exact .ok hw
  | cons a args ih =>
    obtain ⟨hne, hdistinct⟩ := List.pairwise_cons.1 hdistinct
    obtain ⟨hfitting, hfit⟩ := List.forall_mem_cons.1 hfit
    unfold stageArgs
    cases hparam : params[a.param]? with
    | none =>
      -- No parameter is lent for this argument, so none is reset for it.
      have houtputs : outputsOf params (a :: args) = outputsOf params args := by
        unfold outputsOf
        rw [List.filterMap_cons, hparam]
        cases a.byRef <;> rfl
      rw [houtputs] at hw
      refine ih hfit hdistinct (fun before b after param pointers staged v hargs hstages => ?_) hw
      exact hcalls (a :: before) b after param pointers staged v (congrArg (a :: ·) hargs)
        (.skip hparam hstages)
    | some param =>
      have hstage := stage_follows hL hK hparam (List.forall_mem_singleton.2 hfitting) hne
        (hcalls [] a args param [] [] w rfl .nil hparam) hw
      refine .bind (hstage.mono (fun _ _ _ h => h) (Veil.le_any _)) ?_
      rintro ⟨pointer, made⟩ u u' hu hlike
      -- Rooting what was made is outside of what the veil covers.
      have hroot : (rooted made u).Alike (veil K s s' block (outputsOf params args)) (rooted made u') := by
        cases made with
        | none => exact hlike
        | some object => exact hlike.withState (hlike.state.aside (State.aside_root object))
      have hdiscreet : Discreet call (fun args => veil K s s' block (outputsOf params args)) params
          scratch args (rooted made u) :=
        fun before b after param' pointers staged v hargs hstages =>
          hcalls (a :: before) b after param' (pointer :: pointers) (_ :: staged) v
            (congrArg (a :: ·) hargs) (.cons hparam hu hstages)
      let consed (rest : List Address × List StagedArg) : Act σ (List Address × List StagedArg) :=
        pure (pointer :: rest.1, ⟨a, ⟨scratch, a.scratchOffset⟩⟩ :: rest.2)
      have hrest : Follows (veil K s s' block []) .any
          ((stageArgs params scratch args >>= consed) call (rooted made u))
          ((stageArgs params scratch args >>= consed) call (rooted made u')) :=
        .bind (ih hfit hdistinct hdiscreet hroot) fun _ _ _ _ h => .ok h
      cases made <;> exact hrest

/-- The foreign code that is called before the method takes no notice of what is hidden then. -/
structure Unnoticed (call : Invoker σ) (hidden : List LinkedArg → Veil) (function : Function)
    (target : Option Address) (l : Linkage) (params : List Parameter) (u : World σ) : Prop where
  staging : Discreet call hidden params u.state.memory.next l.args
    { u with state := (u.state.frameCell (.plain [])).2 }
  receiver : ∀ pointers staged v, Stages call params u.state.memory.next l.args
    { u with state := (u.state.frameCell (.plain [])).2 } pointers staged v →
    (receiverOf function target : Act σ _).OnlyCalls call v (call.Overlooks (hidden []))

/-- Before its method is called, a call finds the same receiver and passes the same pointers, and no
parameter differs any more. -/
theorem prepare_follows {function : Function} {target : Option Address}
    (hL : Laid block w.state.memory.next params s₀) (hK : ∀ c, K c → c < block)
    (hfit : Fitting params l.args) (hdistinct : l.args.Pairwise fun a b => a.param ≠ b.param)
    (hunnoticed : Unnoticed call (fun args => veil K s s' block (outputsOf params args)) function
      target l params w)
    (hw : w.Alike (veil K s s' block (outputsOf params l.args)) w') :
    Follows (veil K s s' block []) .any (prepare function l target params call w)
      (prepare function l target params call w') := by
  have hcell : Follows (veil K s s' block (outputsOf params l.args)) .any
      (editGet (·.frameCell (.plain [])) call w) (editGet (·.frameCell (.plain [])) call w') :=
    (frameCell_blind (.plain []) hw).mono (fun _ _ _ h => h) (Veil.le_any _)
  refine .bind hcell fun scratch u u' hu hlike => ?_
  cases hu
  refine .bind (stageArgs_follows hL hK hfit hdistinct hunnoticed.staging hlike) ?_
  rintro ⟨pointers, staged⟩ v v' hv hlike
  have hfind (call' : Invoker σ) (hc : Invoker.Blind (veil K s s' block []) call' call) :
      (receiverOf function target : Act σ _).Blind (veil K s s' block []) call' call := by
    unfold receiverOf
    split
    · split
      · exact .pure _
      · exact .bind (Identity.proxyFor_blind hc _) fun _ => .pure _
    · exact .pure _
  have hreceive := Act.OnlyCalls.follows
    (hunnoticed.receiver pointers staged v (stages_of_stageArgs hv)) hfind hlike
  exact .bind (hreceive.mono (fun _ _ _ h => h) (Veil.le_any _)) fun _ _ _ _ h => .ok h

end Staging

end Redirection

end TwinHeap
