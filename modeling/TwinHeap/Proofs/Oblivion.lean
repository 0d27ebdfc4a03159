import TwinHeap.Proofs.Concord

/-!
# Oblivion — outputs carry nothing in

Two calls that differ in nothing but what the storage held which the caller supplies for their outputs
pass the same to their method. If it then does the same they end alike, and leave the same in the
storage that they were lent, apart from bits beside those of packed bools
(`outputs_carry_nothing_in`).
-/

namespace TwinHeap

variable {σ : Type}

namespace Linkage

/-- The call copies the output of a property back to a cell: its argument is bound by reference, and the
caller passes the cell by reference. -/
def Receives (l : Linkage) (ps : List Property) (stack : ArgStack) (c : Nat) (p : Property) : Prop :=
  ∃ a ∈ l.args, a.byRef = true ∧ ps[a.param]? = some p ∧ stack.argFor ps a.param = some ⟨c, true⟩

/-- For each property that the cell receives, and that it held a value of both in `s` and in `s'`, it
holds the same in `t` and in `t'`. -/
def Settles (l : Linkage) (ps : List Property) (stack : ArgStack) (c : Nat) (s s' t t' : State) :
    Prop :=
  ∀ p, l.Receives ps stack c p →
    (∀ v, s.memory.cells.get? c = some v → v.isPlain = p.inBlock) →
    (∀ v, s'.memory.cells.get? c = some v → v.isPlain = p.inBlock) →
    Option.Rel (Value.SameFor p) (t.memory.cells.get? c) (t'.memory.cells.get? c)

/-- Where the cell receives nothing but flags, only their bits in it have changed. -/
def KeepsBits (l : Linkage) (ps : List Property) (stack : ArgStack) (c : Nat) (s t : State) : Prop :=
  (∀ p, l.Receives ps stack c p → ∃ mask, p.kind = .bool mask) →
    ∀ z, t.memory.cells.get? c = some z → ∃ v, s.memory.cells.get? c = some v ∧
      v.FlagsApart (fun p i => i = 0 ∧ l.Receives ps stack c p) z

end Linkage

namespace State.Alike

variable {V : Veil} {s s' : State}

theorem discards (h : s.Alike V s') (cells : List Nat) :
    { s with memory := cells.foldl Memory.discard s.memory }.Alike V
      { s' with memory := cells.foldl Memory.discard s'.memory } := by
  induction cells generalizing s s' with
  | nil => exact h
  | cons c cells ih => exact ih (h.discard c)

/-- The innermost call is left alike. -/
theorem leave (h : s.Alike V s') (key : Redirector.Key) : (s.leave key).Alike V (s'.leave key) := by
  have hleft := h.aside (f := (·.modifyRedirector key fun r => { r with depth := r.depth - 1 }))
    fun _ _ => ⟨rfl, rfl⟩
  unfold State.leave
  dsimp only
  generalize s.modifyRedirector key _ = s at hleft ⊢
  generalize s'.modifyRedirector key _ = s' at hleft ⊢
  rw [hleft.bridge, hleft.heap]
  cases s.bridge.frames with
  | nil => exact hleft
  | cons frame frames =>
    have hdone := (hleft.discards frame.cells).aside (f := fun u : State => { u with
      foreign := { u.foreign with
        heap := frame.roots.foldl (fun h (g : Grip) => (g.release h).2) u.heap }
      bridge := { u.bridge with frames := frames } }) fun _ _ => ⟨rfl, rfl⟩
    obtain ⟨cells, -, -⟩ := hleft
    exact hdone

end State.Alike

namespace Redirection

open Act

variable {K : Nat → Prop} {V : Veil} {call call' : Invoker σ} {key : Redirector.Key}
  {r : Redirector} {stack rest : ArgStack} {l : Linkage} {m n c : Nat} {params : List Parameter}
  {target result : Option Address} {registry : Registry} {w w' u u' v₀ : World σ}

/-! ## From the start to the end -/

/-- Two calls that differ in outputs only both load their parameters, or are both too large. -/
theorem loads_or_overflow_alike (hlinked : linked key r call w = .ok (.ok (l, m)) v₀)
    (halign : isPowerOfTwo (max r.function.block.align 1) = true)
    (hlength : stack.cursor + r.function.params.countP (fun p => !p.isReturn) ≤ stack.args.length)
    (hapart : r.function.Apart) (hcells : ∀ a ∈ stack.args, a.cell < w.state.memory.next)
    (hw : w.Alike (.upon K) w') (hK : ∀ c, K c → c < w.state.memory.next)
    (hbeside : ∀ {i : Nat} {b : StackArg}, stack.argFor r.function.params i = some b → K b.cell →
      ∃ a ∈ l.args, a.byRef = true ∧ a.param = i) (target result : Option Address) :
    (∃ o v v', invoke key r target stack result call w = .error (.panic (.overflow o)) v ∧
      invoke key r target stack result call w' = .error (.panic (.overflow o)) v') ∨
    ∃ params rest u u', Loads call key r stack w l m params rest u ∧
      Loads call key r stack w' l m params rest u' ∧
      u.Alike (veil K w.state w'.state w.state.memory.next (outputsOf params l.args)) u' := by
  have hlinks : Follows _ _ (linked key r call w) (linked key r call w') := linked_blind key r hw
  rw [hlinked] at hlinks
  obtain ⟨v₀', hlinked', hv⟩ := hlinks
  have henter := hv.withState (hv.state.aside (f := (·.enter key)) fun _ _ => ⟨rfl, rfl⟩)
  have hopens : Follows _ _ (openFrame key r l call { v₀ with state := v₀.state.enter key })
    (openFrame key r l call { v₀' with state := v₀'.state.enter key }) := openFrame_blind key r l henter
  -- Whether its memory is too large depends on the function, and not on what the storage holds.
  cases hopen : openFrame key r l call { v₀ with state := v₀.state.enter key } with
  | ok block x =>
    obtain ⟨⟨params, rest⟩, u, hparams⟩ :
        ∃ loaded u, loadParams block r.function.params stack call x = .ok loaded u := by
      have hends : Ends (loadParams block r.function.params stack call x) _ _ :=
        ends_loadParams hlength
      cases hparams : loadParams block r.function.params stack call x with
      | ok loaded u => exact ⟨loaded, u, rfl⟩
      | error f u => rw [hparams] at hends; exact hends.elim
    have hloads : Loads call key r stack w l m params rest u :=
      ⟨v₀, hlinked, by rw [load_eq]; exact (bind_of_ok hopen).trans hparams⟩
    obtain ⟨u', hloads', hu⟩ := hloads.alike halign hlength hapart hcells hw hK hbeside
    exact .inr ⟨params, rest, u, u', hloads, hloads', hu⟩
  | error f x =>
    obtain ⟨o, rfl⟩ : ∃ o, f = .panic (.overflow o) := by
      have hends : Ends (openFrame key r l call { v₀ with state := v₀.state.enter key }) _ _ :=
        ends_openFrame halign
      rw [hopen] at hends
      exact hends
    rw [hopen] at hopens
    obtain ⟨x', hopen', -⟩ := hopens (by rintro ⟨⟩)
    have hfails {call : Invoker σ} {w v x : World σ} (hlinked : linked key r call w = .ok (.ok (l, m)) v)
        (hopen : openFrame key r l call { v with state := v.state.enter key } =
          .error (.panic (.overflow o)) x) :
        invoke key r target stack result call w =
          .error (.panic (.overflow o)) { x with state := x.state.leave key } := by
      rw [Redirection.invoke_eq, bind_of_ok hlinked]
      show ensuring (·.leave key) _ call { v with state := v.state.enter key } = _
      refine ensuring_of_error (bind_of_error ?_)
      rw [load_eq]
      exact bind_of_error hopen
    exact .inl ⟨o, _, _, hfails hlinked hopen, hfails hlinked' hopen'⟩

/-- Calls whose runs go alike from when their parameters were loaded end alike. -/
theorem Loads.invoke_follows (hloads : Loads call key r stack w l m params rest u)
    (hloads' : Loads call' key r stack w' l m params rest u')
    (hrun : Follows V V (run r.function l m target params result call u)
      (run r.function l m target params result call' u')) :
    Follows V V (invoke key r target stack result call w)
      (invoke key r target stack result call' w') := by
  have hattempt := hrun.attempt
  rw [hloads.invoke_eq, hloads'.invoke_eq]
  cases ha : (run r.function l m target params result).attempt call u with
  | ok outcome v =>
    rw [ha] at hattempt
    obtain ⟨v', ha', hv⟩ := hattempt
    rw [ha']
    exact .ok (hv.withState (hv.state.leave key))
  | error f v =>
    rw [ha] at hattempt
    intro hne
    obtain ⟨v', ha', hv⟩ := hattempt hne
    rw [ha']
    exact ⟨_, rfl, hv.withState (hv.state.leave key)⟩

theorem Loads.fitting (hloads : Loads call key r stack w l m params rest u)
    (hmatches : Linkage.Matches registry r.function r.method.args l) (hproper : registry.Proper)
    (hlaid : r.function.LaidOut) : Fitting params l.args := by
  intro a ha param hparam
  have hp : r.function.params[a.param]? = some param.property := by
    rw [← hloads.loaded.properties, List.getElem?_map, hparam]
    rfl
  exact ⟨ofTag_of_mem hmatches hproper ha hp, (hlaid _ (List.mem_of_getElem? hp)).1⟩

/-! ## What the storage of the caller holds then -/

theorem filling_of_fitting (h : Fitting params l.args) (scratch : Nat) (s : State) :
    Filling l scratch s 0 params := by
  intro j param d hj hd
  unfold output? at hd
  cases ha : l.forParam (0 + j) with
  | none => rw [ha] at hd; cases hd
  | some a =>
    rw [ha] at hd
    dsimp only at hd
    split at hd
    · cases hd
      have hparam : a.param = 0 + j := beq_iff_eq.1 (List.find?_some ha :)
      rw [← Nat.zero_add j, ← hparam] at hj
      obtain ⟨hm, hsize⟩ := h a (List.mem_of_find?_eq_some ha) param hj
      exact Marshaller.fills_delivery hm hsize _ _
    · cases hd

/-- An output that is copied back is one that its cell receives. -/
theorem receives_of_output {j : Nat} {scratch : Nat} {s : State} {param : Parameter} {d : Delivery}
    (hloaded : Loaded r.function.params stack params rest) (hj : params[j]? = some param)
    (hd : output? l scratch s j param = some d)
    (hlent : stack.argFor r.function.params j = some ⟨c, true⟩) :
    l.Receives r.function.params stack c param.property := by
  unfold output? at hd
  cases ha : l.forParam j with
  | none => rw [ha] at hd; cases hd
  | some a =>
    rw [ha] at hd
    dsimp only at hd
    split at hd
    · rename_i hby
      obtain rfl : a.param = j := beq_iff_eq.1 (List.find?_some ha :)
      refine ⟨a, List.mem_of_find?_eq_some ha, hby, ?_, hlent⟩
      rw [← hloaded.properties, List.getElem?_map, hj]
      rfl
    · cases hd

section Settled

variable {block scratch : Nat} {s s' s₀ y y' x x' : State}

/-- What two calls deliver settles the storage that they were lent. -/
theorem settles_of_received (hloads : Loads call key r stack w l m params rest u)
    (hmatches : Linkage.Matches registry r.function r.method.args l) (hfit : Fitting params l.args)
    (hL : Laid block scratch params s₀) (hc : c < block) (hk : K c)
    (hlike : y.Alike (veil K s s' block []) y')
    (hx : x.memory.cells.get? c = (y.memory.cells.get? c).map (received l scratch y c 0 params))
    (hx' : x'.memory.cells.get? c = (y'.memory.cells.get? c).map (received l scratch y c 0 params)) :
    l.Settles r.function.params stack c s s' x x' ∧ l.KeepsBits r.function.params stack c s x ∧
      l.KeepsBits r.function.params stack c s' x' := by
  have hloaded := hloads.loaded
  have hfills := filling_of_fitting hfit scratch y
  have hstart (param : Parameter) (hmem : param ∈ params) (o : Nat)
      (hout : param.output = .cell c o) : o = 0 := by
    obtain ⟨j, hj⟩ := List.mem_iff_getElem?.1 hmem
    exact (hloads.lent_of_output hL hj hout hc).1
  have hrel := hlike.rel c
  refine ⟨fun p hreceives hplain hplain' => ?_, ?_⟩
  -- The output that the cell is lent for replaces all in it that may differ.
  · obtain ⟨a, ha, hby, hp, hlent⟩ := hreceives
    obtain ⟨_, hbinds⟩ := hmatches.exists_binds ha
    obtain ⟨p', hp', hret, -⟩ := hbinds.property
    cases hp.symm.trans hp'
    obtain ⟨param, hparam, rfl⟩ : ∃ param, params[a.param]? = some param ∧ param.property = p := by
      rw [← hloaded.properties, List.getElem?_map, Option.map_eq_some_iff] at hp
      exact hp
    have hout : param.output = .ofCell c := by
      have houtput := hloaded.output hparam
      rw [if_neg (by simp [hret])] at houtput
      obtain ⟨b, hb, houtput⟩ := houtput
      cases hlent.symm.trans hb
      exact houtput
    have hd : output? l scratch y (0 + a.param) param = some (a.marshaller.delivery param.property y
        (y.addressAt (Slot.pointer ⟨scratch, a.scratchOffset⟩))) := by
      unfold output?
      rw [Nat.zero_add, hmatches.forParam_eq ha]
      exact if_pos hby
    rw [hx, hx']
    refine Veil.rel_map hrel fun v v' hv hv' hdiffer => ?_
    obtain ⟨hheld, hheld'⟩ := hdiffer.1 hk
    exact sameFor_received hfills hstart hparam hd hout (hplain v hheld) (hplain' v' hheld')
  · -- What the cell held when the method was called, it held before the call.
    have hkeeps {s y' x : State} (hheld : ∀ v, y'.memory.cells.get? c = some v →
          s.memory.cells.get? c = some v)
        (hx : x.memory.cells.get? c =
          (y'.memory.cells.get? c).map (received l scratch y c 0 params)) :
        l.KeepsBits r.function.params stack c s x := by
      intro hflags z hz
      rw [hx] at hz
      obtain ⟨v, hv, rfl⟩ := Option.map_eq_some_iff.1 hz
      refine ⟨v, hheld v hv, flagsApart_received hfills hstart (fun j param d hj hd hout => ?_) v⟩
      rw [Nat.zero_add] at hd
      have hreceives :=
        receives_of_output hloaded hj hd (hloads.lent_of_output hL hj hout hc).2
      exact ⟨⟨rfl, hreceives⟩, hflags _ hreceives⟩
    refine ⟨hkeeps (fun v hv => ?_) hx, hkeeps (fun v hv => ?_) hx'⟩
    · rw [hv] at hrel
      generalize y'.memory.cells.get? c = z at hrel
      cases hrel with
      | some hdiffer => exact (hdiffer.1 hk).1
    · rw [hv] at hrel
      generalize y.memory.cells.get? c = z at hrel
      cases hrel with
      | some hdiffer => exact (hdiffer.1 hk).2

end Settled

/-! ## The call as a whole -/

section Whole

variable {pointers : List Address} {staged : List StagedArg} {receiver : Option Address}
  {v x : World σ} {left : ArgStack}

/-- A call that succeeds has called its method, which has returned. -/
theorem Loads.returned_of_invoke (hloads : Loads call key r stack w l m params rest u)
    (hprepare : prepare r.function l target params call u = .ok (pointers, staged, receiver) v)
    (h : invoke key r target stack result call w = .ok (.ok (), left) x) :
    ∃ returned y, callMethod m receiver pointers call v = .ok (.ok returned) y := by
  rw [hloads.invoke_of_prepare hprepare] at h
  cases ha : (callMethod m receiver pointers >>= finish r.function l params staged result).attempt
      call v with
  | error f z => rw [ha] at h; cases h
  | ok outcome z =>
    rw [ha] at h
    cases h
    obtain ⟨answer, y, hcall, hfinish⟩ := Act.ok_of_bind (ok_of_attempt ha)
    cases answer with
    | ok returned => exact ⟨returned, y, hcall⟩
    | error e =>
      obtain ⟨_, _, -, hfinish⟩ := Act.ok_of_bind hfinish
      obtain ⟨_, _, -, hfinish⟩ := Act.ok_of_bind hfinish
      obtain ⟨_, _, -, hfinish⟩ := Act.ok_of_bind hfinish
      cases hfinish

/-- Where one of two such calls fails before its method, the other fails in the same way. -/
theorem Loads.fails_follows {f : Failure} (hloads : Loads call key r stack w l m params rest u)
    (hloads' : Loads call' key r stack w' l m params rest u')
    (hprepares : Follows V .any (prepare r.function l target params call u)
      (prepare r.function l target params call' u'))
    (hfails : prepare r.function l target params call u = .error f v) :
    Follows .any .any (invoke key r target stack result call w)
      (invoke key r target stack result call' w') := by
  apply hloads.invoke_follows hloads'
  rw [hfails] at hprepares
  rw [run_eq, bind_of_error hfails]
  intro hne
  obtain ⟨v', hfails', hv⟩ := hprepares hne
  exact ⟨v', bind_of_error hfails', hv⟩

/-- What is brought back to the caller is there when the call has ended. -/
theorem Loads.brought {y : World σ} {returned : Option Address} {outcome : Except BridgeError Unit}
    (hloads : Loads (callAt n) key r stack w l m params rest u)
    (hr : w.state.redirector? key = some r)
    (hprepare : prepare r.function l target params (callAt n) u = .ok (pointers, staged, receiver) v)
    (hcall : callMethod m receiver pointers (callAt n) v = .ok (.ok returned) y)
    (hbrings : Ends (finish r.function l params staged result (.ok returned) (callAt n) y)
      (fun _ z => Brings l u.state.memory.next params result y.state z)
      fun _ z => Brings l u.state.memory.next params result y.state z)
    (h : invoke key r target stack result (callAt n) w = .ok (outcome, left) x)
    (hc : c < w.state.memory.next) (hle : w.state.memory.next ≤ u.state.memory.next)
    (hresult : ∀ o, result ≠ some (.cell c o)) :
    x.state.memory.cells.get? c =
      (y.state.memory.cells.get? c).map (received l u.state.memory.next y.state c 0 params) := by
  have hends := hloads.ends_invoke hr hprepare hcall hbrings
  rw [h] at hends
  obtain ⟨z, hkeeps, ⟨-, hz⟩ | ⟨e, -, hz⟩⟩ := hends
  all_goals exact (hkeeps c hc).trans (hz c (Nat.le_trans (Nat.le_of_lt hc) hle) hresult)

end Whole

end Redirection

open Redirection Act in
/-- Of two calls that differ in nothing but what the storage held which the caller supplies for
parameters bound by reference, both load the same parameters. Before their method they fail in the same
way, or pass it the same pointers, with nothing but that storage left to differ. If the method then
does the same, they end alike, and leave the same in the storage that they were lent, apart from bits
beside those of flags: these are as they were in each. -/
theorem outputs_carry_nothing_in {config : Config} {registry : Registry} {side : ForeignSide σ}
    {memory : σ} {start w w' v₀ : World σ} {rs : List Request} {n m : Nat} {key : Redirector.Key}
    {r : Redirector} {l : Linkage} {stack : ArgStack} (target result : Option Address)
    (hside : side.foreign.heap = .empty)
    (hstart : World.connect config registry side memory = .ok start)
    (hsees : Session.Sees (fun _ _ => True) (fun _ => True) start rs w)
    (hr : w.state.redirector? key = some r)
    (hlinked : linked key r (callAt n) w = .ok (.ok (l, m)) v₀)
    (halign : isPowerOfTwo (max r.function.block.align 1) = true) (hapart : r.function.Apart)
    (hlaid : r.function.LaidOut) (hproper : registry.Proper)
    (hlength : stack.cursor + r.function.params.countP (fun p => !p.isReturn) ≤ stack.args.length)
    (hcells : ∀ a ∈ stack.args, a.cell < w.state.memory.next)
    (hbeside : ∀ i b, stack.argFor r.function.params i = some b →
      l.Outlet r.function.params stack b.cell → ∃ a ∈ l.args, a.byRef = true ∧ a.param = i)
    (hresult : ∀ a, result = some a →
      ∃ c o, a = .cell c o ∧ ¬l.Outlet r.function.params stack c)
    (hlike : w.Alike (.upon (l.Outlet r.function.params stack)) w') :
    let K := l.Outlet r.function.params stack
    (∃ o v v', invoke key r target stack result (callAt n) w = .error (.panic (.overflow o)) v ∧
      invoke key r target stack result (callAt n) w' = .error (.panic (.overflow o)) v') ∨
    ∃ params rest u u', Loads (callAt n) key r stack w l m params rest u ∧
      Loads (callAt n) key r stack w' l m params rest u' ∧
      let hidden (args : List LinkedArg) : Veil :=
        veil K w.state w'.state w.state.memory.next (outputsOf params args)
      (prepare r.function l target params).OnlyCalls (callAt n) u
        (Invoker.Spares (callAt n) (Own w.state.memory.next u.state.memory.next)) →
      Unnoticed (callAt n) hidden r.function target l params u →
      Follows (hidden []) .any (prepare r.function l target params (callAt n) u)
        (prepare r.function l target params (callAt n) u') ∧
      (∀ f v, prepare r.function l target params (callAt n) u = .error f v →
        Follows .any .any (invoke key r target stack result (callAt n) w)
          (invoke key r target stack result (callAt n) w')) ∧
      ∀ pointers staged receiver v v',
        prepare r.function l target params (callAt n) u = .ok (pointers, staged, receiver) v →
        prepare r.function l target params (callAt n) u' = .ok (pointers, staged, receiver) v' →
        Follows (hidden []) (hidden []) (callMethod m receiver pointers (callAt n) v)
          (callMethod m receiver pointers (callAt n) v') →
        (∀ returned y, callMethod m receiver pointers (callAt n) v = .ok (.ok returned) y →
          y.WritesBack r.function.params ∧ (∀ c o, returned = some (.cell c o) → ¬K c) ∧
          ∀ a ∈ l.args, a.byRef = true → a.marshaller.isReference = false →
            y.state.readAt (Slot.pointer ⟨u.state.memory.next, a.scratchOffset⟩) addressSize =
              v.state.readAt (Slot.pointer ⟨u.state.memory.next, a.scratchOffset⟩) addressSize) →
        Follows (.upon K) (.upon K) (invoke key r target stack result (callAt n) w)
          (invoke key r target stack result (callAt n) w') ∧
        ∀ left left' x x',
          invoke key r target stack result (callAt n) w = .ok (.ok (), left) x →
          invoke key r target stack result (callAt n) w' = .ok (.ok (), left') x' →
          ∀ c, K c →
            l.Settles r.function.params stack c w.state w'.state x.state x'.state ∧
            l.KeepsBits r.function.params stack c w.state x.state ∧
            l.KeepsBits r.function.params stack c w'.state x'.state := by
  intro K
  have hmatches := Linkage.matches_of_link (link_of_linked hstart hsees hr hlinked)
  obtain ⟨o, hw⟩ := hsees.tallied hside hstart
  have hK (c : Nat) (hc : K c) : c < w.state.memory.next := by
    obtain ⟨a, -, -, b, hb, rfl⟩ := hc
    exact hcells b (ArgStack.mem_of_argFor hb)
  obtain hlarge | ⟨params, rest, u, u', hloads, hloads', hu⟩ := loads_or_overflow_alike hlinked
    halign hlength hapart hcells hlike hK (fun {i b} => hbeside i b) target result
  · exact .inl hlarge
  refine .inr ⟨params, rest, u, u', hloads, hloads', ?_⟩
  intro hidden hspares hunnoticed
  have hfit := hloads.fitting hmatches hproper hlaid
  obtain ⟨hL, -⟩ := hloads.supplies halign hlength hapart hcells hmatches
  have hprep : Follows (hidden []) .any (prepare r.function l target params (callAt n) u)
      (prepare r.function l target params (callAt n) u') :=
    prepare_follows hL hK hfit (hmatches.apart.imp And.left) hunnoticed hu
  refine ⟨hprep, fun f v hfails => hloads.fails_follows hloads' hprep hfails, ?_⟩
  intro pointers staged receiver v v' hp hp' hmethod htame
  have hguarded : prepare r.function l target params
      (guarded n w.state.memory.next u.state.memory.next) u = .ok (pointers, staged, receiver) v :=
    (hspares _ fun m inv x hx => Invoker.guard_of_spares hx).trans hp
  obtain ⟨x₀, hstaged⟩ := staged_of_prepare hloads halign hlength hapart hcells hmatches hguarded
  have hcell (a : Address) (ha : result = some a) : ∃ c o, a = .cell c o := by
    obtain ⟨c, o, hc, -⟩ := hresult a ha
    exact ⟨c, o, hc⟩
  -- Where both methods have returned alike, both calls go on alike and deliver the same.
  have hagree (returned : Option Address) (y y' : World σ)
      (hcall : callMethod m receiver pointers (callAt n) v = .ok (.ok returned) y)
      (hy : y.Alike (.upon K) y') :
      Follows (.upon K) (.upon K)
          (finish r.function l params staged result (.ok returned) (callAt n) y)
          (finish r.function l params staged result (.ok returned) (callAt n) y') ∧
        Ends (finish r.function l params staged result (.ok returned) (callAt n) y)
          (fun _ z => Brings l u.state.memory.next params result y.state z)
          (fun _ z => Brings l u.state.memory.next params result y.state z) ∧
        Ends (finish r.function l params staged result (.ok returned) (callAt n) y')
          (fun _ z => Brings l u.state.memory.next params result y'.state z)
          (fun _ z => Brings l u.state.memory.next params result y'.state z) ∧
        ∀ c, received l u.state.memory.next y'.state c 0 params =
          received l u.state.memory.next y.state c 0 params := by
    obtain ⟨hwrites, hreturned, hslots⟩ := htame returned y hcall
    cases n with
    | zero => cases hcall
    | succ n =>
      obtain ⟨hfollows, hbrings', hsame⟩ := hloads.agree hr hw hcells hmatches hstaged hp hcall hwrites
        hproper hlaid hslots hcell hK hreturned hy
      exact ⟨hfollows, hloads.brings hr hw hcells hmatches hstaged hp hcall hwrites hproper hlaid
        hslots hcell, hbrings', hsame⟩
  refine ⟨hloads.invoke_follows hloads' ?_, ?_⟩
  · rw [run_eq, bind_of_ok hp, bind_of_ok hp']
    refine .bind (hmethod.mono upon_of_veil upon_of_veil) fun answer y y' hcall hy => ?_
    cases answer with
    | ok returned => exact (hagree returned y y' hcall hy).1
    | error e => exact finish_error_follows r.function result e hy
  · intro left left' x x' hx hx' c hk
    -- A call that succeeds is one whose method has returned.
    obtain ⟨returned, y, hcall⟩ := hloads.returned_of_invoke hp hx
    obtain ⟨returned', y', hcall'⟩ := hloads'.returned_of_invoke hp' hx'
    rw [hcall, hcall'] at hmethod
    obtain ⟨y'', hsame, hy⟩ := hmethod
    cases hsame
    obtain ⟨-, hbrings, hbrings', hreceived⟩ := hagree returned y y' hcall (hy.mono upon_of_veil)
    have hplace (o : Nat) : result ≠ some (.cell c o) := by
      rintro rfl
      obtain ⟨c', o', hc', hout⟩ := hresult _ rfl
      cases hc'
      exact hout hk
    have hle : w.state.memory.next ≤ u.state.memory.next := Nat.le_of_lt hL.order
    have hr' : w'.state.redirector? key = some r := by
      unfold State.redirector?
      rw [hlike.state.bridge]
      exact hr
    rw [← hu.state.next] at hbrings' hreceived
    have hz := hloads.brought hr hp hcall hbrings hx (hK c hk) hle hplace
    have hz' := hloads'.brought hr' hp' hcall' hbrings' hx' (hlike.state.next ▸ hK c hk)
      (by rw [hlike.state.next, hu.state.next]; exact hle) hplace
    rw [hreceived, hu.state.next] at hz'
    exact settles_of_received hloads hmatches hfit hL (hK c hk) hk hy.state hz hz'

/-! ## A flag with other bits beside it -/

namespace Sample

/-- A method that sets the flag that it is passed. -/
def raising (inv : Invocation) : Program Unit :=
  .ask (.write (inv.args.headD .null) [.value 1]) fun _ => .done none

def raisingStart : World Unit :=
  world [⟨"G", ⟨"", "T", "Raise", some ["bool&"]⟩, 1, 0⟩] (stock ++ [raising])

/-- A function with one flag for an output. -/
def raise : Redirector where
  function := ⟨"T", "Raise", ⟨true, true, true, false⟩,
    [⟨"Flag", .bool 4, 1, 1, 0, ⟨true, true, false, true, false⟩⟩], ⟨1, 1⟩⟩
  method := ⟨"G", ⟨"", "T", "Raise", some ["bool&"]⟩, [⟨"Flag", true, false⟩]⟩
  binding := .unbound
  depth := 0

/-- Registers the function, with a cell in which all bits are set. -/
def raisingRun : Program Unit :=
  .ask (.redirect raise.function raise.method) fun _ =>
  .ask (.allot (.plain [.value 255])) fun _ => .done none

def raiseLinkage : Linkage := ⟨[⟨0, .bool, true, 0⟩], none⟩

/-- The parameter, where its cell is passed by reference or by value. -/
def raiseParams (byRef : Bool) : List Parameter :=
  raise.function.params.map fun p => ⟨p, .cell 1 0, if byRef then .ofCell 0 else .cell 1 0⟩

/-- The call loads that parameter into a block of its own. -/
def isRaised (byRef : Bool) (w : World Unit) : Bool :=
  match Redirection.linked ("T", "Raise") raise (callAt 2) w with
  | .ok (.ok (l, m)) v₀ =>
    match Redirection.load ("T", "Raise") raise l ⟨[⟨0, byRef⟩], 0⟩ (callAt 2)
      { v₀ with state := v₀.state.enter ("T", "Raise") } with
    | .ok (params, _) u =>
      l == raiseLinkage && m == 14 && params == raiseParams byRef && u.state.memory.next == 2
    | .error _ _ => false
  | _ => false

/-- The same world, in which no bits are. -/
def unset (w : World Unit) : World Unit :=
  { w with state := w.state.writeAt (.ofCell 0) [.value 0] }

/-- What the caller finds in the cell after the call. -/
def raised (byRef : Bool) (w : World Unit) : Option Value :=
  match Redirection.invoke ("T", "Raise") raise none ⟨[⟨0, byRef⟩], 0⟩ none (callAt 2) w with
  | .ok (.ok (), _) x => some (x.state.valueAt (.ofCell 0))
  | _ => none

theorem run_raising : endsIn 1 raisingRun raisingStart (fun w =>
      w.state.redirector? ("T", "Raise") == some raise && w.state.memory.next == 1 &&
      isRaised true w && isRaised false w &&
      raised true w == some (.plain [.value 255]) &&
      raised true (unset w) == some (.plain [.value 4]) &&
      raised false w == some (.plain [.value 255]) &&
      raised false (unset w) == some (.plain [.value 0])) = true := by
  decide +kernel

theorem of_isRaised {byRef : Bool} {w : World Unit} (h : isRaised byRef w = true) :
    ∃ v₀ rest u, Redirection.linked ("T", "Raise") raise (callAt 2) w = .ok (.ok (raiseLinkage, 14)) v₀ ∧
      Redirection.load ("T", "Raise") raise raiseLinkage ⟨[⟨0, byRef⟩], 0⟩ (callAt 2)
        { v₀ with state := v₀.state.enter ("T", "Raise") } = .ok (raiseParams byRef, rest) u ∧
      u.state.memory.next = 2 := by
  unfold isRaised at h
  split at h
  case h_2 => cases h
  rename_i l m v₀ hlinked
  split at h
  case h_2 => cases h
  rename_i params rest u hload
  simp only [Bool.and_eq_true, beq_iff_eq] at h
  obtain ⟨⟨⟨rfl, rfl⟩, rfl⟩, hscratch⟩ := h
  exact ⟨v₀, rest, u, hlinked, hload, hscratch⟩

theorem of_raised {byRef : Bool} {w : World Unit} {v : Value} (h : raised byRef w = some v) :
    ∃ rest x, Redirection.invoke ("T", "Raise") raise none ⟨[⟨0, byRef⟩], 0⟩ none (callAt 2) w =
      .ok (.ok (), rest) x ∧ x.state.valueAt (.ofCell 0) = v := by
  unfold raised at h
  split at h
  · rename_i rest x hinvoke
    exact ⟨rest, x, hinvoke, Option.some.inj h⟩
  · cases h

theorem prepare_raise (call : Invoker Unit) (u : World Unit) :
    ∃ staged v, Redirection.prepare raise.function raiseLinkage none (raiseParams true) call u =
      .ok ([.cell 1 0], staged, none) v ∧ v.bodies = u.bodies :=
  ⟨_, _, rfl, rfl⟩

/-- Calling the method sets an octet and does nothing else. -/
theorem call_raising {n m : Nat} {a : Address} {v : World Unit} (hm : v.bodies[m]? = some raising) :
    Act.callMethod m none [a] (callAt (n + 1)) v = .ok (.ok none)
      { v.countCall m with state := (v.countCall m).state.writeAt a [.value 1] } := by
  show callAt (n + 1) m ⟨none, [a]⟩ v = _
  rw [callAt_succ, hm]
  rfl

theorem laidOut_raise : raise.function.LaidOut := by
  intro p hp
  obtain rfl := List.mem_singleton.1 hp
  exact ⟨rfl, by rintro _ ⟨⟩⟩

theorem alike_unset {K : Nat → Prop} (w : World Unit) (hK : K 0) : w.Alike (.upon K) (unset w) := by
  refine ⟨⟨(w.state.memory.modify 0 (·.splice 0 [.value 0])).cells, fun c => ?_, fun _ _ _ => .inr rfl⟩⟩
  show Option.Rel _ _ ((w.state.memory.cells.modify 0 _).get? c)
  rw [Table.get?_modify]
  by_cases hc : 0 = c
  · subst hc
    rw [if_pos rfl]
    cases w.state.memory.cells.get? 0 with
    | none => exact .none
    | some v => exact .some (.inl hK)
  · rw [if_neg hc]
    cases w.state.memory.cells.get? c with
    | none => exact .none
    | some v => exact .some (.inr rfl)

/-- The cell that the caller supplies is the only one that may differ. -/
theorem outlet_raise {byRef : Bool} {c : Nat} :
    raiseLinkage.Outlet raise.function.params ⟨[⟨0, byRef⟩], 0⟩ c ↔ c = 0 := by
  constructor
  · rintro ⟨a, ha, -, b, hb, rfl⟩
    obtain rfl := List.mem_singleton.1 ha
    cases hb
    rfl
  · rintro rfl
    exact ⟨_, List.mem_singleton_self _, rfl, _, rfl, rfl⟩

end Sample

open Redirection Act in
/-- `outputs_carry_nothing_in` for a flag in an octet whose other bits are all set, or all clear. -/
theorem outputs_carry_nothing_in_of_raise :
    ∃ (w x x' : World Unit) (left left' : ArgStack),
      Session.Sees (fun _ _ => True) (fun _ => True) Sample.raisingStart [] w ∧
      invoke ("T", "Raise") Sample.raise none ⟨[⟨0, true⟩], 0⟩ none (callAt 2) w =
        .ok (.ok (), left) x ∧
      invoke ("T", "Raise") Sample.raise none ⟨[⟨0, true⟩], 0⟩ none (callAt 2) (Sample.unset w) =
        .ok (.ok (), left') x' ∧
      x.state.valueAt (.ofCell 0) = .plain [.value 255] ∧
      x'.state.valueAt (.ofCell 0) = .plain [.value 4] ∧
      Sample.raiseLinkage.Settles Sample.raise.function.params ⟨[⟨0, true⟩], 0⟩ 0 w.state
        (Sample.unset w).state x.state x'.state ∧
      Sample.raiseLinkage.KeepsBits Sample.raise.function.params ⟨[⟨0, true⟩], 0⟩ 0 w.state x.state ∧
      Sample.raiseLinkage.KeepsBits Sample.raise.function.params ⟨[⟨0, true⟩], 0⟩ 0
        (Sample.unset w).state x'.state := by
  obtain ⟨w, a, hr, hsees, hrun⟩ := Sample.sees_of_endsIn Sample.run_raising
  simp only [Bool.and_eq_true, beq_iff_eq] at hrun
  obtain ⟨⟨⟨⟨⟨⟨⟨hraise, hnext⟩, hsteps⟩, -⟩, hset⟩, hclear⟩, -⟩, -⟩ := hrun
  obtain ⟨left, x, hinvoke, hset⟩ := Sample.of_raised hset
  obtain ⟨left', x', hinvoke', hclear⟩ := Sample.of_raised hclear
  refine ⟨w, x, x', left, left', hsees, hinvoke, hinvoke', hset, hclear, ?_⟩
  obtain ⟨v₀, rest, u, hlinked, hload, hscratch⟩ := Sample.of_isRaised hsteps
  have hcells : ∀ a ∈ (⟨[⟨0, true⟩], 0⟩ : ArgStack).args, a.cell < w.state.memory.next := by
    rw [hnext]
    decide
  have hapart : Sample.raise.function.Apart := by
    unfold Function.Apart Property.Apart
    decide
  have hbeside (i : Nat) (b : StackArg)
      (hb : ArgStack.argFor ⟨[⟨0, true⟩], 0⟩ Sample.raise.function.params i = some b)
      (_ : Sample.raiseLinkage.Outlet Sample.raise.function.params ⟨[⟨0, true⟩], 0⟩ b.cell) :
      ∃ a ∈ Sample.raiseLinkage.args, a.byRef = true ∧ a.param = i := by
    refine ⟨_, List.mem_singleton_self _, rfl, ?_⟩
    cases i with
    | zero => rfl
    | succ i => cases hb
  obtain ⟨o, e, e', hlarge, -⟩ | ⟨_, _, _, u', hloads, hloads', hgoes⟩ :=
    outputs_carry_nothing_in none none rfl (Sample.connect_world _ _) hsees hraise hlinked (by decide)
      hapart Sample.laidOut_raise Registry.proper_default (by decide) hcells hbeside
      (by rintro _ ⟨⟩) (Sample.alike_unset w (Sample.outlet_raise.2 rfl))
  · cases hinvoke.symm.trans hlarge
  obtain ⟨-, -, rfl, -, rfl⟩ := hloads.unique ⟨v₀, hlinked, hload⟩
  obtain ⟨hprep, -, hgoes⟩ := hgoes (.of_const fun _ => rfl) {
    staging := fun before a after param pointers staged v hargs _ _ => by
      have hmem : a ∈ Sample.raiseLinkage.args := by
        rw [hargs]
        exact List.mem_append_right before List.mem_cons_self
      obtain rfl := List.mem_singleton.1 hmem
      exact .of_const fun _ => rfl
    receiver := fun pointers staged v _ => .of_const fun _ => rfl }
  obtain ⟨staged, v, hprepare, hbodies⟩ := Sample.prepare_raise (callAt 2) u
  rw [hprepare] at hprep
  obtain ⟨v', hprepare', hv⟩ := hprep
  -- The method is still the one that was there from the start.
  let L : Law Unit := (lastingRealm w).law ((lastingRealm w).respected 2)
  have hstart : L.holds [] w := ⟨List.prefix_refl _, .refl _⟩
  obtain ⟨hlasting, -, -⟩ :=
    hloads.holds (L := L) hraise none none trivial List.nil_suffix trivial hstart
  have hraises : v.bodies[14]? = some Sample.raising := by
    obtain ⟨more, hmore⟩ := (bodies_of_run hr).trans hlasting.1
    rw [hbodies, ← hmore]
    rfl
  have hcall := Sample.call_raising (n := 1) (a := .cell 1 0) hraises
  have hcall' := Sample.call_raising (n := 1) (a := .cell 1 0) (hv.bodies ▸ hraises)
  obtain ⟨y, hstages, hreceiver⟩ := stages_of_prepare hprepare
  obtain ⟨hstock, hgrows⟩ := hloads.lasting hraise hstages hreceiver hcall
  obtain ⟨-, hsettles⟩ := hgoes [.cell 1 0] staged none v v' hprepare hprepare' (by
      rw [hcall, hcall']
      refine .ok ((hv.countCall 14).withState ((hv.countCall 14).state.writeAt ?_ _))
      rintro c o ⟨⟩ f z z' hz
      have hone : ¬Sample.raiseLinkage.Outlet Sample.raise.function.params ⟨[⟨0, true⟩], 0⟩ 1 :=
        fun hk => absurd (Sample.outlet_raise.1 hk) (by decide)
      exact ⟨fun hk => absurd hk hone, fun _ => .inl (congrArg f (eq_of_unsettled (hz.2 hone)))⟩)
    (fun returned z hz => by
      cases hcall.symm.trans hz
      refine ⟨?_, by rintro _ _ ⟨⟩, fun a ha _ _ => ?_⟩
      · refine Sample.writesBack_of_stock
          (((List.prefix_append _ _).trans (bodies_of_run hr)).trans hstock)
          (hgrows.helpers.trans hsees.grows.helpers) fun p hp info => ?_
        obtain rfl := List.mem_singleton.1 hp
        rintro ⟨⟩
      · refine readAt_of_cell ?_
        show (v.state.memory.cells.modify 1 _).get? u.state.memory.next = _
        rw [hscratch]
        exact (Table.get?_modify _ _ _ _).trans (if_neg (by decide)))
  exact hsettles left left' x x' hinvoke hinvoke' 0 (Sample.outlet_raise.2 rfl)

open Redirection in
/-- Storage that the caller passes by value is not written, even where the parameter is bound by
reference: after two such calls the flag in it differs as it did before them. -/
theorem outlet_not_written_by_value :
    ∃ (w v₀ x x' : World Unit) (l : Linkage) (m : Nat) (left left' : ArgStack),
      Session.Sees (fun _ _ => True) (fun _ => True) Sample.raisingStart [] w ∧
      w.state.redirector? ("T", "Raise") = some Sample.raise ∧
      linked ("T", "Raise") Sample.raise (callAt 2) w = .ok (.ok (l, m)) v₀ ∧
      w.bodies[m]? = some Sample.raising ∧
      l.Outlet Sample.raise.function.params ⟨[⟨0, false⟩], 0⟩ 0 ∧
      w.Alike (.upon (l.Outlet Sample.raise.function.params ⟨[⟨0, false⟩], 0⟩)) (Sample.unset w) ∧
      invoke ("T", "Raise") Sample.raise none ⟨[⟨0, false⟩], 0⟩ none (callAt 2) w =
        .ok (.ok (), left) x ∧
      invoke ("T", "Raise") Sample.raise none ⟨[⟨0, false⟩], 0⟩ none (callAt 2) (Sample.unset w) =
        .ok (.ok (), left') x' ∧
      ∀ p ∈ Sample.raise.function.params,
        ¬(x.state.valueAt (.ofCell 0)).SameFor p (x'.state.valueAt (.ofCell 0)) := by
  obtain ⟨w, a, hr, hsees, hrun⟩ := Sample.sees_of_endsIn Sample.run_raising
  simp only [Bool.and_eq_true, beq_iff_eq] at hrun
  obtain ⟨⟨⟨⟨⟨⟨⟨hraise, -⟩, -⟩, hsteps⟩, -⟩, -⟩, hset⟩, hclear⟩ := hrun
  have hraises : w.bodies[14]? = some Sample.raising := by
    obtain ⟨more, hmore⟩ := bodies_of_run hr
    rw [← hmore]
    rfl
  obtain ⟨left, x, hinvoke, hset⟩ := Sample.of_raised hset
  obtain ⟨left', x', hinvoke', hclear⟩ := Sample.of_raised hclear
  obtain ⟨v₀, -, -, hlinked, -, -⟩ := Sample.of_isRaised hsteps
  refine ⟨w, v₀, x, x', _, _, left, left', hsees, hraise, hlinked, hraises,
    Sample.outlet_raise.2 rfl, Sample.alike_unset w (Sample.outlet_raise.2 rfl), hinvoke, hinvoke',
    fun p hp => ?_⟩
  obtain rfl := List.mem_singleton.1 hp
  rw [hset, hclear]
  show ¬(_ : UInt8) = _
  decide

end TwinHeap
