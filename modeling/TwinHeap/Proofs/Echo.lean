import TwinHeap.Proofs.Handing

/-!
# Echo — what a method hands on unchanged comes back as it was supplied

Passing a value and copying it back are separate code for every kind of data, in either direction. The
foreign value that stands for a host value is what both have in common (`Marshaller.Renders`): passing
makes it, and copying it back delivers the host value again (`Marshaller.delivery_of_renders`). So a
method that leaves such a value for an output, or returns it, gives the caller what it has supplied.
-/

namespace TwinHeap

variable {σ : Type}

/-! ## Delivering a value -/

/-- All bits of a mask are set, or none of them. -/
theorem Octet.anyBit_setBits (mask : UInt8) (o o' : Octet) :
    anyBit mask (o.setBits mask (anyBit mask o')) = anyBit mask o' := by
  show ((o.setBits mask (anyBit mask o')).byte &&& mask != 0) = anyBit mask o'
  rw [setBits_and]
  cases hany : anyBit mask o' with
  | false => rfl
  | true =>
    -- A bit of the mask is set in `o'`, so the mask is not empty.
    have hmask : mask ≠ 0 := by
      rintro rfl
      simp [anyBit] at hany
    exact bne_iff_ne.2 hmask

namespace Value

variable {p : Property} {src old : Value}

/-- What the foreign value that stands for a host value is copied back as. -/
def delivered (src : Value) (p : Property) : Delivery :=
  match p.kind.storage with
  | .plain => .octets (src.read p.size)
  | .flag mask => .flag mask (Octet.anyBit mask src.first)
  | _ => .value src

/-- The value of a property has become that of `src`. Of a flag it is the truth value, and all bits
that do not belong to the flag are as they were. -/
def Echoes (src : Value) (p : Property) (old new : Value) : Prop :=
  match p.kind.storage with
  | .plain => new.read p.size = src.read p.size
  | .flag mask => Octet.anyBit mask new.first = Octet.anyBit mask src.first ∧
      (∀ bits, mask &&& bits = 0 → new.first.byte &&& bits = old.first.byte &&& bits) ∧
      ∀ k, k ≠ 0 → new.octetAt k = old.octetAt k
  | _ => new = src

/-- What is delivered to storage of a property is found there. -/
theorem echoes_put (hold : old.isPlain = p.inBlock) (hsrc : p.inBlock = false → src.isPlain = false) :
    src.Echoes p old ((src.delivered p).put 0 old) := by
  unfold Echoes delivered
  unfold Property.inBlock at hold hsrc
  cases hs : p.kind.storage with
  | plain =>
    rw [hs] at hold
    cases old with
    | plain os =>
      have hread := read_write (src.read p.size) os
      rwa [length_read] at hread
    | _ => cases hold
  | flag mask =>
    rw [hs] at hold
    cases old with
    | plain os =>
      have hfirst : ((Delivery.flag mask (Octet.anyBit mask src.first)).put 0 (plain os)).first =
          (plain os).first.setBits mask (Octet.anyBit mask src.first) := by
        rw [first_eq_octetAt, first_eq_octetAt (plain os), Delivery.put_flag, octetAt_splice]
        rfl
      -- Of the octet with the flag only the bits of the mask are written.
      refine ⟨?_, fun bits hbits => ?_, fun k hk => ?_⟩
      · rw [hfirst]
        exact Octet.anyBit_setBits _ _ _
      · rw [hfirst]
        exact Octet.and_setBits hbits _ _
      · rw [Delivery.put_flag, octetAt_splice, if_neg (by simp; omega)]
    | _ => cases hold
  | _ =>
    -- Storage that is not octets is replaced as a whole.
    rw [hs] at hold hsrc
    exact put_of_not_plain hold (hsrc rfl)

end Value

/-- In a cell that held `old` there is now the value `src` of a property. -/
def World.Finds (w : World σ) (c : Nat) (q : Property) (old src : Value) : Prop :=
  ∃ new, w.state.memory.cells.get? c = some new ∧ src.Echoes q old new

namespace State

variable {s : State} {i : Nat}

theorem stringAt_foreign {text : String} (h : s.heap.objects.get? i = some (.string text)) :
    s.stringAt (.foreign i) = text := by
  have hget : s.heap.get? (.foreign i) = some (.string text) := h
  unfold stringAt Heap.readString
  rw [hget]

theorem pathAt_foreign {path : String} (h : s.heap.objects.get? i = some (.soft path)) :
    s.pathAt (.foreign i) = path := by
  have hget : (Address.foreign i).nonNull.bind s.heap.get? = some (.soft path) := h
  unfold pathAt
  rw [hget]

theorem contentsAt_foreign {contents : Container}
    (h : s.heap.objects.get? i = some (.collection contents)) :
    s.contentsAt (.foreign i) = contents := by
  have hget : (Address.foreign i).nonNull.bind s.heap.get? = some (.collection contents) := h
  unfold contentsAt
  rw [hget]

end State

namespace Marshaller

variable {m mq : Marshaller} {p q : Property} {s : State} {src old : Value} {f : Address}
  {fv : ForeignValue} {made : Option Address}

/-- What stands for a value that does not lie in a block was made of one that owns its storage. -/
theorem Renders.isPlain (h : m.Renders s p src fv made) (hm : ofTag p.kind.tag = some m)
    (hin : p.inBlock = false) : src.isPlain = false := by
  have hblock (hb : m = bool ∨ m = scalar ∨ m = enumeration) : src.isPlain = false := by
    rw [inBlock_of_tag hm hb] at hin
    cases hin
  unfold Property.inBlock at hin
  cases h with
  | flag => exact hblock (by decide)
  | plain hb => exact hblock (.inr hb)
  | text hsrc | string hsrc | softReference hsrc | collection hsrc => rw [hsrc]; rfl
  | name | null | object | classRef | struct =>
    cases hkind : p.kind <;> rw [hkind] at hm hin <;> cases hm
    all_goals cases hin

/-- What was delivered to storage of the same kind is found there. -/
theorem Renders.echoes (h : m.Renders s p src fv made) (hm : ofTag p.kind.tag = some m)
    (hkind : q.kind = p.kind) (hold : old.isPlain = q.inBlock) :
    src.Echoes q old ((src.delivered q).put 0 old) := by
  refine Value.echoes_put hold fun hin => h.isPlain hm ?_
  unfold Property.inBlock at hin ⊢
  rwa [← hkind]

/-- Copying back what stands for a value delivers this value. -/
theorem delivery_of_renders (h : m.Renders s p src fv made) (hm : ofTag p.kind.tag = some m)
    (hsize : p.size = p.kind.hostLayout.size) (hkind : q.kind = p.kind)
    (hmq : ofTag q.kind.tag = some mq) (hqsize : q.size = q.kind.hostLayout.size)
    (hf : mq.handed q s f = fv) : mq.delivery q s f = src.delivered q := by
  rw [hkind] at hmq hqsize
  cases hmq.symm.trans hm
  have hq : q.size = p.size := hqsize.trans hsize.symm
  unfold handed at hf
  unfold Value.delivered
  rw [hkind]
  -- Case by case, the value was written down as foreign code reads it, so reading it back undoes that.
  cases h with
  | @flag mask os hbool hos =>
    have hread : s.readAt f 1 = os := ForeignValue.data.inj hf
    have hmask : q.flagMask = .ok mask := by
      unfold Property.flagMask
      rw [hkind, hbool]
    unfold delivery
    rw [hmask, hbool, hread, hos]
    rfl
  | plain hb =>
    have hplain : p.kind.storage = .plain := by
      cases hk : p.kind <;> rw [hk] at hm <;> cases hm
      case scalar | enumeration => rfl
      all_goals simp at hb
    rw [hplain]
    obtain rfl | rfl := hb
    all_goals
      have hread : s.readAt f q.size = src.read p.size := ForeignValue.data.inj hf
      show Delivery.octets (s.readAt f q.size) = .octets (src.read q.size)
      rw [hread, hq]
  | @name n hn hsrc =>
    have hread : s.readAt f 8 = (NameRecord.ofHostName n).octets := ForeignValue.data.inj hf
    cases hk : p.kind <;> rw [hk] at hm hsize <;> cases hm
    show Delivery.octets (NameRecord.ofOctets (s.readAt f 8)).toHostName.octets =
      .octets (src.read q.size)
    rw [hread, NameRecord.octets_toHostName hn, hq, hsize]
    exact congrArg Delivery.octets hsrc.symm
  | @text i text hsrc hi =>
    have hread : s.readAt f 8 = (Address.foreign i).octets := ForeignValue.data.inj hf
    have haddress : s.addressAt f = .foreign i := by
      -- What was written down is the address of the text, which is looked up again.
      have hoctets := Address.ofOctets_octets (.foreign i) [] (by rintro v ⟨⟩)
      rw [List.append_nil] at hoctets
      exact (congrArg Address.ofOctets hread).trans hoctets
    cases hk : p.kind <;> rw [hk] at hm <;> cases hm
    show Delivery.value (.string (s.stringAt (s.addressAt f))) = .value src
    rw [haddress, State.stringAt_foreign hi, hsrc]
  | @string i text hsrc hi =>
    obtain rfl : f = .foreign i := ForeignValue.object.inj hf
    cases hk : p.kind <;> rw [hk] at hm <;> cases hm
    show Delivery.value (.string (s.stringAt (.foreign i))) = .value src
    rw [State.stringAt_foreign hi, hsrc]
  | null hsrc =>
    obtain rfl : f = .null := ForeignValue.object.inj hf
    cases hk : p.kind <;> rw [hk] at hm hsize <;> cases hm
    show Delivery.octets Address.null.octets = .octets (src.read q.size)
    rw [hq, hsize]
    exact congrArg Delivery.octets hsrc.symm
  | @object a _ ha hsrc hnative =>
    obtain rfl := ForeignValue.object.inj hf
    cases hk : p.kind <;> rw [hk] at hm hsize <;> cases hm
    -- A proxy is read back by asking it what it stands for.
    show Delivery.octets (s.nativeBehind f).octets = .octets (src.read q.size)
    rw [(s.nativeBehind_eq ha).2 hnative, hq, hsize]
    exact congrArg Delivery.octets hsrc.symm
  | classRef =>
    have hread : s.readAt f addressSize = src.read addressSize := ForeignValue.data.inj hf
    cases hk : p.kind <;> rw [hk] at hm hsize <;> cases hm
    show Delivery.octets (s.readAt f addressSize) = .octets (src.read q.size)
    rw [hread, hq, hsize]
    rfl
  | struct =>
    have hread : s.readAt f q.size = src.read p.size := ForeignValue.data.inj hf
    cases hk : p.kind <;> rw [hk] at hm <;> cases hm
    show Delivery.octets (s.readAt f q.size) = .octets (src.read q.size)
    rw [hread, hq]
  | @softReference i path hsrc hi =>
    obtain rfl : f = .foreign i := ForeignValue.object.inj hf
    cases hk : p.kind <;> rw [hk] at hm <;> cases hm
    all_goals
      show Delivery.value (.string (s.pathAt (.foreign i))) = .value src
      rw [State.pathAt_foreign hi, hsrc]
  | @collection i contents hsrc hi =>
    obtain rfl : f = .foreign i := ForeignValue.object.inj hf
    cases hk : p.kind <;> rw [hk] at hm <;> cases hm
    all_goals
      show Delivery.value (.container (s.contentsAt (.foreign i))) = .value src
      rw [State.contentsAt_foreign hi, hsrc]

end Marshaller

/-- A cell is lent for one parameter and for no other. -/
structure ArgStack.LentOnce (stack : ArgStack) (ps : List Property) (i c : Nat) : Prop where
  lent : stack.argFor ps i = some ⟨c, true⟩
  once : ∀ k, stack.argFor ps k = some ⟨c, true⟩ → k = i

namespace Redirection

open Act

/-- The foreign value that a method has left for an output. -/
def leftFor (b : LinkedArg) (q : Property) (scratch : Nat) (s : State) : ForeignValue :=
  b.marshaller.handed q s (s.addressAt (Slot.pointer ⟨scratch, b.scratchOffset⟩))

/-- The foreign value that a method has returned: an object itself, or the data in a box. -/
def Returns (m : Marshaller) (q : Property) (s : State) (value : Address) (fv : ForeignValue) : Prop :=
  ∃ f, (if m.isReference then f = value else s.unbox value = .ok f) ∧ m.handed q s f = fv

variable {call : Invoker σ} {key : Redirector.Key} {r : Redirector} {stack rest : ArgStack}
  {w u v v' y : World σ} {l : Linkage} {m n block scratch c i : Nat} {params : List Parameter}
  {param : Parameter} {s : State} {b : LinkedArg} {p q : Property} {src old : Value}
  {fv : ForeignValue} {made : Option Address} {target receiver result returned : Option Address}
  {pointers : List Address} {staged : List StagedArg}

/-! ## The cells of the caller -/

/-- An output that goes to a cell of the caller was lent it. -/
theorem Loads.lent_of_output (h : Loads call key r stack w l m params rest u)
    (hL : Laid block scratch params s) (hi : params[i]? = some param) {o : Nat}
    (hout : param.output = .cell c o) (hc : c < block) :
    o = 0 ∧ stack.argFor r.function.params i = some ⟨c, true⟩ := by
  obtain ⟨c', o', hplace, hle, -⟩ := hL.cell (List.mem_of_getElem? hi)
  have hne : param.output ≠ param.place := by
    rw [hout, hplace]
    rintro ⟨⟩
    omega
  have houtput := h.loaded.output hi
  split at houtput
  · exact absurd houtput hne
  · obtain ⟨⟨c'', byRef⟩, harg, houtput⟩ := houtput
    cases byRef with
    | false => exact absurd houtput hne
    | true =>
      cases hout.symm.trans houtput
      exact ⟨rfl, harg⟩

/-- A cell that is lent once receives the output that it is lent for. -/
theorem Loads.received_lent (h : Loads call key r stack w l m params rest u)
    (hL : Laid block scratch params s) (hlent : stack.LentOnce r.function.params i c)
    (hc : c < block) (hi : params[i]? = some param) {d : Delivery}
    (hd : output? l scratch v'.state i param = some d) (old : Value) :
    received l scratch v'.state c 0 params old = d.put 0 old := by
  have hout : param.output = .ofCell c := by
    have houtput := h.loaded.output hi
    split at houtput
    · rename_i hret
      have hp : r.function.params[i]? = some param.property := by
        rw [← h.loaded.properties, List.getElem?_map, hi]
        rfl
      have hlent := hlent.lent
      unfold ArgStack.argFor at hlent
      rw [hp] at hlent
      change (if param.property.isReturn then none else _) = _ at hlent
      rw [if_pos hret] at hlent
      cases hlent
    · obtain ⟨a, harg, houtput⟩ := houtput
      cases harg.symm.trans hlent.lent
      exact houtput
  rw [received_of_unique hi ((Nat.zero_add i).symm ▸ hd) fun k param' hk hne o ho => hne <|
    hlent.once k (h.lent_of_output hL hk ho hc).2, hout]
  exact d.into_cell_self c 0 old

/-- A cell that is not lent receives nothing. -/
theorem Loads.received_unlent (h : Loads call key r stack w l m params rest u)
    (hL : Laid block scratch params s)
    (hlent : ∀ i, stack.argFor r.function.params i ≠ some ⟨c, true⟩) (hc : c < block) (old : Value) :
    received l scratch v'.state c 0 params old = old := by
  refine received_of_none (fun param hmem o ho => ?_) old
  obtain ⟨i, hi⟩ := List.mem_iff_getElem?.1 hmem
  exact hlent i (h.lent_of_output hL hi ho hc).2

/-! ## The end of a call -/

/-- A box has a payload. -/
theorem unbox_eq_ok {s : State} {a f : Address} (h : s.unbox a = .ok f) :
    ∃ i os len, a = .foreign i ∧ f = .payload i ∧ s.heap.objects.get? i = some (.boxed os len) := by
  unfold State.unbox at h
  split at h
  · rename_i i os len hi
    cases h
    exact ⟨i, os, len, rfl, rfl, hi⟩
  · cases h
  · cases h

/-- The property of an argument is served by the marshaller of its kind. -/
theorem ofTag_of_mem {registry : Registry} {function : Function} {args : List ForeignArg}
    (h : Linkage.Matches registry function args l) (hregistry : registry.Proper) (hb : b ∈ l.args)
    (hq : function.params[b.param]? = some q) : Marshaller.ofTag q.kind.tag = some b.marshaller := by
  obtain ⟨_, hbinds⟩ := h.exists_binds hb
  obtain ⟨q', hq', -, hresolve⟩ := hbinds.property
  cases hq.symm.trans hq'
  exact hregistry.ofTag_of_resolve hresolve

/-- So is that of the return value. -/
theorem ofTag_of_returnOf {registry : Registry} {function : Function} {args : List ForeignArg}
    {mq : Marshaller} (h : Linkage.Matches registry function args l) (hregistry : registry.Proper)
    (hreturn : returnOf function l = some (q, mq)) : Marshaller.ofTag q.kind.tag = some mq := by
  obtain ⟨ret, hret, hreturn⟩ := Option.bind_eq_some_iff.1 hreturn
  obtain ⟨q', hq', hreturn⟩ := Option.bind_eq_some_iff.1 hreturn
  cases hreturn
  obtain ⟨_, hq'', hresolve⟩ := h.result ret hret
  cases hq'.symm.trans hq''
  exact hregistry.ofTag_of_resolve hresolve

/-- A value that was returned can be copied back if an argument of its kind was staged. -/
theorem Staged.accepts {args : List LinkedArg} {x : World σ} {given : Nat → Value} {a : LinkedArg}
    {mq : Marshaller} {value f : Address} (h : Staged call block scratch params given args x pointers v)
    (hgrows : v.state.Grows v'.state) (ha : a ∈ args) (hparam : params[a.param]? = some param)
    (hm : Marshaller.ofTag param.property.kind.tag = some a.marshaller)
    (hkind : q.kind = param.property.kind) (hmq : Marshaller.ofTag q.kind.tag = some mq)
    (hlaid : q.size = q.kind.hostLayout.size ∧
      ∀ width, q.kind = .enumeration width → width ∈ [1, 2, 4, 8])
    (hf : if mq.isReference then f = value else v'.state.unbox value = .ok f) :
    mq.Accepts q v'.state f := by
  refine Marshaller.accepts_of_layout hmq hlaid.1 hlaid.2 (fun hdata => ?_) fun hstruct info hinfo => ?_
  · rw [hdata] at hf
    obtain ⟨_, _, _, -, rfl, -⟩ := unbox_eq_ok hf
    nofun
  · -- A struct was met when the argument was staged.
    have hsame : a.marshaller = .struct := by
      rw [hkind, hm] at hmq
      exact (Option.some.inj hmq).trans hstruct
    have hinfo' : param.property.structInfo = .ok info := by
      unfold Property.structInfo at hinfo ⊢
      rw [← hkind]
      split at hinfo
      · exact hinfo
      · cases hinfo
    obtain ⟨factory, hfactory⟩ := h.met a ha hsame param info hparam hinfo'
    exact ⟨factory, hgrows.factory _ _ hfactory⟩

/-- What was returned is found in a world where only outputs were copied since. -/
theorem unwrap_eq {x : World σ} {base : Nat} {g : Nat → Value → Value} {mq : Marshaller}
    {value f : Address} (hx : v'.Puts base g x)
    (hf : if mq.isReference then f = value else v'.state.unbox value = .ok f) :
    mq.unwrap q value call x = .ok f x ∧ (mq = .struct → x.state.Reaches f) ∧
      x.state.readAt f (mq.reads q) = v'.state.readAt f (mq.reads q) := by
  unfold Marshaller.unwrap
  cases href : mq.isReference with
  | true =>
    rw [href] at hf
    obtain rfl : f = value := hf
    -- Nothing is read of a reference.
    have hzero : mq.reads q = 0 := by
      cases mq <;> first | rfl | cases href
    refine ⟨rfl, ?_, ?_⟩
    · rintro rfl
      cases href
    · rw [hzero, List.eq_nil_of_length_eq_zero (State.length_readAt _ _ 0),
        List.eq_nil_of_length_eq_zero (State.length_readAt _ _ 0)]
  | false =>
    rw [href] at hf
    obtain ⟨i, os, len, rfl, rfl, hi⟩ := unbox_eq_ok hf
    -- A box cannot change while outputs are copied.
    have hx : x.state.heap.objects.get? i = some (.boxed os len) := by
      obtain h | ⟨h, -⟩ := hx.objects i
      · exact h.trans hi
      · rw [hi] at h
        cases h
    have hget : x.state.heap.get? (.foreign i) = some (.boxed os len) := hx
    have hboxed : x.state.heap.isBoxed (.foreign i) = true := by
      unfold Heap.isBoxed
      rw [hget]
    have hunbox : x.state.unbox (.foreign i) = .ok (.payload i) := by
      unfold State.unbox
      rw [hget]
    refine ⟨?_, fun _ c n h => ?_, ?_⟩
    · show (if x.state.heap.isBoxed (.foreign i) then ofPanic (x.state.unbox (.foreign i))
          else if mq = .classRef then abandon (.unboxedClass q.name) else pure (.foreign i) :
            Act σ Address) call x = _
      rw [if_pos hboxed, hunbox]
      rfl
    · cases h
    · unfold State.readAt
      dsimp only
      rw [hx, hi]

/-- What was returned is copied to the place of the result as the method has left it, if it can be
copied at all. -/
theorem ends_copyResult_of_value {x : World σ} {base : Nat} {g : Nat → Value → Value}
    {ps : List Property} {mq : Marshaller} {value f : Address} (hx : v'.Puts base g x)
    (hw : v'.WritesBack ps) (hn : v'.state.heap.Numbered) {function : Function}
    (hreturn : returnOf function l = some (q, mq)) (hq : q ∈ ps)
    (hf : if mq.isReference then f = value else v'.state.unbox value = .ok f) :
    Ends (copyResult function l (some value) (some (.ofCell c)) (callAt (n + 1)) x)
      (fun _ y => x.Puts x.state.memory.next ((mq.delivery q v'.state f).into (.ofCell c)) y)
      fun _ _ => ¬mq.Accepts q x.state f := by
  obtain ⟨hunwrap, hreach, hread⟩ :
      mq.unwrap q value (callAt (n + 1)) x = .ok f x ∧ (mq = .struct → x.state.Reaches f) ∧
        x.state.readAt f (mq.reads q) = v'.state.readAt f (mq.reads q) := unwrap_eq hx hf
  unfold copyResult
  rw [hreturn]
  show Ends ((mq.unwrap q value >>= fun a => mq.toHost q (.ofCell c) a : Act σ Unit)
    (callAt (n + 1)) x) _ _
  rw [bind_of_ok hunwrap]
  refine (Marshaller.ends_toHost (hx.writesBack hw) (hx.numbered hn) (Nat.le_refl _) hq mq f).mono ?_
    fun _ _ h => h.2
  rintro _ y ⟨d, hy, hd⟩
  rw [hd hreach, Marshaller.delivery_congr hread hx.objects] at hy
  exact hy

theorem ends_copyResult_of_returned {x : World σ} {base : Nat} {g : Nat → Value → Value}
    {ps : List Property} {mq : Marshaller} {value f : Address} (hx : v'.Puts base g x)
    (hw : v'.WritesBack ps) (hn : v'.state.heap.Numbered) {function : Function}
    (hreturn : returnOf function l = some (q, mq)) (hq : q ∈ ps)
    (hf : if mq.isReference then f = value else v'.state.unbox value = .ok f)
    (haccepts : mq.Accepts q v'.state f) :
    Ends (copyResult function l (some value) (some (.ofCell c)) (callAt (n + 1)) x)
      (fun _ y => x.Puts x.state.memory.next ((mq.delivery q v'.state f).into (.ofCell c)) y)
      fun _ _ => False :=
  (ends_copyResult_of_value hx hw hn hreturn hq hf).mono (fun _ _ h => h)
    fun _ _ h => h (haccepts.puts hx)

section Answered

variable {o : List Owed} {registry : Registry} {x : World σ}
  (hloads : Loads (callAt (n + 1)) key r stack w l m params rest u)
  (hr : w.state.redirector? key = some r) (hw : w.Tallied o)
  (hcells : ∀ a ∈ stack.args, a.cell < w.state.memory.next)
  (hmatches : Linkage.Matches registry r.function r.method.args l)
  (hregistry : registry.Proper) (hlaid : r.function.LaidOut)
  (hprepare : prepare r.function l target params (callAt (n + 1)) u =
    .ok (pointers, staged, receiver) v)
  (hstaged : Staged (guarded (n + 1) w.state.memory.next u.state.memory.next) w.state.memory.next
    u.state.memory.next params (supplied r.function.params stack w.state) l.args x pointers v)
  (hcall : callMethod m receiver pointers (callAt (n + 1)) v = .ok (.ok returned) v')
  (hwrites : v'.WritesBack r.function.params)
  (hslots : ∀ a ∈ l.args, a.byRef = true → a.marshaller.isReference = false →
    v'.state.readAt (Slot.pointer ⟨u.state.memory.next, a.scratchOffset⟩) addressSize =
      v.state.readAt (Slot.pointer ⟨u.state.memory.next, a.scratchOffset⟩) addressSize)
include hloads hr hw hcells hmatches hregistry hlaid hprepare hstaged hcall hwrites hslots

/-- However a call ends whose method has returned, the caller finds in the storage of an output what
the method has left for it. -/
theorem finds_output {d : Delivery} (hresult : ∀ a, result = some a → ∃ c o, a = .cell c o)
    (hb : b ∈ l.args) (hby : b.byRef = true) (hq : r.function.params[b.param]? = some q)
    (hd : b.marshaller.delivery q v'.state
      (v'.state.addressAt (Slot.pointer ⟨u.state.memory.next, b.scratchOffset⟩)) = d)
    (hlent : stack.LentOnce r.function.params b.param c) (hne : ∀ o, result ≠ some (.cell c o))
    (hold : v'.state.memory.cells.get? c = some old) :
    Ends (invoke key r target stack result (callAt (n + 1)) w)
      (fun _ y => y.state.memory.cells.get? c = some (d.put 0 old))
      fun f y => f ≠ .exhausted → y.state.memory.cells.get? c = some (d.put 0 old) := by
  have hc : c < w.state.memory.next := hcells ⟨c, true⟩ (ArgStack.mem_of_argFor hlent.lent)
  obtain ⟨param, hparam, rfl⟩ : ∃ param, params[b.param]? = some param ∧ param.property = q := by
    rw [← hloads.loaded.properties, List.getElem?_map] at hq
    exact Option.map_eq_some_iff.1 hq
  have houtput : output? l u.state.memory.next v'.state b.param param = some d := by
    unfold output?
    rw [hmatches.forParam_eq hb]
    dsimp only
    rw [if_pos hby, hd]
  -- All that is received is brought to the cell before the call is left, which keeps it.
  have hbrings := hloads.brings hr hw hcells hmatches hstaged hprepare hcall hwrites hregistry hlaid
    hslots hresult
  have horder := hstaged.laid.order
  have hfound {y z : World σ} (hy : Brings l u.state.memory.next params result v'.state y)
      (hkeeps : y.state.Keeps (fun c => c < w.state.memory.next) z.state) :
      z.state.memory.cells.get? c = some (d.put 0 old) := by
    rw [hkeeps c hc, hy c (by omega) hne, hold, Option.map_some,
      hloads.received_lent hstaged.laid hlent hc hparam houtput]
  refine (hloads.ends_invoke hr hprepare hcall hbrings).mono ?_ ?_
  · rintro ended z ⟨y, hkeeps, ⟨-, hy⟩ | ⟨e, -, hy⟩⟩
    · exact hfound hy hkeeps
    · exact hfound hy hkeeps
  · rintro f z ⟨y, hkeeps, hy⟩ hne
    exact hfound hy (hkeeps hne)

/-- A call whose method has returned a value that can be copied back succeeds, and the caller finds in
the storage of the result what the method has returned. -/
theorem finds_result {mq : Marshaller} {value f : Address} {d : Delivery}
    (hreturn : returnOf r.function l = some (q, mq)) (hvalue : returned = some value)
    (hf : if mq.isReference then f = value else v'.state.unbox value = .ok f)
    (haccepts : mq.Accepts q v'.state f) (hd : mq.delivery q v'.state f = d)
    (hunlent : ∀ i, stack.argFor r.function.params i ≠ some ⟨c, true⟩)
    (hc : c < w.state.memory.next) (hold : v'.state.memory.cells.get? c = some old) :
    ∃ z, invoke key r target stack (some (.ofCell c)) (callAt (n + 1)) w = .ok (.ok (), rest) z ∧
      z.state.memory.cells.get? c = some (d.put 0 old) := by
  subst hvalue
  obtain ⟨hn, hnext, -, hback⟩ := hloads.ends_writeBack hr hw hcells hmatches hstaged hprepare hcall
    hwrites hregistry hlaid hslots
  have horder := hstaged.laid.order
  -- The slots are copied back first; the cell of the result is none that was lent, so it is still as
  -- the method has left it.
  have hfinish : Ends (finish r.function l params staged (some (.ofCell c)) (.ok (some value))
      (callAt (n + 1)) v') (fun _ y => y.state.memory.cells.get? c = some (d.put 0 old))
      fun _ _ => False := by
    refine ends_bind hback fun _ z hz => ?_
    refine (ends_copyResult_of_returned hz hwrites hn hreturn (mem_of_returnOf hreturn) hf
      haccepts).mono (fun _ y hy => ?_) fun _ _ h => h
    rw [hy.cells c (Nat.lt_of_lt_of_le (by omega) hz.next), hz.cells c (by omega), hold,
      Option.map_some, Option.map_some,
      hloads.received_unlent hstaged.laid hunlent hc, hd]
    exact congrArg some (d.into_cell_self c 0 old)
  have hends := hloads.ends_invoke hr hprepare hcall hfinish
  cases hinvoke : invoke key r target stack (some (.ofCell c)) (callAt (n + 1)) w with
  | ok ended z =>
    rw [hinvoke] at hends
    obtain ⟨y, hkeeps, ⟨rfl, hy⟩ | ⟨_, -, h⟩⟩ := hends
    · exact ⟨z, rfl, (hkeeps c hc).trans hy⟩
    · exact h.elim
  | error f z =>
    rw [hinvoke] at hends
    obtain ⟨_, -, h⟩ := hends
    exact h.elim

end Answered

/-- What comes before the method happens also where the method may do anything to the call. -/
theorem Ready.prepares {function : Function} {ps : List Property} {n : Nat} {src : Nat → Value}
    (h : Ready ps block u.state.memory.next params src l.args
      { u with state := (u.state.frameCell (.plain [])).2 })
    (htarget : ∀ a, target = some a → function.flags.static = true ∨ u.Connects a) :
    (∃ o v, prepare function l target params (callAt (n + 1)) u = .error (.panic (.overflow o)) v) ∨
    ∃ pointers staged receiver v,
      prepare function l target params (guarded (n + 1) block u.state.memory.next) u =
        .ok (pointers, staged, receiver) v ∧
      prepare function l target params (callAt (n + 1)) u = .ok (pointers, staged, receiver) v := by
  have hstrict := prepare_strict (callAt_grows (n + 1)) function l target params u
  have huntil : Invoker.Until (guarded (n + 1) block u.state.memory.next) .exhausted
      (callAt (n + 1) : Invoker σ) := Invoker.guard_until _ _
  have hends : Ends (prepare function l target params (guarded (n + 1) block u.state.memory.next) u)
      (fun _ _ => True) fun f _ => f.IsOverflow := h.ends_prepare htarget
  cases hguarded : prepare function l target params (guarded (n + 1) block u.state.memory.next) u with
  | ok a v =>
    obtain ⟨pointers, staged, receiver⟩ := a
    exact .inr ⟨pointers, staged, receiver, v, rfl,
      hstrict.ok Failure.isFatal_exhausted huntil hguarded⟩
  | error f v =>
    rw [hguarded] at hends
    obtain ⟨o, rfl⟩ := hends
    have hne : Failure.panic (.overflow o) ≠ .exhausted := nofun
    exact .inl ⟨o, v, hstrict.error Failure.isFatal_exhausted huntil hne hguarded⟩

end Redirection

open Redirection Act in
/-- Where the stock library is in place, a call of a linked function is too large, or it gets as far as
its method. If that hands on what it was handed for an argument, as an output or as its result, and
leaves the proxy of an object connected, then the caller finds there the value that it has supplied. -/
theorem echo_is_identity {config : Config} {side : ForeignSide σ} {memory : σ} {start w v₀ : World σ}
    {rs : List Request} {n m : Nat} {key : Redirector.Key} {r : Redirector} {l : Linkage}
    {stack : ArgStack} {target result : Option Address}
    (hside : side.foreign.heap = .empty)
    (hstart : World.connect config .default side memory = .ok start)
    (hsees : Session.Sees (fun _ _ => True) (fun _ => True) start rs w)
    (hr : w.state.redirector? key = some r)
    (hlinked : linked key r (callAt (n + 1)) w = .ok (.ok (l, m)) v₀)
    (halign : isPowerOfTwo (max r.function.block.align 1) = true) (hapart : r.function.Apart)
    (hlaid : r.function.LaidOut)
    (hlength : stack.cursor + r.function.params.countP (fun p => !p.isReturn) ≤ stack.args.length)
    (hcells : ∀ a ∈ stack.args, a.cell < w.state.memory.next)
    (hresult : ∀ a, result = some a → ∃ c < w.state.memory.next, a = .ofCell c)
    (hpresents : w.Presents r.function.params)
    (htarget : ∀ a, target = some a → r.function.flags.static = true ∨ w.Connects a)
    (hvalues : ∀ a ∈ l.args, a.byRef = false → ∀ p, r.function.params[a.param]? = some p →
      w.IsValue p (supplied r.function.params stack w.state a.param)) :
    (∃ o v, invoke key r target stack result (callAt (n + 1)) w = .error (.panic (.overflow o)) v) ∨
    ∃ params rest u pointers staged receiver v,
      Loads (callAt (n + 1)) key r stack w l m params rest u ∧
      prepare r.function l target params (callAt (n + 1)) u = .ok (pointers, staged, receiver) v ∧
      ∀ returned v', callMethod m receiver pointers (callAt (n + 1)) v = .ok (.ok returned) v' →
        v'.WritesBack r.function.params →
        (∀ a ∈ l.args, a.byRef = true → a.marshaller.isReference = false →
          v'.state.readAt (Slot.pointer ⟨u.state.memory.next, a.scratchOffset⟩) addressSize =
            v.state.readAt (Slot.pointer ⟨u.state.memory.next, a.scratchOffset⟩) addressSize) →
        ∀ (j : Nat) (a : LinkedArg) (p : Property) (pointer : Address), l.args[j]? = some a →
          a.byRef = false →
          r.function.params[a.param]? = some p → pointers[j]? = some pointer →
          (a.marshaller = .object →
            v'.state.nativeBehind pointer = v.state.nativeBehind pointer) →
          let src := supplied r.function.params stack w.state a.param
          let handed := a.marshaller.handed p v.state pointer
          (∀ (b : LinkedArg) (q : Property) (c : Nat) (old : Value), b ∈ l.args → b.byRef = true → r.function.params[b.param]? = some q →
            q.kind = p.kind → stack.LentOnce r.function.params b.param c → result ≠ some (.ofCell c) →
            v'.state.memory.cells.get? c = some old → old.isPlain = q.inBlock →
            leftFor b q u.state.memory.next v'.state = handed →
            Ends (invoke key r target stack result (callAt (n + 1)) w) 
              (fun _ x => x.Finds c q old src) fun f x => f ≠ .exhausted → x.Finds c q old src) ∧
          ∀ (q : Property) (mq : Marshaller) (value : Address) (c : Nat) (old : Value),
            returnOf r.function l = some (q, mq) → q.kind = p.kind →
            returned = some value → result = some (.ofCell c) →
            (∀ i, stack.argFor r.function.params i ≠ some ⟨c, true⟩) →
            v'.state.memory.cells.get? c = some old → old.isPlain = q.inBlock →
            Returns mq q v'.state value handed →
            ∃ x, invoke key r target stack result (callAt (n + 1)) w = .ok (.ok (), rest) x ∧
              x.Finds c q old src := by
  have hmatches := Linkage.matches_of_link (link_of_linked hstart hsees hr hlinked)
  obtain ⟨o, hw⟩ := hsees.tallied hside hstart
  -- The parameters are loaded and the arguments staged, unless one is too large.
  obtain hlarge | ⟨params, rest, u, hloads⟩ :=
    loads_or_overflow hlinked halign hlength target result
  · exact .inl hlarge
  have hready := hloads.ready halign hlength hapart hcells hmatches Registry.proper_default hlaid
    hpresents hw.balanced.numbered hvalues
  have hreceives : ∀ a, target = some a → r.function.flags.static = true ∨ u.Connects a :=
    fun a ha => (htarget a ha).imp_right hloads.gains.connects
  obtain ⟨o, v, hlarge⟩ | ⟨pointers, staged, receiver, v, hguarded, hprepare⟩ :=
    hready.prepares (n := n) hreceives
  · refine .inl ⟨o, { v with state := v.state.leave key }, ?_⟩
    rw [hloads.invoke_eq]
    unfold Act.attempt
    rw [run_eq, bind_of_error hlarge]
  refine .inr ⟨params, rest, u, pointers, staged, receiver, v, hloads, hprepare, ?_⟩
  intro returned v' hcall hwrites hslots j a p pointer ha hby hp hpointer hnative src handed
  obtain ⟨x, hstaged⟩ := staged_of_prepare hloads halign hlength hapart hcells hmatches hguarded
  obtain ⟨param, hparam, rfl⟩ : ∃ param, params[a.param]? = some param ∧ param.property = p := by
    rw [← hloads.loaded.properties, List.getElem?_map] at hp
    exact Option.map_eq_some_iff.1 hp
  -- What the method was handed still stands for what was supplied, when it has answered.
  obtain ⟨made, -, hanswered⟩ :=
    hloads.renders hr hw hready hreceives hguarded ha hby hparam hpointer
  have hrenders : a.marshaller.Renders v'.state param.property src handed made :=
    hanswered _ v' hcall hnative
  have hm := ofTag_of_mem hmatches Registry.proper_default (List.mem_of_getElem? ha) hp
  have hsize {q : Property} (hq : q ∈ r.function.params) : q.size = q.kind.hostLayout.size :=
    (hlaid q hq).1
  have hmem := List.mem_of_getElem? hp
  -- An output is copied back from its slot, the result from what was returned.
  refine ⟨?_, ?_⟩
  · intro b q c old hb hbyb hq hkind hlent hne hold hplain hleft
    have hmb := ofTag_of_mem hmatches Registry.proper_default hb hq
    have hdelivery := Marshaller.delivery_of_renders hrenders hm (hsize hmem) hkind hmb
      (hsize (List.mem_of_getElem? hq)) hleft
    have hends := finds_output hloads hr hw hcells hmatches Registry.proper_default hlaid hprepare
      hstaged hcall hwrites hslots (fun a ha => (hresult a ha).imp fun c h => ⟨0, h.2⟩) hb hbyb hq
      hdelivery hlent (fun o ho => ?_) hold
    · have hechoes := hrenders.echoes hm hkind hplain
      exact hends.mono (fun _ _ hx => ⟨_, hx, hechoes⟩) fun _ _ hx hne => ⟨_, hx hne, hechoes⟩
    · obtain ⟨_, -, hcell⟩ := hresult _ ho
      cases hcell
      exact hne ho
  · intro q mq value c old hreturn hkind hvalue hout hunlent hold hplain hreturns
    subst hout
    obtain ⟨_, hc, hcell⟩ := hresult _ rfl
    cases hcell
    obtain ⟨f, hf, hhanded⟩ := hreturns
    have hq := mem_of_returnOf hreturn
    have hmq := ofTag_of_returnOf hmatches Registry.proper_default hreturn
    have hgrows : v.state.Grows v'.state :=
      (ends_iff.1 (callAt_grows (n + 1) m ⟨receiver, pointers⟩ v)).1 _ _ hcall
    have haccepts := hstaged.accepts hgrows (List.mem_of_getElem? ha) hparam hm hkind hmq (hlaid q hq) hf
    have hdelivery := Marshaller.delivery_of_renders hrenders hm (hsize hmem) hkind hmq (hsize hq)
      hhanded
    obtain ⟨z, hinvoke, hz⟩ := finds_result hloads hr hw hcells hmatches Registry.proper_default hlaid
      hprepare hstaged hcall hwrites hslots hreturn hvalue hf haccepts hdelivery hunlent hc hold
    exact ⟨z, hinvoke, _, hz, hrenders.echoes hm hkind hplain⟩

/-! ## A text, a null object and an object that is severed -/

namespace Sample

/-- The stock library, a method that hands on what it is given, and one that severs an object first. -/
def echoingBodies : List (Invocation → Program Unit) :=
  (Library.engine config.engine).methods.map MethodDef.body ++ [handing, handing, severing]
where
  handing (inv : Invocation) : Program Unit :=
    match inv.args with
    | [given] => .done given.nonNull
    | [given, kept] => .ask (.write kept given.octets) fun _ => .done given.nonNull
    | _ => .done none
  severing (inv : Invocation) : Program Unit :=
    .ask (.teardown (.hostObject 0)) fun _ => handing inv

def echoingStart : World Unit :=
  world [method "Echo" ["string", "string&"], method "Same" ["P"], method "Part" ["P", "P&"]]
    echoingBodies
where
  method (name : String) (params : List String) : MethodInfo :=
    ⟨"G", ⟨"", "T", name, some params⟩, params.length, 0⟩

/-- A function that takes a value, returns one and, where there is room for it, keeps one. -/
def handingOn (name : String) (kind : Kind) (params : List String) (keeps : Bool) : Redirector where
  function := ⟨"T", name, ⟨true, true, true, false⟩,
    [property "Given" 0 ⟨true, false, false, false, false⟩] ++
      (if keeps then [property "Kept" 24 ⟨true, true, false, true, false⟩] else []) ++
      [property "ReturnValue" 48 ⟨true, true, true, false, false⟩], ⟨72, 8⟩⟩
  method := ⟨"G", ⟨"", "T", name, some params⟩, [⟨"Given", false, false⟩] ++
    (if keeps then [⟨"Kept", true, false⟩] else []) ++ [⟨"ReturnValue", false, true⟩]⟩
  binding := .unbound
  depth := 0
where
  property (name : String) (offset : Nat) (flags : ParamFlags) : Property :=
    ⟨name, kind, kind.hostLayout.size, kind.hostLayout.align, offset, flags⟩

def echo : Redirector := handingOn "Echo" .string ["string", "string&"] true

def same : Redirector := handingOn "Same" .object ["P"] false

def part : Redirector := handingOn "Part" .object ["P", "P&"] true

def echoing : Program Unit :=
  .ask (.defineType "G" "P") fun _ =>
  .define ⟨"G", ⟨"", "P", ".ctor", some ["intptr"]⟩, 1, 0⟩
    (fun inv => (Library.connect inv).toProgram) fun _ =>
  .ask (.defineClass ⟨"P", "P", "G", .native, false⟩ none) fun c =>
  .ask (.spawn c none "o") fun o =>
  .ask (.redirect echo.function echo.method) fun _ =>
  .ask (.redirect same.function same.method) fun _ =>
  .ask (.redirect part.function part.method) fun _ =>
  .ask (.allot (.string "new")) fun _ => .ask (.allot (.string "old")) fun _ =>
  .ask (.allot (.string "")) fun _ => .ask (.allot (.plain Address.null.octets)) fun _ =>
  .ask (.allot (.plain o.octets)) fun _ => .ask (.allot (.plain o.octets)) fun _ => .done none

/-- A call whose method has returned, as far as it has come. -/
structure Answered where
  linkage : Linkage
  method : Nat
  params : List Parameter
  rest : ArgStack
  loaded : World Unit
  pointers : List Address
  staged : List StagedArg
  receiver : Option Address
  entered : World Unit
  returned : Option Address
  left : World Unit

def answered (r : Redirector) (stack : ArgStack) (w : World Unit) : Option Answered :=
  match Redirection.linked ("T", r.function.name) r (callAt 3) w with
  | .ok (.ok (l, m)) v₀ =>
    match Redirection.load ("T", r.function.name) r l stack (callAt 3)
      { v₀ with state := v₀.state.enter ("T", r.function.name) } with
    | .ok (params, rest) u =>
      match Redirection.prepare r.function l none params (callAt 3) u with
      | .ok (pointers, staged, receiver) v =>
        match Act.callMethod m receiver pointers (callAt 3) v with
        | .ok (.ok returned) v' =>
          some ⟨l, m, params, rest, u, pointers, staged, receiver, v, returned, v'⟩
        | _ => none
      | .error _ _ => none
    | .error _ _ => none
  | _ => none

open Redirection in
/-- The call takes these steps. -/
structure Answered.Steps (c : Answered) (r : Redirector) (stack : ArgStack) (w : World Unit) :
    Prop where
  linked : ∃ v₀, linked ("T", r.function.name) r (callAt 3) w = .ok (.ok (c.linkage, c.method)) v₀
  loads : Loads (callAt 3) ("T", r.function.name) r stack w c.linkage c.method c.params c.rest c.loaded
  prepared : Redirection.prepare r.function c.linkage none c.params (callAt 3) c.loaded =
    .ok (c.pointers, c.staged, c.receiver) c.entered
  called : Act.callMethod c.method c.receiver c.pointers (callAt 3) c.entered =
    .ok (.ok c.returned) c.left

theorem steps_of_answered {r : Redirector} {stack : ArgStack} {w : World Unit} {c : Answered}
    (h : answered r stack w = some c) : c.Steps r stack w := by
  unfold answered at h
  split at h
  case h_2 => cases h
  rename_i l m v₀ hlinked
  split at h
  case h_2 => cases h
  rename_i params rest u hload
  split at h
  case h_2 => cases h
  rename_i pointers staged receiver v hprepare
  split at h
  case h_2 => cases h
  rename_i returned v' hcall
  cases h
  exact ⟨⟨v₀, hlinked⟩, ⟨v₀, hlinked, hload⟩, hprepare, hcall⟩

def echoStack : ArgStack := ⟨[⟨0, false⟩, ⟨1, true⟩], 0⟩

def echoLinkage : Linkage := ⟨[⟨0, .string, false, 0⟩, ⟨1, .string, true, 8⟩], some ⟨2, .string⟩⟩

/-- The method has left and has returned the text that it was given. -/
def isEchoing (w : World Unit) : Bool :=
  match answered echo echoStack w,
    Redirection.invoke ("T", "Echo") echo none echoStack (some (.ofCell 2)) (callAt 3) w with
  | some c, .ok (.ok (), _) _ => c.linkage == echoLinkage && c.pointers == [.foreign 0, .cell 10 8] &&
      c.loaded.state.memory.next == 10 && c.returned == some (.foreign 0) &&
      c.left.state.addressAt (Slot.pointer ⟨10, 8⟩) == .foreign 0 &&
      c.left.state.memory.cells.get? 1 == some (.string "old") &&
      c.left.state.memory.cells.get? 2 == some (.string "")
  | _, _ => false

def sameStack : ArgStack := ⟨[⟨3, false⟩], 0⟩

/-- The method has returned the null that it was given, and the result still is another object. -/
def isStale (w : World Unit) : Bool :=
  match answered same sameStack w,
    Redirection.invoke ("T", "Same") same none sameStack (some (.ofCell 4)) (callAt 3) w with
  | some c, .ok (.ok (), _) x => c.pointers == [.null] && c.returned == none &&
      x.state.memory.cells.get? 4 == some (.plain (Address.hostObject 0).octets)
  | _, _ => false

def partStack : ArgStack := ⟨[⟨4, false⟩, ⟨5, true⟩], 0⟩

/-- The method has left the object that it was given, and the caller finds null. -/
def isParting (w : World Unit) : Bool :=
  match answered part partStack w,
    Redirection.invoke ("T", "Part") part none partStack none (callAt 3) w with
  | some c, .ok (.ok (), _) x => c.pointers == [.foreign 0, .cell 7 8] &&
      c.loaded.state.memory.next == 7 &&
      c.entered.state.nativeBehind (.foreign 0) == .hostObject 0 &&
      c.left.state.addressAt (Slot.pointer ⟨7, 8⟩) == .foreign 0 &&
      x.state.memory.cells.get? 5 == some (.plain Address.null.octets)
  | _, _ => false

theorem run_echoing : endsIn 3 echoing echoingStart (fun w =>
      w.state.redirector? ("T", "Echo") == some echo &&
      w.state.redirector? ("T", "Same") == some same &&
      w.state.redirector? ("T", "Part") == some part && w.state.memory.next == 6 &&
      w.state.memory.cells.get? 0 == some (.string "new") &&
      w.state.memory.cells.get? 3 == some (.plain Address.null.octets) &&
      w.state.memory.cells.get? 4 == some (.plain (Address.hostObject 0).octets) &&
      isEchoing w && isStale w && isParting w) = true := by
  decide +kernel

/-- Where the methods of the stock library come first, they pass values that are no structs. -/
theorem presents_of_stock {v : World Unit} {ps : List Property} (hbodies : stock <+: v.bodies)
    (hhelpers : v.state.bridge.helpers = (world [] []).state.bridge.helpers)
    (hps : ∀ p ∈ ps, ∀ info, p.kind ≠ .struct info) : v.Presents ps := by
  have hbody {i : Nat} {body : Invocation → Program Unit} (hi : stock[i]? = some body) :
      v.bodies[i]? = some body := body_of_stock hbodies hi
  have hstruct {p : Property} {info : StructInfo} (hp : p ∈ ps) : p.structInfo ≠ .ok info := by
    intro hinfo
    unfold Property.structInfo at hinfo
    split at hinfo
    · rename_i hkind
      exact hps p hp _ hkind
    · cases hinfo
  refine ⟨?_, ?_, fun {p make write} h => ?_, fun {p make write} h => ?_,
    fun hp hinfo => absurd hinfo (hstruct hp), fun hp hinfo => absurd hinfo (hstruct hp)⟩
  · rw [hhelpers]
    exact hbody rfl
  · rw [hhelpers]
    exact hbody rfl
  · rw [hhelpers] at h
    unfold Helpers.collection at h
    split at h <;> cases h <;> exact hbody rfl
  · rw [hhelpers] at h
    unfold Helpers.softReference at h
    split at h <;> cases h <;> exact hbody rfl

/-- All parameters of such a function are of its kind. -/
theorem kind_handingOn {name : String} {kind : Kind} {params : List String} {keeps : Bool}
    {p : Property} (hp : p ∈ (handingOn name kind params keeps).function.params) :
    p.kind = kind ∧ p.size = kind.hostLayout.size := by
  unfold handingOn at hp
  obtain hp | hp := List.mem_append.1 hp
  · obtain hp | hp := List.mem_append.1 hp
    · obtain rfl := List.mem_singleton.1 hp
      exact ⟨rfl, rfl⟩
    · split at hp
      · obtain rfl := List.mem_singleton.1 hp
        exact ⟨rfl, rfl⟩
      · cases hp
  · obtain rfl := List.mem_singleton.1 hp
    exact ⟨rfl, rfl⟩

theorem lentOnce_echo : echoStack.LentOnce echo.function.params 1 1 := by
  refine ⟨rfl, fun k hk => ?_⟩
  match k with
  | 0 => cases hk
  | 1 => rfl
  | 2 => cases hk
  | k + 3 => cases hk

theorem unlent_echo (i : Nat) : echoStack.argFor echo.function.params i ≠ some ⟨2, true⟩ := by
  match i with
  | 0 => nofun
  | 1 => nofun
  | 2 => nofun
  | i + 3 => nofun

end Sample

open Redirection Act in
/-- `echo_is_identity` for a text that is left for an output and is returned. -/
theorem echo_is_identity_of_text :
    ∃ (w x : World Unit) (rest : ArgStack),
      Session.Sees (fun _ _ => True) (fun _ => True) Sample.echoingStart [] w ∧
      w.state.memory.cells.get? 0 = some (.string "new") ∧
      invoke ("T", "Echo") Sample.echo none Sample.echoStack (some (.ofCell 2)) (callAt 3) w =
        .ok (.ok (), rest) x ∧
      x.state.memory.cells.get? 1 = some (.string "new") ∧
      x.state.memory.cells.get? 2 = some (.string "new") := by
  obtain ⟨w, a, hr, hsees, hrun⟩ := Sample.sees_of_endsIn Sample.run_echoing
  simp only [Bool.and_eq_true, beq_iff_eq] at hrun
  obtain ⟨⟨⟨⟨⟨⟨⟨⟨⟨hecho, -⟩, -⟩, hnext⟩, hgiven⟩, -⟩, -⟩, hechoing⟩, -⟩, -⟩ := hrun
  unfold Sample.isEchoing at hechoing
  split at hechoing
  case h_2 => cases hechoing
  rename_i c rest x hanswered hinvoke
  -- The call, taken apart into its steps.
  obtain ⟨⟨v₀, hlinked⟩, ⟨v₁, hlinked₁, hload⟩, hprepare, hcall⟩ :=
    Sample.steps_of_answered hanswered
  obtain ⟨l, m, params, rest', u, pointers, staged, receiver, v, returned, v'⟩ := c
  simp only [Bool.and_eq_true, beq_iff_eq] at hechoing
  obtain ⟨⟨⟨⟨⟨⟨rfl, rfl⟩, hscratch⟩, rfl⟩, hslot⟩, hkept⟩, hresult⟩ := hechoing
  dsimp only at hlinked hlinked₁ hload hprepare hcall
  -- What the theorem asks of the function, of its storage and of the value.
  have hkind : ∀ p ∈ Sample.echo.function.params, p.kind = .string ∧ p.size = 24 :=
    fun _ => Sample.kind_handingOn
  have hkinds : ∀ p ∈ Sample.echo.function.params, ∀ info, p.kind ≠ .struct info := by
    intro p hp info
    rw [(hkind p hp).1]
    rintro ⟨⟩
  have hlaid : Sample.echo.function.LaidOut := by
    intro p hp
    rw [(hkind p hp).1]
    refine ⟨(hkind p hp).2, ?_⟩
    rintro _ ⟨⟩
  have hcells : ∀ a ∈ Sample.echoStack.args, a.cell < w.state.memory.next := by
    rw [hnext]
    decide
  have hpresents : w.Presents Sample.echo.function.params :=
    Sample.presents_of_stock ((List.prefix_append _ _).trans (bodies_of_run hr))
      hsees.grows.helpers hkinds
  have hsupplied : supplied Sample.echo.function.params Sample.echoStack w.state 0 =
      .string "new" := by
    have hvalue : supplied Sample.echo.function.params Sample.echoStack w.state 0 =
        (w.state.memory.get 0).skip 0 := rfl
    rw [hvalue, State.get_eq hgiven]
    rfl
  have hvalues : ∀ a ∈ Sample.echoLinkage.args, a.byRef = false →
      ∀ p, Sample.echo.function.params[a.param]? = some p →
        w.IsValue p (supplied Sample.echo.function.params Sample.echoStack w.state a.param) := by
    intro a ha hby p hp
    simp only [Sample.echoLinkage, List.mem_cons, List.not_mem_nil, or_false] at ha
    obtain rfl | rfl := ha
    · cases hp
      exact ⟨"new", hsupplied⟩
    · cases hby
  have hapart : Sample.echo.function.Apart := by
    unfold Function.Apart Property.Apart
    decide
  have htarget : ∀ a, (none : Option Address) = some a →
      Sample.echo.function.flags.static = true ∨ w.Connects a := by
    rintro _ ⟨⟩
  have hplace : ∀ a, some (Address.ofCell 2) = some a → ∃ c < w.state.memory.next, a = .ofCell c :=
    fun a ha => ⟨2, by rw [hnext]; decide, (Option.some.inj ha).symm⟩
  obtain ⟨o, e, hlarge⟩ | ⟨_, _, _, _, _, _, _, hloads, hprepare', hechoes⟩ :=
    echo_is_identity rfl (Sample.connect_world _ _) hsees hecho hlinked (by decide) hapart hlaid
      (by decide) hcells hplace hpresents htarget hvalues
  · cases hinvoke.symm.trans hlarge
  -- The steps that it speaks of are the ones that were taken.
  obtain ⟨v₂, hlinked₂, hload'⟩ := hloads
  cases hlinked₁.symm.trans hlinked₂
  cases hload.symm.trans hload'
  cases hprepare.symm.trans hprepare'
  have hloads : Loads (callAt 3) ("T", "Echo") Sample.echo Sample.echoStack w _ m _ _ u :=
    ⟨v₁, hlinked₁, hload⟩
  obtain ⟨_, hstages, hreceiver⟩ := stages_of_prepare hprepare
  obtain ⟨hbodies, hgrows⟩ := hloads.lasting hecho hstages hreceiver hcall
  have hwrites : v'.WritesBack Sample.echo.function.params :=
    Sample.writesBack_of_stock
      ((List.prefix_append _ _).trans ((bodies_of_run hr).trans hbodies))
      (hgrows.helpers.trans hsees.grows.helpers) hkinds
  have hslots : ∀ a ∈ Sample.echoLinkage.args, a.byRef = true → a.marshaller.isReference = false →
      v'.state.readAt (Slot.pointer ⟨u.state.memory.next, a.scratchOffset⟩) addressSize =
        v.state.readAt (Slot.pointer ⟨u.state.memory.next, a.scratchOffset⟩) addressSize := by
    intro a ha _ hdata
    simp only [Sample.echoLinkage, List.mem_cons, List.not_mem_nil, or_false] at ha
    obtain rfl | rfl := ha <;> cases hdata
  obtain ⟨houtput, hreturn⟩ := hechoes _ v' hcall hwrites hslots 0 ⟨0, .string, false, 0⟩ _ _ rfl rfl
    rfl rfl (by rintro ⟨⟩)
  let kept := Sample.handingOn.property .string "Kept" 24 ⟨true, true, false, true, false⟩
  have hleft : leftFor ⟨1, .string, true, 8⟩ kept u.state.memory.next v'.state =
      .object (.foreign 0) := by
    rw [hscratch]
    exact congrArg ForeignValue.object hslot
  have hkept := houtput ⟨1, .string, true, 8⟩ kept 1 (.string "old") (by decide) rfl rfl rfl
    Sample.lentOnce_echo (by decide) hkept rfl hleft
  obtain ⟨_, hinvoke', hresult⟩ := hreturn _ .string _ 2 (.string "") rfl rfl rfl rfl
    Sample.unlent_echo hresult rfl ⟨_, rfl, rfl⟩
  cases hinvoke.symm.trans hinvoke'
  rw [hinvoke, hsupplied] at hkept
  rw [hsupplied] at hresult
  -- A text is found as a whole.
  obtain ⟨_, hkept, rfl⟩ := hkept
  obtain ⟨_, hresult, rfl⟩ := hresult
  exact ⟨w, x, _, hsees, hgiven, hinvoke, hkept, hresult⟩

open Redirection in
/-- Two objects that do not come back although the method hands on what it was given. A null object is
returned as nothing, which leaves the result as it was; and an object whose proxy the method severs
comes back as null. -/
theorem objects_not_echoed :
    ∃ w : World Unit, Session.Sees (fun _ _ => True) (fun _ => True) Sample.echoingStart [] w ∧
      w.Presents Sample.same.function.params ∧ w.Presents Sample.part.function.params ∧
      (∃ c rest x, Sample.answered Sample.same Sample.sameStack w = some c ∧
        supplied Sample.same.function.params Sample.sameStack w.state 0 =
          .plain Address.null.octets ∧ c.pointers = [.null] ∧ c.returned = none ∧
        invoke ("T", "Same") Sample.same none Sample.sameStack (some (.ofCell 4)) (callAt 3) w =
          .ok (.ok (), rest) x ∧
        ∀ q ∈ Sample.same.function.params, ∀ old, ¬x.Finds 4 q old (.plain Address.null.octets)) ∧
      ∃ c rest x, Sample.answered Sample.part Sample.partStack w = some c ∧
        supplied Sample.part.function.params Sample.partStack w.state 0 =
          .plain (Address.hostObject 0).octets ∧
        c.pointers.head? = some (.foreign 0) ∧
        c.entered.state.nativeBehind (.foreign 0) = .hostObject 0 ∧
        (∀ q, leftFor ⟨1, .object, true, 8⟩ q c.loaded.state.memory.next c.left.state =
          .object (.foreign 0)) ∧
        invoke ("T", "Part") Sample.part none Sample.partStack none (callAt 3) w =
          .ok (.ok (), rest) x ∧
        ∀ q ∈ Sample.part.function.params, ∀ old,
          ¬x.Finds 5 q old (.plain (Address.hostObject 0).octets) := by
  obtain ⟨w, a, hr, hsees, hrun⟩ := Sample.sees_of_endsIn Sample.run_echoing
  simp only [Bool.and_eq_true, beq_iff_eq] at hrun
  obtain ⟨⟨⟨⟨⟨-, hnull⟩, hobject⟩, -⟩, hstale⟩, hparting⟩ := hrun
  have hpresents {name : String} {params : List String} {keeps : Bool} :
      w.Presents (Sample.handingOn name .object params keeps).function.params := by
    refine Sample.presents_of_stock ((List.prefix_append _ _).trans (bodies_of_run hr))
      hsees.grows.helpers fun p hp info => ?_
    rw [(Sample.kind_handingOn hp).1]
    rintro ⟨⟩
  -- What is found differs from what was supplied in all of its octets.
  have hlost {name : String} {params : List String} {keeps : Bool} {x : World Unit} {c : Nat}
      {src : Value} {a : Address} (hx : x.state.memory.cells.get? c = some (.plain a.octets))
      (hne : (Value.plain a.octets).read 8 ≠ src.read 8) :
      ∀ q ∈ (Sample.handingOn name .object params keeps).function.params, ∀ old,
        ¬x.Finds c q old src := by
    rintro q hq old ⟨new, hnew, hechoes⟩
    obtain ⟨hkind, hsize⟩ := Sample.kind_handingOn hq
    cases hx.symm.trans hnew
    unfold Value.Echoes at hechoes
    rw [hkind, hsize] at hechoes
    exact hne hechoes
  -- The first call returns nothing, the second severs the proxy.
  unfold Sample.isStale at hstale
  split at hstale
  case h_2 => cases hstale
  rename_i c rest x hanswered hinvoke
  simp only [Bool.and_eq_true, beq_iff_eq] at hstale
  obtain ⟨⟨hpointers, hreturned⟩, hx⟩ := hstale
  unfold Sample.isParting at hparting
  split at hparting
  case h_2 => cases hparting
  rename_i c' rest' x' hanswered' hinvoke'
  simp only [Bool.and_eq_true, beq_iff_eq] at hparting
  obtain ⟨⟨⟨⟨hpointers', hscratch⟩, hnative⟩, hslot⟩, hx'⟩ := hparting
  have hsupplied : supplied Sample.same.function.params Sample.sameStack w.state 0 =
      .plain Address.null.octets := by
    have hvalue : supplied Sample.same.function.params Sample.sameStack w.state 0 =
        (w.state.memory.get 3).skip 0 := rfl
    rw [hvalue, State.get_eq hnull]
    rfl
  have hsupplied' : supplied Sample.part.function.params Sample.partStack w.state 0 =
      .plain (Address.hostObject 0).octets := by
    have hvalue : supplied Sample.part.function.params Sample.partStack w.state 0 =
        (w.state.memory.get 4).skip 0 := rfl
    rw [hvalue, State.get_eq hobject]
    rfl
  refine ⟨w, hsees, hpresents, hpresents,
    ⟨c, rest, x, hanswered, hsupplied, hpointers, hreturned, hinvoke, hlost hx (by decide)⟩,
    c', rest', x', hanswered', hsupplied', by rw [hpointers']; rfl, hnative, fun q => ?_, hinvoke',
    hlost hx' (by decide)⟩
  rw [hscratch]
  exact congrArg ForeignValue.object hslot

end TwinHeap
