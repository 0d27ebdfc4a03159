import TwinHeap.Proofs.Effects
import TwinHeap.Proofs.Lifetime
import TwinHeap.Proofs.Writeback

/-!
# Exchange — what a redirected call passes to its method, and what it brings back

The arguments of the stack, the native parameters and the arguments of the method are counted
separately, and names lead from the last to the second. `Staged.slot` says what the slot of an output
holds when the method is called, and `Staged.returnable` that what lies there can be copied back: data
in the places of the call itself, and boxes that the call holds (`Loads.box_alive`).
-/

namespace TwinHeap

variable {σ : Type}

/-- Every parameter is as large as the host stores its kind, and an enumeration takes as many octets
as some number does. -/
def Function.LaidOut (f : Function) : Prop :=
  ∀ p ∈ f.params, p.size = p.kind.hostLayout.size ∧
    ∀ width, p.kind = .enumeration width → width ∈ [1, 2, 4, 8]

/-- Each tag is served by the marshaller of its kind of data, if by any. -/
def Registry.Proper (registry : Registry) : Prop :=
  ∀ tag m, registry.get? tag = some m → Marshaller.ofTag tag = some m

theorem Registry.proper_default : Registry.default.Proper := fun tag _ h =>
  (Registry.get?_default tag).symm.trans h

/-- A property is served by the marshaller of its kind. -/
theorem Registry.Proper.ofTag_of_resolve {registry : Registry} (h : registry.Proper) {p : Property}
    {m : Marshaller} (hm : registry.resolve p = .ok m) : Marshaller.ofTag p.kind.tag = some m := by
  unfold Registry.resolve at hm
  split at hm
  · rename_i m' hm'
    cases hm
    exact h _ _ hm'
  · cases hm

/-! ## The slot of an output -/

namespace Marshaller

open Act

variable {call : Invoker σ} {w v : World σ} {m : Marshaller} {p : Property}
  {host pointer a : Address} {made : Option Address} {slot : Slot}

/-- Where the data lies that is presented for a value, and the object that it belongs to. -/
inductive Presents (m : Marshaller) (host : Address) (slot : Slot) (s : State) :
    Address → Option Address → Prop
  /-- The value itself is passed. -/
  | host (hm : m = bool ∨ m = scalar ∨ m = enumeration) : Presents m host slot s host none
  | staging {made : Option Address} (hm : m = name ∨ m = text ∨ m = classRef) :
    Presents m host slot s slot.staging made
  | payload {i : Nat} (hm : m = struct) (ha : s.heap.isAlive (.foreign i) = true) :
    Presents m host slot s (.payload i) (some (.foreign i))

theorem presents_of_present (h : m.present p host slot call w = .ok (a, made) v)
    (hm : m.isReference = false) : m.Presents host slot v.state a made := by
  cases m with
  | bool | scalar | enumeration =>
    cases h
    exact .host (by decide)
  | name =>
    obtain ⟨_, _, hs, h⟩ := Act.ok_of_bind h
    cases hs
    obtain ⟨_, _, hrecord, h⟩ := Act.ok_of_bind h
    cases hrecord
    cases h
    exact .staging (by decide)
  | text =>
    obtain ⟨_, _, hs, h⟩ := Act.ok_of_bind h
    cases hs
    obtain ⟨_, _, hstring, h⟩ := Act.ok_of_bind h
    obtain ⟨_, _, hrecord, h⟩ := Act.ok_of_bind h
    cases hrecord
    cases h
    exact .staging (by decide)
  | classRef =>
    obtain ⟨_, _, hs, h⟩ := Act.ok_of_bind h
    cases hs
    obtain ⟨_, _, hrecord, h⟩ := Act.ok_of_bind h
    cases hrecord
    cases h
    exact .staging (by decide)
  | struct =>
    obtain ⟨_, _, hs, h⟩ := Act.ok_of_bind h
    cases hs
    obtain ⟨info, _, hinfo, h⟩ := Act.ok_of_bind h
    obtain ⟨found, _, hfound, h⟩ := Act.ok_of_bind h
    obtain ⟨factory, _, hfactory, h⟩ := Act.ok_of_bind h
    obtain ⟨box, u, hbox, h⟩ := Act.ok_of_bind h
    cases box with
    | none => cases h
    | some box =>
      obtain ⟨_, _, hs, h⟩ := Act.ok_of_bind h
      cases hs
      obtain ⟨payload, _, hpayload, h⟩ := Act.ok_of_bind h
      cases h
      -- A box is passed by the address of what is in it, so it is alive.
      cases hunbox : u.state.unbox box with
      | error e => rw [hunbox] at hpayload; cases hpayload
      | ok payload' =>
        rw [hunbox] at hpayload
        cases hpayload
        unfold State.unbox at hunbox
        split at hunbox
        · rename_i i os len hget
          cases hunbox
          exact .payload rfl (by unfold Heap.isAlive; rw [hget]; rfl)
        · cases hunbox
        · cases hunbox
  | string | object | softReference | collection => cases hm

/-- What is presented for a value in storage is an address that can be written and read back. -/
theorem Presents.ofOctets_octets {s : State} (h : m.Presents host slot s a made) {c o : Nat}
    (hhost : host = .cell c o) : Address.ofOctets a.octets = a := by
  have hknown (ha : ∀ v, a = .raw v → v < octetRange 8) : Address.ofOctets a.octets = a := by
    have hread := a.ofOctets_octets [] ha
    rwa [List.append_nil] at hread
  refine hknown ?_
  cases h with
  | host =>
    rw [hhost]
    rintro v ⟨⟩
  | staging | payload => rintro v ⟨⟩

/-- What is passed where it lies is data of a block. -/
theorem inBlock_of_tag (hm : ofTag p.kind.tag = some m) (hb : m = bool ∨ m = scalar ∨ m = enumeration) :
    p.inBlock = true := by
  unfold Property.inBlock
  cases hkind : p.kind <;> rw [hkind] at hm <;> cases hm
  case bool | scalar | enumeration => rfl
  all_goals simp at hb

/-- Data that is of the form its marshaller is for can be copied back. -/
theorem accepts_of_layout {s : State} {foreign : Address} (hm : ofTag p.kind.tag = some m)
    (hsize : p.size = p.kind.hostLayout.size)
    (hwidth : ∀ width, p.kind = .enumeration width → width ∈ [1, 2, 4, 8])
    (hdata : m.isReference = false → foreign ≠ .null)
    (hmet : m = .struct → ∀ info, p.structInfo = .ok info →
      ∃ f, s.bridge.factories.get? info.fullName = some f) : m.Accepts p s foreign := by
  -- The kind says which marshaller it is, and what that one asks for.
  cases hkind : p.kind <;> rw [hkind] at hm hsize <;> cases hm
  case bool mask => exact ⟨⟨mask, by unfold Property.flagMask; rw [hkind]⟩, hdata rfl⟩
  case enumeration width =>
    refine ⟨?_, hdata rfl⟩
    have hcontains : [1, 2, 4, 8].contains p.size = true := by
      rw [List.contains_iff_mem, hsize]
      exact hwidth width hkind
    unfold Property.enumerationWidth
    rw [if_pos hcontains]
  case struct info =>
    have hinfo : p.structInfo = .ok info := by
      unfold Property.structInfo
      rw [hkind]
    obtain ⟨f, hf⟩ := hmet rfl info hinfo
    exact ⟨⟨info, f, hinfo, .inl hf⟩, hdata rfl⟩
  case scalar | name | text | classRef => exact hdata rfl
  case string | object => trivial
  case softObject | softClass =>
    unfold Accepts Helpers.softReference
    rw [hkind]
    exact ⟨_, rfl⟩
  case arrayOf | setOf | mapOf =>
    unfold Accepts Helpers.collection
    rw [hkind]
    exact ⟨_, rfl⟩

/-- An argument that is passed by reference keeps its pointer in its slot. Data is passed by that
pointer. -/
theorem present_of_pass (h : m.pass p host slot true call w = .ok (pointer, made) v) :
    ∃ a u, m.present p host slot call w = .ok (a, made) u ∧
      v = { u with state := u.state.writeAt slot.pointer a.octets } ∧
      (m.isReference = false → pointer = a) := by
  obtain ⟨⟨a, made'⟩, u, hpresent, h⟩ := Act.ok_of_bind h
  obtain ⟨_, _, hedit, h⟩ := Act.ok_of_bind h
  cases hedit
  cases hm : m.isReference with
  | true =>
    simp only [hm] at h
    cases h
    exact ⟨a, u, hpresent, rfl, nofun⟩
  | false =>
    simp only [hm] at h
    cases h
    exact ⟨_, u, hpresent, rfl, fun _ => rfl⟩

end Marshaller

namespace Redirection

open Act

variable {call : Invoker σ} {w u v : World σ} {block scratch n j : Nat} {params : List Parameter}
  {src : Nat → Value} {args before after : List LinkedArg} {a : LinkedArg} {param : Parameter}
  {pointers : List Address} {pointer : Address} {staged : List StagedArg} {key : Redirector.Key}
  {r : Redirector} {stack rest : ArgStack} {l : Linkage} {m : Nat}
  {target receiver result : Option Address}

/-- When the method is called, the slot of data that is passed by reference holds its pointer. -/
theorem Staged.slot (h : Staged (guarded n block scratch) block scratch params src args u pointers v)
    (ha : args[j]? = some a) (hpointer : pointers[j]? = some pointer)
    (hparam : params[a.param]? = some param) (hby : a.byRef = true)
    (hm : a.marshaller.isReference = false) :
    ∃ made s, a.marshaller.Presents param.place ⟨scratch, a.scratchOffset⟩ s pointer made ∧
      v.state.addressAt (Slot.pointer ⟨scratch, a.scratchOffset⟩) = pointer := by
  obtain ⟨param', x, y, hparam', hpasses, -, hregion⟩ := h.passed ha hpointer
  cases hparam.symm.trans hparam'
  obtain ⟨made, hpass⟩ := hpasses.pass
  rw [hby] at hpass
  obtain ⟨presented, z, hpresent, rfl, hsame⟩ := Marshaller.present_of_pass hpass
  obtain rfl := hsame hm
  -- Data is presented before its pointer is written to the slot, and nothing is written there later.
  have hpresents := Marshaller.presents_of_present hpresent hm
  obtain ⟨old, hold⟩ := (Marshaller.present_touches hpresent
    (fun c hc => Nat.lt_of_le_of_lt hc.2 hpasses.below) h.laid.own_scratch hpasses.plain).plain
    hpasses.plain
  have hwritten : (z.state.writeAt (Slot.pointer ⟨scratch, a.scratchOffset⟩)
      pointer.octets).memory.cells.get? scratch =
      some ((Value.plain old).splice a.scratchOffset pointer.octets) := by
    show (z.state.memory.cells.modify scratch _).get? scratch = _
    rw [Table.get?_modify, if_pos rfl, hold]
    rfl
  -- The octets of the slot are the last that were written there.
  have hread : v.state.readAt (Slot.pointer ⟨scratch, a.scratchOffset⟩) addressSize =
      pointer.octets := by
    have hlast := Value.read_skip_splice old pointer.octets a.scratchOffset
    rw [Address.length_octets] at hlast
    refine Eq.trans ?_ hlast
    refine Value.read_eq_iff.2 fun k hk => ?_
    rw [Value.octetAt_skip, Value.octetAt_skip]
    have hslot := Marshaller.slotSize_eq a.marshaller
    have hk : k < addressSize := hk
    refine (hregion (a.scratchOffset + k) (by omega) (by omega)).trans ?_
    rw [State.get_eq hwritten]
  obtain ⟨c, o, hplace, -⟩ := h.laid.cell (List.mem_of_getElem? hparam)
  refine ⟨made, _, hpresents, ?_⟩
  unfold State.addressAt
  rw [hread]
  exact hpresents.ofOctets_octets hplace

/-- What was passed by reference can be copied back, if the method leaves the slots of data alone. -/
theorem Staged.returnable {v' : World σ}
    (h : Staged (guarded n block scratch) block scratch params src args u pointers v)
    (ha : args[j]? = some a) (hparam : params[a.param]? = some param) (hby : a.byRef = true)
    (hm : Marshaller.ofTag param.property.kind.tag = some a.marshaller)
    (hsize : param.property.size = param.property.kind.hostLayout.size)
    (hwidth : ∀ width, param.property.kind = .enumeration width → width ∈ [1, 2, 4, 8])
    (hslot : a.marshaller.isReference = false →
      v'.state.readAt (Slot.pointer ⟨scratch, a.scratchOffset⟩) addressSize =
        v.state.readAt (Slot.pointer ⟨scratch, a.scratchOffset⟩) addressSize)
    (hgrows : v.state.Grows v'.state)
    (hbox : a.marshaller = .struct → ∀ pointer, pointers[j]? = some pointer →
      ∃ i object, pointer = .payload i ∧ v'.state.heap.objects.get? i = some object)
    (hout : (∃ c o, param.output = .cell c o ∧ c < block) ∨ param.output = param.place) :
    Returnable block scratch v'.state param a := by
  have hmem := List.mem_of_getElem? hparam
  obtain ⟨c, o, hplace, -⟩ := h.laid.cell hmem
  have hsource : Source scratch v'.state a.marshaller param
        (v'.state.addressAt (Slot.pointer ⟨scratch, a.scratchOffset⟩)) ∧
      (a.marshaller.isReference = false →
        v'.state.addressAt (Slot.pointer ⟨scratch, a.scratchOffset⟩) ≠ .null) := by
    -- A reference is copied back from its proxy, data from where its pointer leads.
    cases href : a.marshaller.isReference with
    | true => exact ⟨.object href, nofun⟩
    | false =>
      have hj : j < pointers.length := by
        rw [h.length]
        exact (List.getElem?_eq_some_iff.1 ha).1
      have hpointer := List.getElem?_eq_getElem hj
      generalize pointers[j] = pointer at hpointer
      obtain ⟨made, s, hpresents, hheld⟩ := h.slot ha hpointer hparam hby href
      have haddress : v'.state.addressAt (Slot.pointer ⟨scratch, a.scratchOffset⟩) = pointer :=
        (congrArg Address.ofOctets (hslot href)).trans hheld
      rw [haddress]
      cases hpresents with
      | host hm' =>
        exact ⟨.place (Marshaller.inBlock_of_tag hm hm'), fun _ => by rw [hplace]; nofun⟩
      | staging => exact ⟨.scratch _, fun _ => nofun⟩
      -- Only a box is in the foreign heap, and it is still there.
      | payload hm' =>
        obtain ⟨i, object, hi, hobject⟩ := hbox hm' _ hpointer
        cases hi
        exact ⟨.payload hobject, fun _ => nofun⟩
  refine ⟨Marshaller.accepts_of_layout hm hsize hwidth hsource.2 fun hstruct info hinfo => ?_,
    hsource.1, Marshaller.fits_of_layout hm hsize, hout⟩
  obtain ⟨f, hf⟩ := h.met a (List.mem_of_getElem? ha) hstruct param info hparam hinfo
  exact ⟨f, hgrows.factory _ _ hf⟩

/-- The step in which one of the arguments was staged. -/
theorem Stages.split (h : Stages call params scratch (before ++ a :: after) w pointers staged v)
    (hbound : ∀ b ∈ before, b.param < params.length) (hparam : params[a.param]? = some param) :
    ∃ ps ss turn pointer made u ps' ss', Stages call params scratch before w ps ss turn ∧
      a.marshaller.stage param.property param.place ⟨scratch, a.scratchOffset⟩ a.byRef call turn =
        .ok (pointer, made) u ∧
      Stages call params scratch after (rooted made u) ps' ss' v ∧
      pointers = ps ++ pointer :: ps' ∧ ps.length = before.length := by
  induction before generalizing w pointers staged with
  | nil =>
    cases h with
    | skip hnone => rw [hparam] at hnone; cases hnone
    | cons hparam' hstage hrest =>
      cases hparam.symm.trans hparam'
      exact ⟨[], [], w, _, _, _, _, _, .nil, hstage, hrest, rfl, rfl⟩
  | cons b before ih =>
    obtain ⟨hb, hbound⟩ := List.forall_mem_cons.1 hbound
    cases h with
    | skip hnone =>
      rw [List.getElem?_eq_getElem hb] at hnone
      cases hnone
    | cons hparam' hstage hrest =>
      obtain ⟨ps, ss, turn, pointer, made, u, ps', ss', hbefore, ha, hafter, rfl, hlength⟩ :=
        ih hrest hbound
      exact ⟨_ :: ps, _ :: ss, turn, pointer, made, u, ps', ss', .cons hparam' hstage hbefore, ha,
        hafter, rfl, congrArg (· + 1) hlength⟩

/-- The argument at a position was staged between those before it and those after it. -/
theorem Stages.split_at (h : Stages call params scratch args w pointers staged v)
    (hbound : ∀ b ∈ args, b.param < params.length) (ha : args[j]? = some a)
    (hparam : params[a.param]? = some param) (hpointer : pointers[j]? = some pointer) :
    ∃ before after ps ss turn made u ps' ss', args = before ++ a :: after ∧
      Stages call params scratch before w ps ss turn ∧
      a.marshaller.stage param.property param.place ⟨scratch, a.scratchOffset⟩ a.byRef call turn =
        .ok (pointer, made) u ∧
      Stages call params scratch after (rooted made u) ps' ss' v ∧ pointers = ps ++ pointer :: ps' := by
  obtain ⟨hj, rfl⟩ := List.getElem?_eq_some_iff.1 ha
  have hargs : args = args.take j ++ args[j] :: args.drop (j + 1) := by
    rw [List.getElem_cons_drop, List.take_append_drop]
  obtain ⟨ps, ss, turn, pointer', made, u, ps', ss', hbefore, hstage, hafter, rfl, hlength⟩ :=
    Stages.split (hargs ▸ h) (fun b hb => hbound b (List.mem_of_mem_take hb)) hparam
  -- One pointer comes of each argument, so this one is at the same position.
  obtain rfl : pointer' = pointer := by
    rw [List.length_take_of_le (Nat.le_of_lt hj)] at hlength
    rw [← hlength, List.getElem?_append_right (Nat.le_refl _), Nat.sub_self] at hpointer
    exact Option.some.inj hpointer
  exact ⟨_, _, ps, ss, turn, made, u, ps', ss', hargs, hbefore, hstage, hafter, rfl⟩

/-- What was made for an argument is still there when the method has answered. -/
theorem Loads.made_alive {o : List Owed} {x y v' : World σ} {ps ps' : List Address}
    {ss ss' : List StagedArg} {object : Address} {turn : World σ}
    {answer : Except ForeignException (Option Address)}
    (hloads : Loads (callAt n) key r stack w l m params rest u)
    (hr : w.state.redirector? key = some r) (hw : w.Tallied o) (hargs : l.args = before ++ a :: after)
    (hbefore : Stages (callAt n) params u.state.memory.next before
      { u with state := (u.state.frameCell (.plain [])).2 } ps ss turn)
    (hparam : params[a.param]? = some param)
    (hstage : a.marshaller.stage param.property param.place ⟨u.state.memory.next, a.scratchOffset⟩
      a.byRef (callAt n) turn = .ok (pointer, some object) y)
    (halive : y.state.heap.isAlive object = true)
    (hafter : Stages (callAt n) params u.state.memory.next after (rooted (some object) y) ps' ss' x)
    (hreceiver : receiverOf r.function target (callAt n) x = .ok receiver v)
    (hcall : callAt n m ⟨receiver, ps ++ pointer :: ps'⟩ v = .ok answer v') :
    v'.state.heap.isAlive object = true := by
  let s : StagedObject (callAt n) key r stack w :=
    ⟨l, m, params, rest, u, hloads, before, a, after, hargs, ps, ss, turn, hbefore, param, hparam,
      pointer, object, y, hstage⟩
  obtain ⟨hheld, hlinked⟩ := s.pinned hr hw halive
  have hanswer : callAt n m ⟨receiver, ps ++ [pointer] ++ ps'⟩ v = .ok answer v' := by
    rw [List.append_assoc]
    exact hcall
  have hbetween : s.Between target v' := .answered hafter hreceiver hanswer
  let L := pinLaw (pinned_callAt σ n w.state.bridge.frames [(s.handle, s.object)])
    (.frame key :: o) hheld.above
  have hanswered : L.holds (.frame key :: o) v' :=
    Between.holds hbetween (Identity.makesProxies fun _ => trivial) (fun _ => trivial)
      (fun _ _ => trivial) hlinked List.suffix_rfl trivial hheld
  exact (hanswered.state.held _ List.mem_cons_self).2

/-- The box of a struct that was passed by reference is still there when the method has answered. -/
theorem Loads.box_alive {o : List Owed} {x v' : World σ}
    {answer : Except ForeignException (Option Address)}
    (hloads : Loads (callAt n) key r stack w l m params rest u)
    (hr : w.state.redirector? key = some r) (hw : w.Tallied o)
    (hstages : Stages (callAt n) params u.state.memory.next l.args
      { u with state := (u.state.frameCell (.plain [])).2 } pointers staged x)
    (hreceiver : receiverOf r.function target (callAt n) x = .ok receiver v)
    (hcall : callAt n m ⟨receiver, pointers⟩ v = .ok answer v')
    (hbound : ∀ b ∈ l.args, b.param < params.length) (ha : l.args[j]? = some a)
    (hparam : params[a.param]? = some param) (hpointer : pointers[j]? = some pointer)
    (hby : a.byRef = true) (hm : a.marshaller = .struct) :
    ∃ i object, pointer = .payload i ∧ v'.state.heap.objects.get? i = some object := by
  obtain ⟨before, after, ps, ss, turn, made, y, ps', ss', hargs, hbefore, hstage, hafter, rfl⟩ :=
    hstages.split_at hbound ha hparam hpointer
  have hreference : a.marshaller.isReference = false := by rw [hm]; rfl
  -- What was staged for the struct is a box, since that is how structs are presented.
  have hpass := hstage
  unfold Marshaller.stage at hpass
  rw [hby] at hpass
  obtain ⟨_, _, -, hpass⟩ := Act.ok_of_bind hpass
  obtain ⟨presented, z, hpresent, rfl, hsame⟩ := Marshaller.present_of_pass hpass
  obtain rfl := hsame hreference
  have hpresents := Marshaller.presents_of_present hpresent hreference
  rw [hm] at hpresents
  cases hpresents with
  | host h => simp at h
  | staging h => simp at h
  | @payload i _ halive =>
    have hobject : v'.state.heap.isAlive (.foreign i) = true :=
      hloads.made_alive hr hw hargs hbefore hparam hstage halive hafter hreceiver hcall
    obtain ⟨object, hobject⟩ := Option.isSome_iff_exists.1 hobject
    exact ⟨i, object, rfl, hobject⟩

/-! ## The end of a call -/

/-- Of the cells below `base` at most that of the result has changed. -/
def PutsResult (base : Nat) (result : Option Address) (w v : World σ) : Prop :=
  ∃ g, w.Puts base g v ∧ ∀ c, (∀ o, result ≠ some (.cell c o)) → g c = id

/-- The cells up to the scratch memory have received the outputs that they are lent for, where the
result does not go to the same cell. -/
def Brings (l : Linkage) (scratch : Nat) (params : List Parameter) (result : Option Address)
    (s : State) (v : World σ) : Prop :=
  ∀ c ≤ scratch, (∀ o, result ≠ some (.cell c o)) → v.state.memory.cells.get? c =
    (s.memory.cells.get? c).map (received l scratch s c 0 params)

/-- The result goes to its own place. -/
theorem ends_copyResult {base : Nat} {ps : List Property} {returned : Option Address}
    (hw : w.WritesBack ps) (hn : w.state.heap.Numbered) (hb : base ≤ w.state.memory.next)
    (function : Function) (l : Linkage)
    (hps : ∀ p m, returnOf function l = some (p, m) → p ∈ ps)
    (hresult : ∀ a, result = some a → ∃ c o, a = .cell c o) :
    Ends (copyResult function l returned result (callAt (n + 1)) w)
      (fun _ v => PutsResult base result w v) fun _ v => PutsResult base result w v := by
  have hsame {v : World σ} (hv : w.Puts base (fun _ => id) v) : PutsResult base result w v :=
    ⟨_, hv, fun _ _ => rfl⟩
  have hquiet : PutsResult base result w w := hsame (.refl base w)
  unfold copyResult
  cases hreturn : returnOf function l with
  | none => exact hquiet
  | some pm =>
    obtain ⟨p, m⟩ := pm
    obtain - | value := returned
    · exact hquiet
    obtain - | place := result
    · exact hquiet
    obtain ⟨c, o, rfl⟩ := hresult place rfl
    -- What a box holds is taken out of it, which changes nothing, whether it fails or not.
    have hunwrap : Ends (m.unwrap p value (callAt (n + 1)) w) (fun _ v => v = w) fun _ v => v = w := by
      unfold Marshaller.unwrap
      split
      · exact rfl
      · cases p.returned value with
        | error e => exact rfl
        | ok object =>
          show Ends ((if w.state.heap.isBoxed object then ofPanic (w.state.unbox object)
            else if m = .classRef then abandon (.unboxedClass p.name) else pure value :
              Act σ Address) (callAt (n + 1)) w) _ _
          split
          · cases w.state.unbox object <;> exact rfl
          · split <;> exact rfl
    refine ends_bind (hunwrap.mono (fun _ _ h => h) fun _ v h => ?_) fun a v hv => ?_
    · rw [h]
      exact hquiet
    · subst hv
      refine (Marshaller.ends_toHost hw hn hb (hps p m hreturn) m a).mono ?_ fun _ _ h => hsame h.1
      rintro _ x ⟨d, hx, -⟩
      refine ⟨_, hx, fun c' hc' => funext fun old => d.into_cell_of_ne ?_ o old⟩
      rintro rfl
      exact hc' o rfl

/-- When the outputs have been copied back, the result is. -/
theorem ends_finish {ps : List Property} {returned : Option Address}
    (hback : Ends (writeBack staged 0 params (callAt (n + 1)) w)
      (fun _ x => w.Puts (scratch + 1) (fun c => received l scratch w.state c 0 params) x)
      fun _ _ => False)
    (hw : w.WritesBack ps) (hn : w.state.heap.Numbered) (hnext : scratch < w.state.memory.next)
    (function : Function) (hps : ∀ p m, returnOf function l = some (p, m) → p ∈ ps)
    (hresult : ∀ a, result = some a → ∃ c o, a = .cell c o) :
    Ends (finish function l params staged result (.ok returned) (callAt (n + 1)) w)
      (fun _ v => Brings l scratch params result w.state v)
      fun _ v => Brings l scratch params result w.state v := by
  refine ends_bind (hback.mono (fun _ _ h => h) fun _ _ h => h.elim) fun _ x hx => ?_
  have hdone {v : World σ} (hv : PutsResult (scratch + 1) result x v) :
      Brings l scratch params result w.state v := by
    obtain ⟨g, hv, hg⟩ := hv
    intro c hc hne
    rw [hv.cells c (Nat.lt_succ_of_le hc), hg c hne, Option.map_id_apply,
      hx.cells c (Nat.lt_succ_of_le hc)]
  exact (ends_copyResult (hx.writesBack hw) (hx.numbered hn) (Nat.le_trans hnext hx.next) function l
    hps hresult).mono (fun _ _ h => hdone h) fun _ _ h => hdone h

/-- When a call is left, only cells of its own are discarded. -/
theorem Loads.leave_keeps (h : Loads (callAt n) key r stack w l m params rest u)
    (hr : w.state.redirector? key = some r) (target result : Option Address) :
    Ends (run r.function l m target params result (callAt n) u)
      (fun _ v => v.state.Keeps (fun c => c < w.state.memory.next) (v.state.leave key))
      fun f v => f ≠ .exhausted →
        v.state.Keeps (fun c => c < w.state.memory.next) (v.state.leave key) := by
  let R : Realm σ := framesRealm w.state.memory.next w.state.frameCells
  let L : Law σ := R.law (R.respected n)
  have hstart : L.holds [] w := ⟨Nat.le_refl _, [], rfl, rfl, nofun⟩
  obtain ⟨hu, -, hlinked⟩ := h.holds (L := L) hr target result trivial List.nil_suffix trivial hstart
  have hrun : (run r.function l m target params result : Act σ Unit).Obeys L .plain [.frame key] u :=
    run_obeys (Identity.makesProxies fun _ => trivial) hlinked r.function target
      (fun _ _ => trivial) fun _ _ _ _ answer _ _ =>
        finish_obeys r.function l (fun _ _ => trivial) _ (fun _ _ => trivial) answer
  have hmeets := hrun List.nil_suffix trivial trivial hu
  exact ends_iff.2 ⟨fun _ v hv => (hmeets.ok _ _ hv).1.leave,
    fun f v hf hne => (hmeets.err _ _ hf hne).1.leave⟩

/-! ## A call as a whole -/

/-- Each parameter but the return value has taken the next argument of the stack, bound or not. -/
structure Takes (ps : List Property) (stack : ArgStack) (s : State) (params : List Parameter)
    (rest : ArgStack) (s' : State) : Prop where
  properties : params.map Parameter.property = ps
  rest : rest = { stack with cursor := stack.cursor + ps.countP fun p => !p.isReturn }
  takes : ∀ {i : Nat} {p : Property}, ps[i]? = some p → p.isReturn = false →
    ∃ a param, stack.args[stack.cursor + (ps.take i).countP fun p => !p.isReturn]? = some a ∧
      params[i]? = some param ∧
      param.output = (if a.byRef then .ofCell a.cell else param.place) ∧
      s'.Holds p param.place (.loaded p (s.valueAt (.ofCell a.cell)))

/-- The method is passed as many pointers as it has arguments. Each is what presents the value of the
first native parameter of its name: its default if it is passed by reference, and what the caller
supplied for it if not. -/
structure PassesByName (call : Invoker σ) (r : Redirector) (l : Linkage) (s : State)
    (stack : ArgStack) (scratch : Nat) (params : List Parameter) (pointers : List Address) :
    Prop where
  length : pointers.length = r.method.parameterCount
  passes : ∀ {j : Nat} {arg : ForeignArg}, r.method.passed[j]? = some arg →
    ∃ a param pointer u v, r.function.indexOf arg.name = some a.param ∧ a.byRef = arg.byRef ∧
      l.args[j]? = some a ∧ params[a.param]? = some param ∧ pointers[j]? = some pointer ∧
      Passes call scratch a param (supplied r.function.params stack s a.param) pointer u v

theorem Loads.takes (h : Loads (callAt n) key r stack w l m params rest u)
    (ha : isPowerOfTwo (max r.function.block.align 1) = true)
    (hlength : stack.cursor + r.function.params.countP (fun p => !p.isReturn) ≤ stack.args.length)
    (hapart : r.function.Apart) (hcells : ∀ a ∈ stack.args, a.cell < w.state.memory.next) :
    Takes r.function.params stack w.state params rest u.state := by
  obtain ⟨s, hplaced, -, hkeeps⟩ := h.placed ha hlength hapart hcells
  have hloaded := h.loaded
  refine ⟨hloaded.properties, hloaded.rest, fun {i p} hp hret => ?_⟩
  have hi : i < params.length := by
    rw [← List.length_map (f := Parameter.property), hloaded.properties]
    exact (List.getElem?_eq_some_iff.1 hp).1
  have hparam := List.getElem?_eq_getElem hi
  generalize params[i] = param at hparam
  obtain rfl : param.property = p := by
    rw [← hloaded.properties, List.getElem?_map, hparam] at hp
    exact Option.some.inj hp
  have hout := hloaded.output hparam
  rw [if_neg (by simp [hret])] at hout
  obtain ⟨a, harg, hout⟩ := hout
  have hvalue : w.state.valueAt (.ofCell a.cell) = s.valueAt (.ofCell a.cell) :=
    (valueAt_of_keeps hkeeps (hcells a (ArgStack.mem_of_argFor harg))).symm
  refine ⟨a, param, ?_, hparam, hout, hvalue ▸ hplaced.holds hparam harg⟩
  unfold ArgStack.argFor at harg
  rw [hp] at harg
  change (if param.property.isReturn then none else _) = some a at harg
  rwa [if_neg (by simp [hret])] at harg

theorem Staged.passesByName {registry : Registry} {s : State}
    (h : Staged (guarded n block scratch) block scratch params (supplied r.function.params stack s)
      l.args u pointers v)
    (hmatches : Linkage.Matches registry r.function r.method.args l) :
    PassesByName (callAt n : Invoker σ) r l s stack scratch params pointers := by
  have hlength : pointers.length = r.method.parameterCount := h.length.trans hmatches.length_args
  refine ⟨hlength, fun {j arg} harg => ?_⟩
  have hj : j < r.method.passed.length := (List.getElem?_eq_some_iff.1 harg).1
  have hstaged : j < pointers.length := by
    rw [hlength]
    exact hj
  have hpointer : pointers[j]? = some pointers[j] := List.getElem?_eq_getElem hstaged
  have hlinked : j < l.args.length := by
    rw [hmatches.length_args]
    exact hj
  have ha : l.args[j]? = some l.args[j] := List.getElem?_eq_getElem hlinked
  have hbinds : Linkage.Binds registry r.function r.method.passed[j] l.args[j] :=
    hmatches.args.get hj hlinked
  obtain rfl : r.method.passed[j] = arg := (List.getElem?_eq_some_iff.1 harg).2
  obtain ⟨param, x, y, hparam, hpasses, -⟩ := h.passed ha hpointer
  exact ⟨_, param, _, x, y, hbinds.index, hbinds.byRef, ha, hparam, hpointer, hpasses.unguarded⟩

/-- A call goes on from where its method was called. -/
theorem Loads.invoke_of_prepare (h : Loads call key r stack w l m params rest u)
    (hprepare : prepare r.function l target params call u = .ok (pointers, staged, receiver) v)
    (result : Option Address) :
    invoke key r target stack result call w =
      match (callMethod m receiver pointers >>= finish r.function l params staged result).attempt
          call v with
      | .ok outcome x => .ok (outcome, rest) { x with state := x.state.leave key }
      | .error f x => .error f { x with state := x.state.leave key } := by
  have hrun : (run r.function l m target params result).attempt call u =
      (callMethod m receiver pointers >>= finish r.function l params staged result).attempt call v := by
    unfold Act.attempt
    rw [run_eq, bind_of_ok hprepare]
  exact hrun ▸ h.invoke_eq target result

section Answered

variable {o : List Owed} {x v' : World σ} {answer : Except ForeignException (Option Address)}

/-- The law holds when the method has answered. -/
theorem holds_answered {L : Law σ}
    (hstages : Stages L.call params u.state.memory.next l.args
      { u with state := (u.state.frameCell (.plain [])).2 } pointers staged x)
    (hreceiver : receiverOf r.function target L.call x = .ok receiver v)
    (hcall : L.call m ⟨receiver, pointers⟩ v = .ok answer v')
    (hproxies : L.MakesProxies) (hw : ∀ a, L.mayWrite a)
    (hrun : ∀ {α : Type} (act : Act σ α) w, L.course.Runs act w)
    (hlinked : ∃ r', u.state.redirector? key = some r' ∧ r'.binding = .linked l m)
    (hb : L.base <:+ .frame key :: o) (hready : L.ready (.frame key :: o))
    (hu : L.holds (.frame key :: o) u) : L.holds (.frame key :: o) v' := by
  obtain ⟨r', hr', hl'⟩ := hlinked
  have hlinked' := (State.grows_frameCell u.state (.plain [])).linked key r' l m hr' hl'
  have hbetween : Between L.call r.function m target params u.state.memory.next l.args [] []
      { u with state := (u.state.frameCell (.plain [])).2 } v' := .answered hstages hreceiver hcall
  exact hbetween.holds hproxies hw hrun hlinked' hb hready (L.change hu (.frameCell _))

/-- When the method has answered, the calls that have not ended are those from before it. -/
theorem Loads.pinned_answered (hloads : Loads (callAt n) key r stack w l m params rest u)
    (hr : w.state.redirector? key = some r) (hw : w.Tallied o)
    (hstages : Stages (callAt n) params u.state.memory.next l.args
      { u with state := (u.state.frameCell (.plain [])).2 } pointers staged x)
    (hreceiver : receiverOf r.function target (callAt n) x = .ok receiver v)
    (hcall : callAt n m ⟨receiver, pointers⟩ v = .ok answer v') :
    v'.Pinned w.state.bridge.frames [] (.frame key :: o) := by
  obtain ⟨hu, hlinked⟩ := hloads.pinned hr hw
  exact holds_answered (L := pinLaw (pinned_callAt σ n w.state.bridge.frames []) _ hu.above)
    hstages hreceiver hcall (Identity.makesProxies fun _ => trivial) (fun _ => trivial)
    (fun _ _ => trivial) hlinked List.suffix_rfl trivial hu

/-- When the method has answered, what was settled before the call is as it was. -/
theorem Loads.lasting (hloads : Loads (callAt n) key r stack w l m params rest u)
    (hr : w.state.redirector? key = some r)
    (hstages : Stages (callAt n) params u.state.memory.next l.args
      { u with state := (u.state.frameCell (.plain [])).2 } pointers staged x)
    (hreceiver : receiverOf r.function target (callAt n) x = .ok receiver v)
    (hcall : callAt n m ⟨receiver, pointers⟩ v = .ok answer v') :
    w.bodies <+: v'.bodies ∧ w.state.Grows v'.state := by
  let L : Law σ := (lastingRealm w).law ((lastingRealm w).respected n)
  have hstart : L.holds [] w := ⟨List.prefix_refl _, .refl _⟩
  obtain ⟨hu, -, hlinked⟩ := hloads.holds (L := L) hr none none trivial List.nil_suffix trivial hstart
  exact holds_answered (L := L) hstages hreceiver hcall (Identity.makesProxies fun _ => trivial)
    (fun _ => trivial) (fun _ _ => trivial) hlinked List.nil_suffix trivial hu

end Answered

/-- The property of the return value is one of the function. -/
theorem mem_of_returnOf {function : Function} {p : Property} {m : Marshaller}
    (h : returnOf function l = some (p, m)) : p ∈ function.params := by
  obtain ⟨ret, -, h⟩ := Option.bind_eq_some_iff.1 h
  obtain ⟨p', hp', h⟩ := Option.bind_eq_some_iff.1 h
  cases h
  exact List.mem_of_getElem? hp'

/-- When the method has returned and has left the slots of data alone, all outputs are copied back. -/
theorem Loads.ends_writeBack {o : List Owed} {registry : Registry} {x v' : World σ}
    {returned : Option Address} (hloads : Loads (callAt (n + 1)) key r stack w l m params rest u)
    (hr : w.state.redirector? key = some r) (hw : w.Tallied o)
    (hcells : ∀ a ∈ stack.args, a.cell < w.state.memory.next)
    (hmatches : Linkage.Matches registry r.function r.method.args l)
    (hstaged : Staged (guarded (n + 1) w.state.memory.next u.state.memory.next) w.state.memory.next
      u.state.memory.next params src l.args x pointers v)
    (hprepare : prepare r.function l target params (callAt (n + 1)) u =
      .ok (pointers, staged, receiver) v)
    (hcall : callMethod m receiver pointers (callAt (n + 1)) v = .ok (.ok returned) v')
    (hwrites : v'.WritesBack r.function.params) (hregistry : registry.Proper)
    (hlaid : r.function.LaidOut)
    (hslots : ∀ a ∈ l.args, a.byRef = true → a.marshaller.isReference = false →
      v'.state.readAt (Slot.pointer ⟨u.state.memory.next, a.scratchOffset⟩) addressSize =
        v.state.readAt (Slot.pointer ⟨u.state.memory.next, a.scratchOffset⟩) addressSize) :
    v'.state.heap.Numbered ∧ u.state.memory.next < v'.state.memory.next ∧
      (∀ a ∈ l.args, a.byRef = true → ∀ param, params[a.param]? = some param →
        Returnable w.state.memory.next u.state.memory.next v'.state param a) ∧
      Ends (writeBack staged 0 params (callAt (n + 1)) v') (fun _ y =>
        v'.Puts (u.state.memory.next + 1)
          (fun c => received l u.state.memory.next v'.state c 0 params) y) fun _ _ => False := by
  obtain ⟨z, hstages, hreceiver⟩ := stages_of_prepare hprepare
  have hpinned := hloads.pinned_answered hr hw hstages hreceiver hcall
  have hgrows : v.state.Grows v'.state :=
    (ends_iff.1 (callAt_grows (n + 1) m ⟨receiver, pointers⟩ v)).1 _ _ hcall
  have hloaded := hloads.loaded
  have hnumbered := hpinned.tallied.balanced.numbered
  have hnext := Nat.lt_of_lt_of_le hstaged.laid.below hgrows.next
  have hproperty {i : Nat} {param : Parameter} (hi : params[i]? = some param) :
      r.function.params[i]? = some param.property := by
    rw [← hloaded.properties, List.getElem?_map, hi]
    rfl
  have hbound (b : LinkedArg) (hb : b ∈ l.args) : b.param < params.length := by
    obtain ⟨_, hbinds⟩ := hmatches.exists_binds hb
    obtain ⟨p, hp, -⟩ := hbinds.property
    rw [← List.length_map (f := Parameter.property), hloaded.properties]
    exact (List.getElem?_eq_some_iff.1 hp).1
  -- Each output is of the form that its marshaller copies back.
  have hready (a : LinkedArg) (hmem : a ∈ l.args) (hby : a.byRef = true) (param : Parameter)
      (hi : params[a.param]? = some param) :
      Returnable w.state.memory.next u.state.memory.next v'.state param a := by
    obtain ⟨j, hj⟩ := List.mem_iff_getElem?.1 hmem
    obtain ⟨_, hbinds⟩ := hmatches.exists_binds hmem
    obtain ⟨p, hp, hret, hm⟩ := hbinds.property
    obtain rfl : param.property = p := Option.some.inj ((hproperty hi).symm.trans hp)
    obtain ⟨hsize, hwidth⟩ := hlaid _ (List.mem_of_getElem? hp)
    refine hstaged.returnable hj hi hby (hregistry.ofTag_of_resolve hm) hsize hwidth
      (hslots a hmem hby) hgrows (fun hstruct pointer hpointer => ?_) ?_
    · exact hloads.box_alive hr hw hstages hreceiver hcall hbound hj hi hpointer hby hstruct
    -- An output goes to the cell that was supplied, or to the place of its own.
    · have hout := hloaded.output hi
      rw [if_neg (by simp [hret])] at hout
      obtain ⟨arg, harg, hout⟩ := hout
      split at hout
      · exact .inl ⟨arg.cell, 0, hout, hcells arg (ArgStack.mem_of_argFor harg)⟩
      · exact .inr hout
  refine ⟨hnumbered, hnext, hready, ?_⟩
  refine (Redirection.ends_writeBack (n := n) hstaged.laid (List.Sublist.refl params) (i := 0)
    (fun i hi => ?_) (fun i param a hi ha hby => ?_) hwrites hnumbered hnext (fun param hmem => ?_)
    (.refl (u.state.memory.next + 1) v') ⟨rfl, fun _ _ _ _ _ => rfl⟩).mono (fun _ _ h => h)
    fun _ _ h => h
  · rw [Nat.zero_add]
    exact hstages.find?_eq hi
  · rw [Nat.zero_add] at ha
    obtain rfl : a.param = i := beq_iff_eq.1 (List.find?_some ha :)
    exact hready a (List.mem_of_find?_eq_some ha) hby param hi
  · exact hloaded.properties ▸ List.mem_map_of_mem hmem

/-- However a call ends whose method has returned, the cells of the caller have received the outputs. -/
theorem Loads.brings {o : List Owed} {registry : Registry} {x v' : World σ} {returned : Option Address}
    (hloads : Loads (callAt (n + 1)) key r stack w l m params rest u)
    (hr : w.state.redirector? key = some r) (hw : w.Tallied o)
    (hcells : ∀ a ∈ stack.args, a.cell < w.state.memory.next)
    (hmatches : Linkage.Matches registry r.function r.method.args l)
    (hstaged : Staged (guarded (n + 1) w.state.memory.next u.state.memory.next) w.state.memory.next
      u.state.memory.next params src l.args x pointers v)
    (hprepare : prepare r.function l target params (callAt (n + 1)) u =
      .ok (pointers, staged, receiver) v)
    (hcall : callMethod m receiver pointers (callAt (n + 1)) v = .ok (.ok returned) v')
    (hwrites : v'.WritesBack r.function.params) (hregistry : registry.Proper)
    (hlaid : r.function.LaidOut)
    (hslots : ∀ a ∈ l.args, a.byRef = true → a.marshaller.isReference = false →
      v'.state.readAt (Slot.pointer ⟨u.state.memory.next, a.scratchOffset⟩) addressSize =
        v.state.readAt (Slot.pointer ⟨u.state.memory.next, a.scratchOffset⟩) addressSize)
    (hresult : ∀ a, result = some a → ∃ c o, a = .cell c o) :
    Ends (finish r.function l params staged result (.ok returned) (callAt (n + 1)) v')
      (fun _ y => Brings l u.state.memory.next params result v'.state y)
      fun _ y => Brings l u.state.memory.next params result v'.state y := by
  obtain ⟨hn, hnext, -, hback⟩ := hloads.ends_writeBack hr hw hcells hmatches hstaged hprepare hcall
    hwrites hregistry hlaid hslots
  exact ends_finish hback hwrites hn hnext r.function (fun _ _ => mem_of_returnOf) hresult

/-- A call ends as it finishes, and when it is left only cells of its own are discarded. -/
theorem Loads.ends_invoke {Q : World σ → Prop} {E : Failure → World σ → Prop}
    (h : Loads (callAt n) key r stack w l m params rest u) (hr : w.state.redirector? key = some r)
    (hprepare : prepare r.function l target params (callAt n) u = .ok (pointers, staged, receiver) v)
    (hcall : callMethod m receiver pointers (callAt n) v = .ok (.ok returned) v')
    (hfinish : Ends (finish r.function l params staged result (.ok returned) (callAt n) v')
      (fun _ y => Q y) E) :
    Ends (invoke key r target stack result (callAt n) w)
      (fun ended x => ∃ y, y.state.Keeps (fun c => c < w.state.memory.next) x.state ∧
        (ended = (.ok (), rest) ∧ Q y ∨ ∃ e, ended = (.error e, rest) ∧ E (.error e) y))
      fun f x => ∃ y, (f ≠ .exhausted → y.state.Keeps (fun c => c < w.state.memory.next) x.state) ∧
        E f y := by
  have hleave := h.leave_keeps hr target result
  have hrun : run r.function l m target params result (callAt n) u =
      finish r.function l params staged result (.ok returned) (callAt n) v' := by
    rw [run_eq, bind_of_ok hprepare]
    exact bind_of_ok hcall
  rw [hrun] at hleave
  rw [h.invoke_eq]
  unfold Act.attempt
  rw [hrun]
  cases hends : finish r.function l params staged result (.ok returned) (callAt n) v' with
  | ok a y =>
    rw [hends] at hfinish hleave
    exact ⟨y, hleave, .inl ⟨rfl, hfinish⟩⟩
  | error f y =>
    rw [hends] at hfinish hleave
    cases f with
    | error e => exact ⟨y, hleave nofun, .inr ⟨e, rfl, hfinish⟩⟩
    | panic p => exact ⟨y, hleave, hfinish⟩
    | exhausted => exact ⟨y, hleave, hfinish⟩

end Redirection

namespace Sample

/-- The stock library, and a method that copies a number and replaces a text. -/
def swappingBodies : List (Invocation → Program Unit) :=
  (Library.engine config.engine).methods.map MethodDef.body ++ [swapping]
where
  swapping (inv : Invocation) : Program Unit :=
    match inv.args with
    | [label, count, total] =>
      .observe fun s _ => .ask (.write total (s.readAt count 4)) fun _ =>
      .ask (.allocate (.string "new")) fun (text : Address) =>
      .ask (.write label text.octets) fun _ => .done none
    | _ => .done none

def swappingStart : World Unit :=
  world [⟨"G", ⟨"", "T", "Swap", some ["string&", "int", "int&"]⟩, 3, 0⟩] swappingBodies

/-- A function whose parameters stand in another order than the arguments of that method. -/
def swap : Redirector where
  function := ⟨"T", "Swap", ⟨true, true, true, false⟩,
    [⟨"Count", .scalar .int32, 4, 4, 0, ⟨true, false, false, false, false⟩⟩,
      ⟨"Label", .string, 24, 8, 8, ⟨true, true, false, true, false⟩⟩,
      ⟨"Total", .scalar .int32, 4, 4, 32, ⟨true, true, false, true, false⟩⟩], ⟨40, 8⟩⟩
  method := ⟨"G", ⟨"", "T", "Swap", some ["string&", "int", "int&"]⟩,
    [⟨"Label", true, false⟩, ⟨"Count", false, false⟩, ⟨"Total", true, false⟩]⟩
  binding := .unbound
  depth := 0

def swapping : Program Unit :=
  .ask (.redirect swap.function swap.method) fun _ =>
  .ask (.allot (.plain ([7, 0, 0, 0].map .value))) fun _ => .ask (.allot (.string "old")) fun _ =>
  .ask (.allot (.plain ([1, 1, 1, 1].map .value))) fun _ => .done none

def swapStack : ArgStack := ⟨[⟨0, false⟩, ⟨1, true⟩, ⟨2, true⟩], 0⟩

def swapLinkage : Linkage := ⟨[⟨1, .string, true, 0⟩, ⟨0, .scalar, false, 8⟩, ⟨2, .scalar, true, 16⟩], none⟩

def swapParams : List Parameter :=
  swap.function.params.zipWith (fun p (places : Address × Address) => ⟨p, places.1, places.2⟩)
    [(.cell 3 0, .cell 3 0), (.ofCell 4, .ofCell 1), (.cell 3 32, .ofCell 2)]

/-- The steps of the call, as far as they can be looked at. -/
def isSwapped (w : World Unit) : Bool :=
  match Redirection.linked ("T", "Swap") swap (callAt 2) w with
  | .ok (.ok (l, m)) v₀ =>
    match Redirection.load ("T", "Swap") swap l swapStack (callAt 2)
      { v₀ with state := v₀.state.enter ("T", "Swap") } with
    | .ok (params, _) u =>
      match Redirection.prepare swap.function l none params (callAt 2) u with
      | .ok (pointers, _, receiver) v =>
        match Act.callMethod m receiver pointers (callAt 2) v with
        | .ok (.ok _) v' =>
          l == swapLinkage && params == swapParams && u.state.memory.next == 5 &&
            v'.state.readAt (.cell 5 16) 8 == v.state.readAt (.cell 5 16) 8
        | _ => false
      | .error _ _ => false
    | .error _ _ => false
  | _ => false

/-- What the caller finds after the call. -/
def swapped (w : World Unit) : Option (Value × Value) :=
  match Redirection.invoke ("T", "Swap") swap none swapStack none (callAt 2) w with
  | .ok (.ok (), _) x => some (x.state.valueAt (.ofCell 1), x.state.valueAt (.ofCell 2))
  | _ => none

theorem run_swapping : endsIn 1 swapping swappingStart (fun w =>
      w.state.redirector? ("T", "Swap") == some swap && w.state.memory.next == 3 &&
      w.bodies.length == 15 && isSwapped w &&
      swapped w == some (.string "new", .plain ([7, 0, 0, 0].map .value))) = true := by
  decide +kernel

/-- Before its method, the call makes no other. -/
theorem prepare_swap (call call' : Invoker Unit) (u : World Unit) :
    Redirection.prepare swap.function swapLinkage none swapParams call' u =
      Redirection.prepare swap.function swapLinkage none swapParams call u :=
  rfl

theorem laidOut_swap : swap.function.LaidOut := by
  intro p hp
  simp only [swap, List.mem_cons, List.not_mem_nil, or_false] at hp
  obtain rfl | rfl | rfl := hp
  all_goals
    refine ⟨rfl, fun width h => ?_⟩
    cases h

/-- The methods of the stock library. -/
def stock : List (Invocation → Program Unit) :=
  (Library.engine config.engine).methods.map MethodDef.body

section Stock

variable {v : World Unit} {ps : List Property} (hbodies : stock <+: v.bodies)
  (hhelpers : v.state.bridge.helpers = (world [] []).state.bridge.helpers)
  (hps : ∀ p ∈ ps, ∀ info, p.kind ≠ .struct info)

include hbodies

theorem body_of_stock {i : Nat} {body : Invocation → Program Unit} (hi : stock[i]? = some body) :
    v.bodies[i]? = some body := by
  obtain ⟨more, hmore⟩ := hbodies
  rw [← hmore, List.getElem?_append_left (List.getElem?_eq_some_iff.1 hi).1]
  exact hi

include hhelpers hps

/-- Where the methods of the stock library come first, they write values back that are no structs. -/
theorem writesBack_of_stock : v.WritesBack ps := by
  have hbody {i : Nat} {body : Invocation → Program Unit} (hi : stock[i]? = some body) :
      v.bodies[i]? = some body := body_of_stock hbodies hi
  refine ⟨?_, fun {p make write} h => ?_, fun {p make write} h => ?_, fun {p info f} hp hinfo => ?_⟩
  · rw [hhelpers]
    exact hbody rfl
  · rw [hhelpers] at h
    unfold Helpers.collection at h
    split at h <;> cases h <;> exact hbody rfl
  · rw [hhelpers] at h
    unfold Helpers.softReference at h
    split at h <;> cases h <;> exact hbody rfl
  · unfold Property.structInfo at hinfo
    split at hinfo
    · rename_i hkind
      exact absurd hkind (hps p hp _)
    · cases hinfo

end Stock

/-- A world with the bodies and the helpers of the sample has the stock library. -/
theorem writesBack_swap {v : World Unit} (hbodies : swappingBodies <+: v.bodies)
    (hhelpers : v.state.bridge.helpers = swappingStart.state.bridge.helpers) :
    v.WritesBack swap.function.params := by
  refine writesBack_of_stock ((List.prefix_append _ _).trans hbodies) hhelpers fun p hp info => ?_
  simp only [swap, List.mem_cons, List.not_mem_nil, or_false] at hp
  obtain rfl | rfl | rfl := hp <;> nofun

end Sample

namespace Sample

def addingStart : World Unit :=
  world [⟨"G", ⟨"", "T", "Add", some ["int"]⟩, 1, 0⟩] (List.replicate 15 fun _ => .done none)

/-- A function of objects. -/
def add : Redirector where
  function := ⟨"T", "Add", ⟨false, true, false, false⟩,
    [⟨"Value", .scalar .int32, 4, 4, 0, ⟨true, false, false, false, false⟩⟩], ⟨4, 4⟩⟩
  method := ⟨"G", ⟨"", "T", "Add", some ["int"]⟩, [⟨"Value", false, false⟩]⟩
  binding := .unbound
  depth := 0

/-- An object whose class has no proxy class. -/
def adding : Program Unit :=
  .ask (.redirect add.function add.method) fun _ =>
  .ask (.allot (.plain ([7, 0, 0, 0].map .value))) fun _ =>
  .ask (.defineClass ⟨"T", "T", "G", .native, false⟩ none) fun c =>
  .ask (.spawn c none "o") fun _ => .done none

def addStack : ArgStack := ⟨[⟨0, false⟩], 0⟩

/-- How often the method was called when the call ended with a link error, although its argument was
staged. -/
def callsStaged (w : World Unit) : Option Nat :=
  match Redirection.linked ("T", "Add") add (callAt 2) w with
  | .ok (.ok (l, m)) v =>
    match Redirection.load ("T", "Add") add l addStack (callAt 2)
      { v with state := v.state.enter ("T", "Add") } with
    | .ok (params, _) u =>
      match Redirection.stageArgs params u.state.memory.next l.args (callAt 2)
        { u with state := (u.state.frameCell (.plain [])).2 } with
      | .ok _ _ =>
        match Redirection.invoke ("T", "Add") add (some (.hostObject 0)) addStack none (callAt 2) w with
        | .ok (.error (.link _), _) x => (x.state.foreign.methods[m]?).map MethodInfo.calls
        | _ => none
      | .error _ _ => none
    | .error _ _ => none
  | _ => none

theorem run_adding : endsIn 1 adding addingStart (fun w =>
      w.state.redirector? ("T", "Add") == some add && callsStaged w == some 0) = true := by
  decide +kernel

end Sample

end TwinHeap
