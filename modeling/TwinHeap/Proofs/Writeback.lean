import TwinHeap.Proofs.Outputs

/-!
# Writing back — every output is copied from what the method left

The outputs are written one after the other, to cells of the caller or to the places of their own
parameters. None of them disturbs what a later one is copied from, so all of them are what the method
left (`ends_writeBack`); a cell that is lent for several outputs receives them in native order
(`received`).
-/

namespace TwinHeap

variable {σ : Type}

/-! ## What a delivery reads and writes -/

namespace Delivery

/-- How many octets are written at most. -/
def width : Delivery → Nat
  | octets os => os.length
  | flag _ _ => 1
  | value v => v.octets.length

/-- What lies beside a delivery stays. -/
theorem octetAt_put (d : Delivery) {e offset k : Nat} (hd : d.width ≤ e)
    (hk : k < offset ∨ offset + e ≤ k) (old : Value) :
    (d.put offset old).octetAt k = old.octetAt k := by
  have hsplice (os : List Octet) (hos : os.length ≤ e) :
      (old.splice offset os).octetAt k = old.octetAt k := by
    cases old with
    | plain old => rw [Value.octetAt_splice, if_neg (by omega)]
    | _ => rfl
  cases d with
  | octets os => exact hsplice os hd
  | flag mask on => exact hsplice _ (by rw [List.length_map, Value.length_read]; exact hd)
  | value v =>
    cases v with
    | plain os => exact hsplice os hd
    | _ => cases old <;> rfl

end Delivery

namespace Marshaller

variable {m : Marshaller} {p : Property} {s s' : State} {foreign : Address}

/-- How many octets of foreign data a delivery depends on. -/
def reads (m : Marshaller) (p : Property) : Nat :=
  match m with
  | bool => 1
  | scalar | enumeration | struct => p.size
  | name | text | classRef => 8
  | string | object | softReference | collection => 0

/-- A delivery depends on the foreign data that it reads, and on objects that are no boxes. -/
theorem delivery_congr
    (hread : s'.readAt foreign (m.reads p) = s.readAt foreign (m.reads p))
    (hobjects : ∀ i, s'.heap.objects.get? i = s.heap.objects.get? i ∨
      s.heap.objects.get? i = none ∧ ∃ os len, s'.heap.objects.get? i = some (.boxed os len)) :
    m.delivery p s' foreign = m.delivery p s foreign := by
  -- Only an object that is no box can be a string, a collection or a path.
  have hget (a : Address) : s'.heap.get? a = s.heap.get? a ∨
      s.heap.get? a = none ∧ ∃ os len, s'.heap.get? a = some (.boxed os len) := by
    cases a with
    | foreign i => exact hobjects i
    | _ => exact .inl rfl
  have hstring (a : Address) : s'.stringAt a = s.stringAt a := by
    unfold State.stringAt Heap.readString
    obtain h | ⟨h, os, len, h'⟩ := hget a
    · rw [h]
    · rw [h, h']
  unfold delivery
  cases m with
  | bool =>
    have hread : s'.readAt foreign 1 = s.readAt foreign 1 := hread
    rw [hread]
  | scalar | enumeration | struct => exact congrArg Delivery.octets hread
  | name =>
    have hread : s'.readAt foreign 8 = s.readAt foreign 8 := hread
    rw [hread]
  | text =>
    have hword : s'.addressAt foreign = s.addressAt foreign := congrArg Address.ofOctets hread
    rw [hword, hstring]
  | string => exact congrArg (fun t => Delivery.value (.string t)) (hstring foreign)
  | object =>
    have hnative (a : Address) : s'.heap.nativeOf a = s.heap.nativeOf a := by
      unfold Heap.nativeOf
      obtain h | ⟨h, os, len, h'⟩ := hget a
      · rw [h]
      · rw [h, h']
    unfold State.nativeBehind
    rw [funext hnative]
  | classRef => exact congrArg Delivery.octets hread
  | softReference =>
    unfold State.pathAt
    cases foreign.nonNull with
    | none => rfl
    | some a =>
      dsimp only [Option.bind]
      obtain h | ⟨h, os, len, h'⟩ := hget a
      · rw [h]
      · rw [h, h']
  | collection =>
    unfold State.contentsAt
    cases foreign.nonNull with
    | none => rfl
    | some a =>
      dsimp only [Option.bind]
      obtain h | ⟨h, os, len, h'⟩ := hget a
      · rw [h]
      · rw [h, h']

/-- In a block, the marshaller neither reads nor writes beyond the end of the property. -/
def Fits (m : Marshaller) (p : Property) : Prop :=
  p.inBlock = true → m.reads p ≤ p.extent ∧ ∀ s foreign, (m.delivery p s foreign).width ≤ p.extent

/-- The marshaller of a kind fits where the kind is laid out as the host does it. -/
theorem fits_of_layout (hm : ofTag p.kind.tag = some m) (hsize : p.size = p.kind.hostLayout.size) :
    m.Fits p := by
  intro hin
  have hextent := Property.extent_of_plain (p := p)
  have hsame {n : Nat} (s : State) (foreign : Address) (hn : n ≤ p.extent) :
      (Delivery.octets (s.readAt foreign n)).width ≤ p.extent := by
    show (s.readAt foreign n).length ≤ _
    rwa [State.length_readAt]
  cases hkind : p.kind <;> rw [hkind] at hm hsize hextent <;> cases hm
  case bool mask =>
    have hpos : 1 ≤ p.extent := Property.one_le_extent (by rw [hkind]; rfl)
    refine ⟨hpos, fun s foreign => ?_⟩
    unfold delivery
    dsimp only
    split
    · exact hpos
    · exact Nat.zero_le _
  case scalar | enumeration | struct =>
    have hle : p.size ≤ p.extent := Nat.le_of_eq (hextent rfl).symm
    exact ⟨hle, fun s foreign => hsame s foreign hle⟩
  case name =>
    have hle : 12 ≤ p.extent := Nat.le_of_eq ((hextent rfl).trans hsize).symm
    refine ⟨Nat.le_trans (by decide : 8 ≤ 12) hle, fun s foreign => ?_⟩
    simpa [delivery, Delivery.width, HostName.octets, wordOctets] using hle
  case object =>
    have hle : 8 ≤ p.extent := Nat.le_of_eq ((hextent rfl).trans hsize).symm
    refine ⟨Nat.zero_le _, fun s foreign => ?_⟩
    show (s.nativeBehind foreign).octets.length ≤ _
    rwa [Address.length_octets]
  case classRef =>
    have hle : 8 ≤ p.extent := Nat.le_of_eq ((hextent rfl).trans hsize).symm
    exact ⟨hle, fun s foreign => hsame s foreign hle⟩
  -- The others have a cell of their own.
  all_goals
    unfold Property.inBlock at hin
    rw [hkind] at hin
    cases hin

theorem Accepts.puts {base : Nat} {g : Nat → Value → Value} {w v : World σ}
    (h : m.Accepts p w.state foreign) (hv : w.Puts base g v) : m.Accepts p v.state foreign := by
  cases m with
  | softReference | collection =>
    obtain ⟨ms, hms⟩ := h
    exact ⟨ms, hv.helpers ▸ hms⟩
  | struct =>
    obtain ⟨⟨info, f, hinfo, hf⟩, hdata⟩ := h
    exact ⟨⟨info, f, hinfo, hf.imp hv.met fun hf => (hv.finds info).trans hf⟩, hdata⟩
  | _ => exact h

end Marshaller

/-! ## The outputs of a call -/

namespace Redirection

open Act

/-- What is copied back for the parameter at an index, from what the method left. -/
def output? (l : Linkage) (scratch : Nat) (s : State) (i : Nat) (param : Parameter) :
    Option Delivery :=
  match l.forParam i with
  | some a =>
    if a.byRef then
      some (a.marshaller.delivery param.property s
        (s.addressAt (Slot.pointer ⟨scratch, a.scratchOffset⟩)))
    else none
  | none => none

/-- What a cell holds after all outputs from an index on were copied back. -/
def received (l : Linkage) (scratch : Nat) (s : State) (c : Nat) :
    Nat → List Parameter → Value → Value
  | _, [], v => v
  | i, param :: params, v =>
    received l scratch s c (i + 1) params
      ((output? l scratch s i param).elim v fun d => d.into param.output c v)

/-- An output that goes elsewhere leaves a cell as it is. -/
theorem elim_output_of_ne {l : Linkage} {scratch c : Nat} {s : State} {param : Parameter}
    (h : ∀ n, param.output ≠ .cell c n) (i : Nat) (v : Value) :
    ((output? l scratch s i param).elim v fun d => d.into param.output c v) = v := by
  cases output? l scratch s i param with
  | none => rfl
  | some d =>
    show d.into param.output c v = v
    cases hplace : param.output with
    | cell c' n =>
      refine d.into_cell_of_ne ?_ n v
      rintro rfl
      exact h n hplace
    | _ => rfl

/-- A cell that is lent for no output receives none. -/
theorem received_of_none {l : Linkage} {scratch c : Nat} {s : State} {params : List Parameter}
    {i : Nat} (h : ∀ param ∈ params, ∀ n, param.output ≠ .cell c n) (v : Value) :
    received l scratch s c i params v = v := by
  induction params generalizing i with
  | nil => rfl
  | cons param params ih =>
    obtain ⟨hout, hrest⟩ := List.forall_mem_cons.1 h
    rw [received, elim_output_of_ne hout]
    exact ih hrest

/-- A cell that is lent for one output receives this one. -/
theorem received_of_unique {l : Linkage} {scratch c : Nat} {s : State} {params : List Parameter}
    {i j : Nat} {param : Parameter} {d : Delivery} (hj : params[j]? = some param)
    (hd : output? l scratch s (i + j) param = some d)
    (hother : ∀ k param', params[k]? = some param' → k ≠ j → ∀ n, param'.output ≠ .cell c n)
    (v : Value) : received l scratch s c i params v = d.into param.output c v := by
  induction params generalizing i j v with
  | nil => cases hj
  | cons param' rest ih =>
    cases j with
    | zero =>
      cases hj
      rw [received, show output? l scratch s i param = some d from hd]
      refine received_of_none (fun param' hmem n => ?_) _
      obtain ⟨k, hk⟩ := List.mem_iff_getElem?.1 hmem
      exact hother (k + 1) param' hk (Nat.succ_ne_zero k) n
    | succ j =>
      rw [received, elim_output_of_ne (hother 0 param' rfl (Nat.succ_ne_zero j).symm)]
      refine ih hj ?_ (fun k param'' hk hne => hother (k + 1) param'' hk ?_) v
      · rw [Nat.add_right_comm]
        exact hd
      · omega

/-- Foreign data of an argument that only its own output can reach. -/
inductive Source (scratch : Nat) (s : State) (m : Marshaller) (param : Parameter) : Address → Prop
  | object {a : Address} (h : m.isReference = true) : Source scratch s m param a
  | place (hin : param.property.inBlock = true) : Source scratch s m param param.place
  | scratch (offset : Nat) : Source scratch s m param (.cell scratch offset)
  | payload {i : Nat} {object : Managed} (h : s.heap.objects.get? i = some object) :
    Source scratch s m param (.payload i)

/-- The output of a parameter can be copied back from what the method left. -/
structure Returnable (block scratch : Nat) (s : State) (param : Parameter) (a : LinkedArg) : Prop where
  accepts : a.marshaller.Accepts param.property s
    (s.addressAt (Slot.pointer ⟨scratch, a.scratchOffset⟩))
  source : Source scratch s a.marshaller param
    (s.addressAt (Slot.pointer ⟨scratch, a.scratchOffset⟩))
  fits : a.marshaller.Fits param.property
  /-- It goes to a cell of the caller, or to the place of the parameter. -/
  output : (∃ c o, param.output = .cell c o ∧ c < block) ∨ param.output = param.place

/-- So far the outputs of other parameters were copied back. -/
structure Untouched (block scratch : Nat) (params : List Parameter) (s s' : State) : Prop where
  scratch : s'.memory.cells.get? scratch = s.memory.cells.get? scratch
  block : ∀ param ∈ params, param.property.inBlock = true → ∀ k < param.property.extent,
    (s'.memory.get block).octetAt (param.property.offset + k) =
      (s.memory.get block).octetAt (param.property.offset + k)

variable {block scratch base n : Nat} {l : Linkage} {params all : List Parameter}
  {staged : List StagedArg} {s₀ s s' : State} {w v : World σ} {param : Parameter} {a : LinkedArg}

theorem readAt_of_cell {c offset n : Nat}
    (h : s'.memory.cells.get? c = s.memory.cells.get? c) :
    s'.readAt (.cell c offset) n = s.readAt (.cell c offset) n := by
  have hget : s'.memory.get c = s.memory.get c := by
    unfold Memory.get
    rw [h]
  show ((s'.memory.get c).skip offset).read n = ((s.memory.get c).skip offset).read n
  rw [hget]

/-- Either way it goes to a cell. -/
theorem Returnable.cell (h : Returnable block scratch s param a) (hL : Laid block scratch all s₀)
    (hmem : param ∈ all) : ∃ c o, param.output = .cell c o := by
  obtain ⟨c, o, hcell, -⟩ | hplace := h.output
  · exact ⟨c, o, hcell⟩
  · obtain ⟨c, o, hcell, -⟩ := hL.cell hmem
    exact ⟨c, o, hplace.trans hcell⟩

/-- What an output is copied from is what the method left. -/
theorem Source.readAt_eq {foreign : Address} {g : Nat → Value → Value} (hL : Laid block scratch all s₀)
    (hmem : param ∈ all) (h : Source scratch w.state a.marshaller param foreign)
    (hfits : a.marshaller.Fits param.property)
    (hu : Untouched block scratch (param :: params) w.state v.state) (hv : w.Puts base g v) :
    v.state.readAt foreign (a.marshaller.reads param.property) =
      w.state.readAt foreign (a.marshaller.reads param.property) := by
  cases h with
  | object hm =>
    -- Of an object no octets are read.
    have hzero : a.marshaller.reads param.property = 0 := by
      cases hcase : a.marshaller <;> rw [hcase] at hm <;> first | rfl | cases hm
    rw [hzero, List.eq_nil_of_length_eq_zero (State.length_readAt _ _ 0),
      List.eq_nil_of_length_eq_zero (State.length_readAt _ _ 0)]
  | place hin =>
    obtain ⟨-, hplace⟩ | ⟨hin', -⟩ := hL.place param hmem
    · rw [hplace]
      refine Value.read_eq_iff.2 fun k hk => ?_
      rw [Value.octetAt_skip, Value.octetAt_skip]
      exact hu.block param List.mem_cons_self hin k (Nat.lt_of_lt_of_le hk (hfits hin).1)
    · rw [hin] at hin'
      cases hin'
  | scratch offset => exact readAt_of_cell hu.scratch
  | @payload i object hobject =>
    -- What is new on the heap is none of the objects that were there.
    have hsame : v.state.heap.objects.get? i = w.state.heap.objects.get? i := by
      obtain hsame | ⟨hnone, -⟩ := hv.objects i
      · exact hsame
      · rw [hobject] at hnone
        cases hnone
    unfold State.readAt
    dsimp only
    rw [hsame]

/-- The octets of a struct do not lie in a cell that is still to be made. -/
theorem Source.reaches {foreign : Address} (hL : Laid block scratch all s₀) (hmem : param ∈ all)
    (h : Source scratch s a.marshaller param foreign) (hm : a.marshaller = .struct)
    (hnext : scratch < s'.memory.next) : s'.Reaches foreign := by
  intro c o hc
  cases h with
  | object h =>
    rw [hm] at h
    cases h
  | place hin =>
    obtain ⟨c', o', hplace, -, hlt⟩ := hL.cell hmem
    cases hc.symm.trans hplace
    exact Nat.lt_trans hlt hnext
  | scratch offset =>
    cases hc
    exact hnext
  | payload => cases hc

/-- The output of one parameter reaches nothing that the others are copied from. -/
theorem Untouched.deliver {d : Delivery} (hL : Laid block scratch all s₀) (hmem : param ∈ all)
    (hsub : ∀ param' ∈ params, param' ∈ all) (hapart : ∀ param' ∈ params, param.Apart param')
    (h : Untouched block scratch (param :: params) s s')
    (hout : (∃ c o, param.output = .cell c o ∧ c < block) ∨ param.output = param.place)
    (hwidth : param.property.inBlock = true → d.width ≤ param.property.extent)
    {s'' : State} (hs : ∀ c < scratch + 1, s''.memory.cells.get? c =
      (s'.memory.cells.get? c).map (d.into param.output c)) :
    Untouched block scratch params s s'' := by
  have hsame {c : Nat} (hc : c < scratch + 1) (hne : ∀ o, param.output ≠ .cell c o) :
      s''.memory.cells.get? c = s'.memory.cells.get? c := by
    have hinto : d.into param.output c = id := by
      funext old
      cases hplace : param.output with
      | cell c' o =>
        refine d.into_cell_of_ne ?_ o old
        rintro rfl
        exact hne o hplace
      | _ => rfl
    rw [hs c hc, hinto, Option.map_id_apply]
  have horder := hL.order
  have hscratch (o : Nat) : param.output ≠ .cell scratch o := by
    obtain ⟨c, o', hplace, hc⟩ | hplace := hout
    · rw [hplace]
      rintro ⟨⟩
      omega
    · obtain ⟨c, o', hcell, -, hlt⟩ := hL.cell hmem
      rw [hplace, hcell]
      rintro ⟨⟩
      omega
  refine ⟨(hsame (Nat.lt_succ_self _) hscratch).trans h.scratch, fun param' hparam' hin k hk => ?_⟩
  refine Eq.trans ?_ (h.block param' (List.mem_cons_of_mem _ hparam') hin k hk)
  have hblock : block < scratch + 1 := by omega
  by_cases hown : ∃ o, param.output = .cell block o
  · -- Only the output of a parameter that is not lent lies in the block, beside the other ones.
    obtain ⟨o, ho⟩ := hown
    obtain ⟨c, o', hplace, hc⟩ | hplace := hout
    · rw [ho] at hplace
      cases hplace
      exact absurd hc (Nat.lt_irrefl _)
    · rw [ho] at hplace
      obtain ⟨hin', hcell⟩ | ⟨-, c, hcell, hlt, -⟩ := hL.place param hmem
      · rw [hcell] at hplace
        cases hplace
        obtain ⟨-, hplace'⟩ | ⟨hin'', -⟩ := hL.place param' (hsub param' hparam')
        · obtain ⟨-, -, hrange⟩ := hapart param' hparam' block _ _ hcell hplace'
          unfold Memory.get
          rw [hs block hblock, ho]
          cases s'.memory.cells.get? block with
          | none => rfl
          | some old =>
            rw [Option.map_some, Option.getD_some, Option.getD_some, d.into_cell_self]
            exact d.octetAt_put (hwidth hin') (by omega) old
        · rw [hin] at hin''
          cases hin''
      · rw [hcell] at hplace
        cases hplace
        exact absurd hlt (Nat.lt_irrefl _)
  · unfold Memory.get
    rw [hsame hblock fun o ho => hown ⟨o, ho⟩]

/-- One output is copied back from what the method left. -/
theorem ends_writeBackOne {ps : List Property} {g : Nat → Value → Value} {i : Nat}
    (hL : Laid block scratch all s₀) (hmem : param ∈ all)
    (hsub : ∀ param' ∈ params, param' ∈ all) (hapart : ∀ param' ∈ params, param.Apart param')
    (hfind : (staged.find? fun t => t.arg.param == i) =
      (l.forParam i).map fun a => ⟨a, ⟨scratch, a.scratchOffset⟩⟩)
    (hready : ∀ a, l.forParam i = some a → a.byRef = true →
      Returnable block scratch w.state param a)
    (hw : w.WritesBack ps) (hn : w.state.heap.Numbered) (hnext : scratch < w.state.memory.next)
    (hp : param.property ∈ ps) (hv : w.Puts (scratch + 1) g v)
    (hu : Untouched block scratch (param :: params) w.state v.state) :
    Ends (writeBackOne staged i param (callAt (n + 1)) v)
      (fun _ x => w.Puts (scratch + 1) (fun c old =>
          (output? l scratch w.state i param).elim (g c old) fun d => d.into param.output c (g c old))
          x ∧ Untouched block scratch params w.state x.state)
      fun _ _ => False := by
  have hrest : Untouched block scratch params w.state v.state :=
    ⟨hu.scratch, fun param' hmem => hu.block param' (List.mem_cons_of_mem _ hmem)⟩
  unfold writeBackOne output?
  rw [hfind]
  cases hparam : l.forParam i with
  | none => exact ⟨hv, hrest⟩
  | some a =>
    dsimp only [Option.map]
    cases hby : a.byRef with
    | false => exact ⟨hv, hrest⟩
    | true =>
      obtain ⟨haccepts, hsource, hfits, hout⟩ := hready a hparam hby
      -- The slots lie in the scratch cell, which no output reaches.
      have hpointer : v.state.addressAt (Slot.pointer ⟨scratch, a.scratchOffset⟩) =
          w.state.addressAt (Slot.pointer ⟨scratch, a.scratchOffset⟩) :=
        congrArg Address.ofOctets (readAt_of_cell hu.scratch)
      have hread := hsource.readAt_eq hL hmem hfits hu hv
      have hdelivery := Marshaller.delivery_congr hread hv.objects
      obtain ⟨c, o, hcell⟩ := (hready a hparam hby).cell hL hmem
      have hvnext : scratch + 1 ≤ v.state.memory.next := Nat.le_trans hnext hv.next
      simp only [if_pos]
      refine ends_bind (Q := fun s x => v.state = s ∧ v = x) ⟨rfl, rfl⟩ ?_
      rintro _ _ ⟨rfl, rfl⟩
      rw [hpointer, hcell]
      generalize w.state.addressAt (Slot.pointer ⟨scratch, a.scratchOffset⟩) = foreign at *
      refine (Marshaller.ends_toHost (hv.writesBack hw) (hv.numbered hn) hvnext hp a.marshaller
        foreign).mono ?_ fun _ _ hf => hf.2 (haccepts.puts hv)
      rintro _ x ⟨d, hx, hd⟩
      obtain rfl := (hd fun hm => hsource.reaches hL hmem hm hvnext).trans hdelivery
      refine ⟨hv.trans hx, hu.deliver hL hmem hsub hapart hout
        (fun hin => (hfits hin).2 w.state foreign) fun c' hc' => ?_⟩
      rw [hcell]
      exact hx.cells c' hc'

/-- All outputs are copied back from what the method left. -/
theorem ends_writeBack {ps : List Property} {g : Nat → Value → Value} {i : Nat}
    (hL : Laid block scratch all s₀) (hsub : params.Sublist all)
    (hfind : ∀ j < params.length, (staged.find? fun t => t.arg.param == i + j) =
      (l.forParam (i + j)).map fun a => ⟨a, ⟨scratch, a.scratchOffset⟩⟩)
    (hready : ∀ j param a, params[j]? = some param → l.forParam (i + j) = some a →
      a.byRef = true → Returnable block scratch w.state param a)
    (hw : w.WritesBack ps) (hn : w.state.heap.Numbered) (hnext : scratch < w.state.memory.next)
    (hp : ∀ param ∈ params, param.property ∈ ps) (hv : w.Puts (scratch + 1) g v)
    (hu : Untouched block scratch params w.state v.state) :
    Ends (writeBack staged i params (callAt (n + 1)) v)
      (fun _ x => w.Puts (scratch + 1)
        (fun c old => received l scratch w.state c i params (g c old)) x) fun _ _ => False := by
  induction params generalizing i v g with
  | nil => exact hv
  | cons param params ih =>
    obtain ⟨hp, hps⟩ := List.forall_mem_cons.1 hp
    have hmem (param' : Parameter) (h : param' ∈ param :: params) : param' ∈ all := hsub.subset h
    have hapart := List.pairwise_cons.1 (hL.apart.sublist hsub)
    rw [writeBack_cons]
    refine ends_bind (ends_writeBackOne hL (hmem param List.mem_cons_self)
      (fun param' h => hmem param' (List.mem_cons_of_mem _ h)) hapart.1
      (hfind 0 (Nat.succ_pos _)) (fun a ha => hready 0 param a rfl ha) hw hn hnext hp hv hu) ?_
    rintro _ x ⟨hx, hux⟩
    refine (ih ((List.sublist_cons_self param params).trans hsub) (fun j hj => ?_)
      (fun j param' a hj ha => ?_) hps hx hux).mono (fun _ y hy => hy) fun _ _ hf => hf
    · rw [Nat.add_right_comm]
      exact hfind (j + 1) (Nat.succ_lt_succ hj)
    · rw [Nat.add_right_comm] at ha
      exact hready (j + 1) param' a hj ha

end Redirection

end TwinHeap
