import TwinHeap.Proofs.Making

/-!
# Handing over — what the stock library passes to a method, and what the method still has of it

Where every argument is a value of the host, staging them one after the other only fails if a counter
overflows (`Ready.ends_stageArgs`). What was made of an argument is not disturbed by those after it
(`Ready.renders`): strings, soft references and collections are never changed, and the call holds them
until the method has answered.
-/

namespace TwinHeap

variable {σ α : Type}

/-! ## Defaults -/

namespace Value

variable {p : Property}

/-- Loading the default makes the default. -/
theorem octetAt_loaded_default (hin : p.inBlock = true) (k : Nat) :
    (loaded p (default p)).octetAt k = (default p).octetAt k := by
  rw [octetAt_loaded hin, default_eq_plain hin, octetAt_replicate_zero]
  unfold incoming
  obtain hs | ⟨mask, hs⟩ := Property.storage_of_inBlock hin <;> rw [hs]
  · show ((plain (List.replicate p.size .zero)).read p.size)[k]?.getD .zero = _
    rw [getElem?_read]
    split
    · exact octetAt_replicate_zero _ _
    · rfl
  · rw [first_eq_octetAt, octetAt_replicate_zero]
    cases k <;> simp [Octet.merge, Octet.zero, Octet.byte]

end Value

/-- What holds its default might have been supplied with it. -/
theorem State.Holds.of_default {s : State} {p : Property} {place : Address}
    (h : s.Holds p place (.default p)) : s.Holds p place (.loaded p (.default p)) := by
  unfold State.Holds at h ⊢
  split
  · rename_i hin
    rw [if_pos hin] at h
    rw [h]
    exact Value.read_eq_iff.2 fun k _ => (Value.octetAt_loaded_default hin k).symm
  · rename_i hin
    rw [if_neg hin] at h
    have hin := eq_false_of_ne_true hin
    rw [Value.loaded_of_not_plain hin (Value.isPlain_default hin)]
    exact h

/-- The default is a value that the host holds. -/
theorem World.isValue_default (w : World σ) (p : Property) : w.IsValue p (.default p) := by
  have hzero (hs : p.kind.storage = .plain) (n : Nat) :
      (Value.default p).read n = List.replicate n .zero := by
    unfold Value.default
    rw [hs]
    refine List.ext_getElem? fun k => ?_
    rw [Value.getElem?_read, Value.octetAt_replicate_zero, List.getElem?_replicate]
  unfold IsValue
  cases hkind : p.kind <;> rw [hkind] at hzero
  case name => exact ⟨⟨0, 0, 0⟩, rfl, (hzero rfl 12).trans (by decide)⟩
  case object => exact ⟨.null, (hzero rfl addressSize).trans (by decide), .inl rfl⟩
  case string | text | softObject | softClass =>
    exact ⟨"", by unfold Value.default; rw [hkind]; rfl⟩
  case arrayOf | setOf | mapOf => exact ⟨.empty, by unfold Value.default; rw [hkind]; rfl⟩
  all_goals exact trivial

/-! ## Objects that never change -/

/-- A value that nothing changes. An instance may come to stand for another host object, and the payload
of a box may be written. -/
def Managed.isFixed : Managed → Bool
  | .string _ | .collection _ | .soft _ => true
  | .object _ _ | .boxed _ _ => false

/-- What has come to be since is new: objects of before that are still there are the same, where they
do not change. -/
structure Heap.Recalls (h h' : Heap) : Prop where
  next : h.nextObject ≤ h'.nextObject
  object : ∀ i < h.nextObject, ∀ new, h'.objects.get? i = some new →
    ∃ old, h.objects.get? i = some old ∧ old.isFixed = new.isFixed ∧ (old.isFixed = true → new = old)

namespace Heap.Recalls

variable {h h' h'' : Heap}

theorem of_objects (ho : h'.objects = h.objects ∧ h'.nextObject = h.nextObject) : h.Recalls h' :=
  ⟨Nat.le_of_eq ho.2.symm, fun _ _ new hi => ⟨new, ho.1 ▸ hi, rfl, fun _ => rfl⟩⟩

theorem refl (h : Heap) : h.Recalls h := of_objects ⟨rfl, rfl⟩

theorem trans (hr : h.Recalls h') (hr' : h'.Recalls h'') : h.Recalls h'' where
  next := Nat.le_trans hr.next hr'.next
  object i hi new hnew := by
    obtain ⟨between, hbetween, hsame', hfixed'⟩ :=
      hr'.object i (Nat.lt_of_lt_of_le hi hr.next) new hnew
    obtain ⟨old, hold, hsame, hfixed⟩ := hr.object i hi between hbetween
    exact ⟨old, hold, hsame.trans hsame', fun hf => (hfixed' (hsame ▸ hf)).trans (hfixed hf)⟩

theorem allocate (h : Heap) (object : Managed) : h.Recalls (h.allocate object).2 where
  next := Nat.le_succ _
  object i hi new hnew := by
    change (h.objects.insert h.nextObject object).get? i = some new at hnew
    rw [Table.get?_insert, if_neg (Nat.ne_of_gt hi)] at hnew
    exact ⟨new, hnew, rfl, fun _ => rfl⟩

/-- An object that is not fixed is changed into another such. -/
theorem modify (h : Heap) (a : Address) {f : Managed → Managed}
    (hf : ∀ object, object.isFixed = (f object).isFixed ∧ (object.isFixed = true → f object = object)) :
    h.Recalls (h.modify a f) := by
  cases a with
  | foreign j =>
    refine ⟨Nat.le_refl _, fun i _ new hnew => ?_⟩
    change (h.objects.modify j f).get? i = some new at hnew
    rw [Table.get?_modify] at hnew
    split at hnew
    · obtain ⟨old, hold, rfl⟩ := Option.map_eq_some_iff.1 hnew
      exact ⟨old, hold, hf old⟩
    · exact ⟨new, hnew, rfl, fun _ => rfl⟩
  | _ => exact refl h

theorem collect (h : Heap) (full : Bool) : h.Recalls (h.collect full) where
  next := Nat.le_refl _
  object i _ new hnew := by
    change (h.objects.filter fun i _ => h.roots.contains (.foreign i)).get? i = some new at hnew
    rw [Table.get?_filter_key] at hnew
    split at hnew
    · exact ⟨new, hnew, rfl, fun _ => rfl⟩
    · cases hnew

end Heap.Recalls

namespace State

variable (s : State)

theorem recalls_writeAt (a : Address) (os : List Octet) :
    s.heap.Recalls (s.writeAt a os).heap := by
  cases a with
  | payload i =>
    refine Heap.Recalls.modify s.heap (.foreign i) fun object => ?_
    cases object with
    | boxed => exact ⟨rfl, fun h => Bool.noConfusion h⟩
    | _ => exact ⟨rfl, fun _ => rfl⟩
  | _ => exact .refl _

theorem recalls_dropEntry (host : Address) : s.heap.Recalls (s.dropEntry host).heap := by
  unfold dropEntry
  split
  · exact .refl _
  · exact .of_objects (Heap.objects_release _ s.heap)

end State

/-- What is asked for leaves fixed objects as they are. -/
theorem Request.Outcome.recalls {r : Request} {s s' : State} (h : r.Outcome s s') :
    s.heap.Recalls s'.heap := by
  -- Objects are written to, told what they stand for or collected; handles leave them alone.
  cases h with
  | payload i octets => exact s.recalls_writeAt (.payload i) octets
  | allocate => exact .allocate _ _
  | instantiate => exact .allocate _ _
  | setNative object =>
    refine Heap.Recalls.modify s.heap object fun old => ?_
    cases old with
    | object => exact ⟨rfl, fun h => Bool.noConfusion h⟩
    | _ => exact ⟨rfl, fun _ => rfl⟩
  | collect full => exact .collect _ full
  | hold target strength => exact .of_objects (Heap.objects_make s.heap target strength)
  | @regrip _ old _ strength => exact .of_objects (Heap.objects_setStrength old s.heap strength)
  | @letGo _ old => exact .of_objects (Heap.objects_release old s.heap)
  | @setRooted _ old => exact .of_objects (Heap.objects_setStrength old s.heap _)
  | _ => exact .refl _

/-- Nothing that the bridge does changes a fixed object. -/
theorem Change.recalls {T : Terms} {o o' : List Owed} {s s' : State} (hc : Change T o s o' s') :
    s.heap.Recalls s'.heap := by
  cases hc with
  | write _ os => exact s.recalls_writeAt _ os
  | @store _ _ a => cases a <;> exact .refl _
  | string text => exact .allocate _ _
  | collect _ full => exact .collect _ full
  | clear | unmake => exact s.recalls_dropEntry _
  | make _ _ _ ht =>
    rw [State.addProxy_of_isType ht]
    exact (Heap.Recalls.allocate _ _).trans (.of_objects (Heap.objects_make _ _ .strong))
  | severed => exact .of_objects (Heap.objects_release _ s.heap)
  | @leave _ _ key =>
    show s.heap.Recalls (s.leave key).heap
    unfold State.leave
    dsimp only
    split
    · exact .refl _
    · exact .of_objects (Heap.objects_releaseAll _ s.heap)
  | root a =>
    show s.heap.Recalls (s.root a).heap
    unfold State.root
    split
    · exact .refl _
    · exact .of_objects (Heap.objects_make s.heap a .strong)
  | alone _ _ hf => exact (Request.outcome hf s).recalls
  | _ => exact .refl _

/-- Fixed objects are the same ever since. -/
def recallRealm (start : Heap) : Realm σ :=
  .everywhere (fun _ w => start.Recalls w.state.heap) (fun _ h => h) (fun _ h => h)
    (fun _ _ h => h) (fun _ h => h) fun h hc => h.trans hc.recalls

/-! ## One argument -/

namespace Marshaller

open Act World

variable {call : Invoker σ} {w : World σ} {n c o : Nat} {ps : List Property} {p : Property}
  {m : Marshaller} {src : Value} {slot : Slot}

/-- Passing a value presents it, and keeps the pointer if it is passed by reference. -/
theorem ends_pass (hcall : call.Performs n) (hw : w.Presents ps) (hn : w.state.heap.Numbered)
    (hp : p ∈ ps) (hm : ofTag p.kind.tag = some m) (hsize : p.size = p.kind.hostLayout.size)
    (hc : c < w.state.memory.next) (hh : w.state.Holds p (.cell c o) (.loaded p src))
    (hv : w.IsValue p src) (hslot : w.state.Writable slot.staging) (byRef : Bool) :
    Ends (m.pass p (.cell c o) slot byRef call w)
      (fun shown v => w.Gains v ∧ (byRef = false →
        m.Renders v.state p src (m.handed p v.state shown.1) shown.2))
      fun f _ => f.IsOverflow := by
  unfold pass
  refine ends_bind (ends_present hcall hw hn hp hm hsize hc hh hv hslot) ?_
  rintro ⟨a, made⟩ v ⟨hgains, hrenders⟩
  cases byRef with
  | false => exact ⟨hgains, fun _ => hrenders⟩
  | true =>
    refine ends_bind (Q := fun _ u => w.Gains u) ?_ fun _ u hu => ?_
    · exact hgains.trans (.of_same rfl rfl ⟨_, _, _, rfl⟩)
    · cases m.isReference <;> exact ⟨hu, nofun⟩

end Marshaller

namespace Redirection

open Act

variable {call : Invoker σ} {w u v : World σ} {n block scratch : Nat} {ps : List Property}
  {params : List Parameter} {src : Nat → Value} {args before after : List LinkedArg}
  {a : LinkedArg} {param : Parameter} {pointers : List Address} {ss : List StagedArg}

/-- The arguments `args` of a call are still to be staged: each parameter that one of them is for holds
what was supplied for it, a value of the host where it is passed by value. -/
structure Ready (ps : List Property) (block scratch : Nat) (params : List Parameter)
    (src : Nat → Value) (args : List LinkedArg) (w : World σ) : Prop where
  laid : Laid block scratch params w.state
  presents : w.Presents ps
  numbered : w.state.heap.Numbered
  apart : args.Pairwise fun a b =>
    a.param ≠ b.param ∧ a.scratchOffset + a.marshaller.slotSize ≤ b.scratchOffset
  each : ∀ a ∈ args, ∃ param, params[a.param]? = some param ∧ param.property ∈ ps ∧
    Marshaller.ofTag param.property.kind.tag = some a.marshaller ∧
    param.property.size = param.property.kind.hostLayout.size ∧
    w.state.Holds param.property param.place (.loaded param.property (src a.param)) ∧
    (a.byRef = false → w.IsValue param.property (src a.param))

namespace Ready

theorem bound (h : Ready ps block scratch params src args w) :
    ∀ a ∈ args, a.param < params.length := by
  intro a ha
  obtain ⟨param, hparam, -⟩ := h.each a ha
  exact (List.getElem?_eq_some_iff.1 hparam).1

theorem left (h : Ready ps block scratch params src (before ++ after) w) :
    Ready ps block scratch params src before w :=
  ⟨h.laid, h.presents, h.numbered, (List.pairwise_append.1 h.apart).1,
    fun a ha => h.each a (List.mem_append_left _ ha)⟩

theorem staged (h : Ready ps block scratch params src args w)
    (hs : Stages (guarded n block scratch) params scratch args w pointers ss v) :
    Staged (guarded n block scratch) block scratch params src args w pointers v := by
  refine hs.staged h.laid h.bound h.apart fun a ha param hparam => ?_
  obtain ⟨param', hparam', -, -, -, hholds, -⟩ := h.each a ha
  cases hparam.symm.trans hparam'
  exact hholds

/-- After some of the arguments the others can be staged. -/
theorem rest (h : Ready ps block scratch params src (before ++ after) w)
    (hs : Stages (guarded n block scratch) params scratch before w pointers ss v)
    (hg : w.Gains v) : Ready ps block scratch params src after v := by
  have hstaged := h.left.staged hs
  obtain ⟨-, hapart, hcross⟩ := List.pairwise_append.1 h.apart
  refine ⟨hstaged.laid, hg.presents h.presents, hg.numbered h.numbered, hapart, fun a ha => ?_⟩
  obtain ⟨param, hparam, hp, hm, hsize, hholds, hvalue⟩ := h.each a (List.mem_append_right _ ha)
  refine ⟨param, hparam, hp, hm, hsize, ?_, fun hby => hg.isValue (hvalue hby)⟩
  exact hstaged.others hparam (fun b hb => (hcross b hb a ha).1) hholds

/-- Staging an argument only fails if a counter overflows. -/
theorem ends_stage (h : Ready ps block scratch params src (a :: args) w)
    (hparam : params[a.param]? = some param) :
    Ends (a.marshaller.stage param.property param.place ⟨scratch, a.scratchOffset⟩ a.byRef
        (guarded (n + 1) block scratch) w)
      (fun shown u => w.Gains u ∧ (a.byRef = false →
        a.marshaller.Renders u.state param.property (src a.param)
          (a.marshaller.handed param.property u.state shown.1) shown.2))
      fun f _ => f.IsOverflow := by
  obtain ⟨param', hparam', hp, hm, hsize, hholds, hvalue⟩ := h.each a List.mem_cons_self
  cases hparam.symm.trans hparam'
  have hmem := List.mem_of_getElem? hparam
  have hcall : (guarded (n + 1) block scratch : Invoker σ).Performs n := Invoker.performs_guard n _
  let slot : Slot := ⟨scratch, a.scratchOffset⟩
  obtain ⟨c, o, hplace, -, hlt⟩ := h.laid.cell hmem
  unfold Marshaller.stage
  cases hby : a.byRef with
  | false =>
    rw [hplace] at hholds ⊢
    have hslot : w.state.Writable slot.staging := h.laid.scratch
    exact Marshaller.ends_pass hcall h.presents h.numbered hp hm hsize
      (Nat.lt_trans hlt h.laid.below) hholds (hvalue hby) hslot false
  -- An output is reset to the default of its property before it is passed.
  | true =>
    obtain ⟨hdefault, c', o', hplace', hne, htouch⟩ := h.laid.resetAt hmem hholds
    let u : World σ := { w with state := w.state.resetAt param.property param.place }
    have hu : w.Gains u := by
      show w.Gains { w with state := w.state.storeAt param.place _ }
      rw [hplace]
      exact .of_same rfl rfl ⟨_, _, _, rfl⟩
    have hnext : u.state.memory.next = w.state.memory.next :=
      (State.frameCells_storeAt w.state param.place
        ((w.state.valueAt param.place).reset param.property)).2
    have hL : Laid block scratch params u.state := h.laid.touches htouch (Nat.le_of_eq hnext.symm)
    have hslot : u.state.Writable slot.staging := hL.scratch
    have hdefault : u.state.Holds param.property param.place
        (.loaded param.property (.default param.property)) := hdefault.of_default
    refine ends_bind (Q := fun _ v => v = u) rfl ?_
    rintro _ _ rfl
    rw [hplace] at hdefault ⊢
    refine (Marshaller.ends_pass hcall (hu.presents h.presents) (hu.numbered h.numbered) hp hm hsize
      (Nat.lt_trans hlt hL.below) hdefault (u.isValue_default _) hslot true).mono ?_
      fun _ _ hf => hf
    exact fun _ _ hx => ⟨hu.trans hx.1, nofun⟩

/-- Staging the arguments only fails if a counter overflows. -/
theorem ends_stageArgs (h : Ready ps block scratch params src args w) :
    Ends (stageArgs params scratch args (guarded (n + 1) block scratch) w) (fun _ v => w.Gains v)
      fun f _ => f.IsOverflow := by
  induction args generalizing w with
  | nil => exact World.Gains.refl w
  -- What was made for the first argument is rooted, and the rest is ready with it.
  | cons a args ih =>
    obtain ⟨param, hparam, -⟩ := h.each a List.mem_cons_self
    have hone := h.ends_stage (n := n) hparam
    unfold stageArgs
    rw [hparam]
    dsimp only
    cases hstage : a.marshaller.stage param.property param.place ⟨scratch, a.scratchOffset⟩ a.byRef
      (guarded (n + 1) block scratch) w with
    | error f v =>
      rw [hstage] at hone
      rw [bind_of_error hstage]
      exact hone
    | ok shown u =>
      rw [hstage] at hone
      obtain ⟨pointer, made⟩ := shown
      have hgains : w.Gains (rooted made u) := hone.1.trans (.rooted u made)
      have hsplit : Ready ps block scratch params src ([a] ++ args) w := h
      have hrest := ih (hsplit.rest (.cons hparam hstage .nil) hgains)
      have hmore : Ends ((stageArgs params scratch args >>= fun more =>
          pure (pointer :: more.1, (⟨a, ⟨scratch, a.scratchOffset⟩⟩ : StagedArg) :: more.2) : Act σ _)
            (guarded (n + 1) block scratch) (rooted made u)) (fun _ v => w.Gains v)
            fun f _ => f.IsOverflow :=
        ends_bind hrest fun _ _ hv => hgains.trans hv
      rw [bind_of_ok hstage]
      cases made <;> exact hmore

end Ready

/-- Finding the receiver only fails if a counter overflows. -/
theorem ends_receiverOf {function : Function} {target : Option Address} (hcall : call.Performs n)
    (hw : w.Presents ps) (hn : w.state.heap.Numbered)
    (htarget : ∀ a, target = some a → function.flags.static = true ∨ w.Connects a) :
    Ends (receiverOf function target call w) (fun _ v => w.Gains v) fun f _ => f.IsOverflow := by
  unfold receiverOf
  cases target with
  | none => exact World.Gains.refl w
  | some a =>
    dsimp only
    split
    · exact World.Gains.refl w
    · rename_i hstatic
      have hfound := Identity.ends_proxyFor hcall hw hn ((htarget a rfl).resolve_left hstatic)
      rw [map_eq_pure_bind]
      exact ends_bind hfound fun _ _ hv => hv.1

/-- What comes before the method only fails if a counter overflows. -/
theorem Ready.ends_prepare {function : Function} {l : Linkage} {target : Option Address}
    (h : Ready ps block w.state.memory.next params src l.args
      { w with state := (w.state.frameCell (.plain [])).2 })
    (htarget : ∀ a, target = some a → function.flags.static = true ∨ w.Connects a) :
    Ends (prepare function l target params (guarded (n + 1) block w.state.memory.next) w)
      (fun _ _ => True) fun f _ => f.IsOverflow := by
  let u : World σ := { w with state := (w.state.frameCell (.plain [])).2 }
  have hu : w.Gains u := .of_same rfl rfl ⟨_, _, _, rfl⟩
  unfold prepare
  refine ends_bind (Q := fun scratch v => scratch = w.state.memory.next ∧ v = u) ⟨rfl, rfl⟩ ?_
  rintro _ _ ⟨rfl, rfl⟩
  refine ends_bind h.ends_stageArgs ?_
  rintro ⟨pointers, ss⟩ v hv
  refine ends_bind (ends_receiverOf (Invoker.performs_guard n _) (hv.presents h.presents)
    (hv.numbered h.numbered) fun a ha => ?_) fun _ _ _ => trivial
  exact (htarget a ha).imp_right fun hc => hv.connects (hu.connects hc)

end Redirection

/-! ## What was passed stays -/

theorem State.nativeBehind_eq {s : State} {q host : Address} (h : host ≠ .null) :
    s.nativeBehind q = host ↔ s.heap.nativeOf q = some host := by
  unfold nativeBehind Address.nonNull
  constructor
  · intro hq
    split at hq
    · exact absurd hq.symm h
    · cases hnative : s.heap.nativeOf q with
      | none =>
        rw [Option.bind_some, hnative] at hq
        exact absurd hq.symm h
      | some a =>
        rw [Option.bind_some, hnative] at hq
        exact congrArg some hq
  · intro hq
    have hne : q ≠ .null := by
      rintro rfl
      cases hq
    rw [if_neg hne, Option.bind_some, hq]
    rfl

namespace Marshaller

variable {m : Marshaller} {p : Property} {s s' : State} {src : Value} {fv : ForeignValue}
  {made : Option Address}

/-- A foreign value still stands for the host value where the object that was made for it is the same,
and a proxy stands for the same host object. -/
theorem Renders.of_objects (h : m.Renders s p src fv made)
    (hmade : m ≠ .struct → ∀ i object, made = some (.foreign i) →
      s.heap.objects.get? i = some object → object.isFixed = true →
      s'.heap.objects.get? i = some object)
    (hnative : m = .object → ∀ q a, fv = .object q → a ≠ .null → s.heap.nativeOf q = some a →
      s'.heap.nativeOf q = some a) :
    m.Renders s' p src fv made := by
  cases h with
  | flag hkind hos => exact .flag hkind hos
  | plain hm => exact .plain hm
  | name hn hsrc => exact .name hn hsrc
  | text hsrc hi => exact .text hsrc (hmade nofun _ _ rfl hi rfl)
  | string hsrc hi => exact .string hsrc (hmade nofun _ _ rfl hi rfl)
  | null hsrc => exact .null hsrc
  | object ha hsrc hq => exact .object ha hsrc (hnative rfl _ _ rfl ha hq)
  | classRef => exact .classRef
  | struct => exact .struct
  | softReference hsrc hi => exact .softReference hsrc (hmade nofun _ _ rfl hi rfl)
  | collection hsrc hi => exact .collection hsrc (hmade nofun _ _ rfl hi rfl)

theorem Renders.of_gains {w v : World σ} (h : m.Renders w.state p src fv made)
    (hn : w.state.heap.Numbered) (hg : w.Gains v) : m.Renders v.state p src fv made :=
  h.of_objects (fun _ _ _ _ hi _ => hg.get? hn hi) fun _ _ _ _ _ hq => hg.nativeOf hn hq

/-- What was made for a value that no box was made for is alive. -/
theorem Renders.alive {a : Address} (h : m.Renders s p src fv (some a)) (hm : m ≠ .struct) :
    s.heap.isAlive a = true := by
  cases h with
  | struct => exact absurd rfl hm
  | text _ hi | string _ hi | softReference _ hi | collection _ hi =>
    exact Option.isSome_iff_exists.2 ⟨_, hi⟩

end Marshaller

namespace Redirection

open Act

variable {call call' : Invoker σ} {w u v x : World σ} {n block scratch : Nat} {ps : List Property}
  {params : List Parameter} {src : Nat → Value} {args after : List LinkedArg} {a : LinkedArg}
  {param : Parameter} {pointer : Address} {pointers : List Address} {ss : List StagedArg}
  {made : Option Address}

/-- What was passed by value is as it was, when what came after it has left its places alone. -/
theorem handed_eq (hm : Marshaller.ofTag param.property.kind.tag = some a.marshaller)
    (hsize : param.property.size = param.property.kind.hostLayout.size)
    (hpresents : a.marshaller.isReference = false →
      a.marshaller.Presents param.place ⟨scratch, a.scratchOffset⟩ u.state pointer made)
    {c o : Nat} (hplace : param.place = .cell c o) {value : Value}
    (hu : u.state.Holds param.property param.place value)
    (hv : v.state.Holds param.property param.place value)
    (hregion : ∀ k, a.scratchOffset ≤ k → k < a.scratchOffset + a.marshaller.slotSize →
      (v.state.memory.get scratch).octetAt k = (u.state.memory.get scratch).octetAt k)
    (hn : u.state.heap.Numbered) (hg : u.Gains v) :
    a.marshaller.handed param.property v.state pointer =
      a.marshaller.handed param.property u.state pointer := by
  unfold Marshaller.handed
  -- Data is read through its pointer, so the octets that it leads to must be the same.
  cases href : a.marshaller.isReference with
  | true => rfl
  | false =>
    refine congrArg ForeignValue.data ?_
    cases hpresents href with
    -- It leads to the place of the parameter,
    | host hb =>
      have hin := Marshaller.inBlock_of_tag hm hb
      have hreads := (Marshaller.fits_of_layout hm hsize hin).1
      rw [hplace] at hu hv ⊢
      rw [hu.readAt hin hreads, hv.readAt hin hreads]
    -- or to the second half of its own slot,
    | staging hb =>
      have hreads : a.marshaller.reads param.property = 8 := by
        obtain hb | hb | hb := hb <;> rw [hb] <;> rfl
      have hbytes : a.marshaller.slotSize = 16 := by
        obtain hb | hb | hb := hb <;> rw [hb] <;> rfl
      rw [hreads]
      refine Value.read_eq_iff.2 fun k hk => ?_
      rw [Value.octetAt_skip, Value.octetAt_skip]
      have haddress : addressSize = 8 := rfl
      exact hregion (a.scratchOffset + addressSize + k) (by omega) (by omega)
    -- or into a box, and boxes are not written to.
    | @payload i _ halive =>
      obtain ⟨object, hi⟩ := Option.isSome_iff_exists.1 halive
      have hi : u.state.heap.objects.get? i = some object := hi
      unfold State.readAt
      dsimp only
      rw [hi, hg.get? hn hi]

/-- An argument that was passed by value is still what stands for the value that was supplied, when
all others have been staged and foreign code has left the cells of the call alone. -/
theorem Ready.renders (h : Ready ps block scratch params src (a :: after) w)
    (hparam : params[a.param]? = some param) (hby : a.byRef = false)
    (hstage : a.marshaller.stage param.property param.place ⟨scratch, a.scratchOffset⟩ a.byRef
      (guarded (n + 1) block scratch) w = .ok (pointer, made) u)
    (hafter : Stages (guarded (n + 1) block scratch) params scratch after (rooted made u) pointers ss x)
    (hk : x.state.Keeps (Own block scratch) v.state) (hgrows : x.state.Grows v.state)
    (hg : x.Gains v) :
    a.marshaller.Renders v.state param.property (src a.param)
      (a.marshaller.handed param.property v.state pointer) made := by
  obtain ⟨param', hparam', -, hm, hsize, -, -⟩ := h.each a List.mem_cons_self
  cases hparam.symm.trans hparam'
  have hone : Stages (guarded (n + 1) block scratch) params scratch [a] w [pointer] _
      (rooted made u) := .cons hparam hstage .nil
  -- Right after it was staged it renders the value; from there on nothing changes of it.
  obtain ⟨hwu, hrenders⟩ := (ends_iff.1 (h.ends_stage hparam)).1 _ _ hstage
  have hroot : u.Gains (rooted made u) := .rooted u made
  have hsplit : Ready ps block scratch params src ([a] ++ after) w := h
  have hready := hsplit.rest hone (hwu.trans hroot)
  have hstaged := (hready.staged hafter).after hk hgrows
  have hux := hroot.trans ((ends_iff.1 hready.ends_stageArgs).1 _ _ hafter.stageArgs_eq)
  have huv := hux.trans hg
  have hn := hwu.numbered h.numbered
  have hmemory := memory_rooted made u
  -- The places of the argument right after it was staged.
  obtain ⟨_, _, _, hparam', -, hheld, -⟩ := (hsplit.left.staged hone).passed (j := 0) rfl rfl
  cases hparam.symm.trans hparam'
  rw [hby] at hheld
  have hothers := hstaged.others hparam
    (fun b hb => Ne.symm ((List.pairwise_cons.1 h.apart).1 b hb).1) hheld
  obtain ⟨c, o, hplace, -⟩ := h.laid.cell (List.mem_of_getElem? hparam)
  have hheld' : u.state.Holds param.property param.place
      (.entering false param.property (src a.param)) := by
    unfold State.Holds State.readAt State.valueAt at hheld ⊢
    rw [hplace] at hheld ⊢
    dsimp only at hheld ⊢
    rwa [hmemory] at hheld
  have hpass : a.marshaller.pass param.property param.place ⟨scratch, a.scratchOffset⟩ false
      (guarded (n + 1) block scratch) w = .ok (pointer, made) u := by
    rw [hby] at hstage
    exact hstage
  obtain ⟨_, _, hpresent, hpure⟩ := Act.ok_of_bind hpass
  cases hpure
  rw [handed_eq hm hsize (Marshaller.presents_of_present hpresent) hplace hheld' hothers
    (fun k hlo hhi => ?_) hn huv]
  · exact (hrenders hby).of_gains hn huv
  · refine (hstaged.beside k fun b hb => .inl ?_).trans (by rw [hmemory])
    exact Nat.lt_of_lt_of_le hhi ((List.pairwise_cons.1 h.apart).1 b hb).2

/-! ## Until the method has answered -/

/-- Loading parameters takes place outside of the foreign heap. -/
theorem gains_of_loadParams {qs : List Property} {stack : ArgStack} {E : Failure → World σ → Prop}
    (hE : ∀ f v, E f v) :
    Ends (loadParams block qs stack call w) (fun _ v => w.Gains v) E := by
  induction qs generalizing stack w with
  | nil => exact World.Gains.refl w
  | cons p qs ih =>
    have hplace : Ends (paramPlace block p call w) (fun _ v => w.Gains v) E := by
      unfold paramPlace
      cases p.kind.storage with
      | plain | flag => exact World.Gains.refl w
      | _ => exact World.Gains.of_same rfl rfl ⟨_, _, _, rfl⟩
    unfold loadParams
    refine ends_bind hplace fun place u hu => ?_
    cases p.isReturn with
    | true => exact ends_bind ih fun _ _ hv => hu.trans hv
    | false =>
      have hnext : Ends ((ofPanic (stack.next p) : Act σ _) call u) (fun _ v => v = u) E := by
        cases stack.next p with
        | ok next => exact rfl
        | error e => exact hE _ _
      refine ends_bind hnext ?_
      rintro ⟨b, stack'⟩ u rfl
      -- What the caller supplied is copied to the place, in a cell of the call.
      have hassign : u.Gains { u with state := u.state.assignAt p place (.ofCell b.cell) } := by
        unfold State.assignAt
        cases place with
        | cell => exact .of_same rfl rfl ⟨_, _, _, rfl⟩
        | _ => exact .refl u
      refine ends_bind (Q := fun _ v => w.Gains v) (hu.trans hassign) fun _ x hx => ?_
      exact ends_bind ih fun _ _ hv => hx.trans hv

/-- What was staged is staged also where calls may nest deeper. -/
theorem stage_deeper (hc : call.Grows) (ho : call'.Until .exhausted call) {shown : Address × Option Address}
    (h : a.marshaller.stage param.property param.place ⟨scratch, a.scratchOffset⟩ a.byRef call' w =
      .ok shown v) :
    a.marshaller.stage param.property param.place ⟨scratch, a.scratchOffset⟩ a.byRef call w =
      .ok shown v := by
  have hstage : (a.marshaller.stage param.property param.place ⟨scratch, a.scratchOffset⟩ a.byRef :
      Act σ _).Obeys (.free call hc) .plain [] w :=
    Marshaller.stage_obeys (Identity.makesProxies fun _ => trivial) _ _ trivial trivial trivial _
  exact (hstage List.nil_suffix trivial trivial trivial).strict.ok Failure.isFatal_exhausted ho h

theorem Stages.deeper (hc : call.Grows) (ho : call'.Until .exhausted call)
    (h : Stages call' params scratch args w pointers ss v) :
    Stages call params scratch args w pointers ss v := by
  induction h with
  | nil => exact .nil
  | skip hparam _ ih => exact .skip hparam ih
  | cons hparam hstage _ ih => exact .cons hparam (stage_deeper hc ho hstage) ih

section Loaded

variable {key : Redirector.Key} {r : Redirector} {stack rest : ArgStack} {l : Linkage} {m j : Nat}
  {target receiver : Option Address} {o : List Owed}

/-- A call that has loaded its parameters finds the foreign heap as it was. -/
theorem Loads.gains (h : Loads call key r stack w l m params rest u) : w.Gains u := by
  obtain ⟨v, hlinked, hload⟩ := h
  have hv : w.Gains v := by
    obtain ⟨⟨_, _, _, rfl⟩, -⟩ := linked_cases hlinked
    exact .of_same rfl rfl ⟨_, _, _, rfl⟩
  have hcheck {x : World σ} (hx : w.Gains x) (size align : Nat) :
      Ends (checkFrame size align call x) (fun _ y => w.Gains y) fun _ _ => True := by
    unfold checkFrame
    cases Frame.make size align with
    | ok => exact hx
    | error e => cases e <;> exact trivial
  -- The steps of loading, one by one.
  have hends : Ends (load key r l stack call { v with state := v.state.enter key })
      (fun _ y => w.Gains y) fun _ _ => True := by
    unfold load
    refine ends_bind (Q := fun _ y => w.Gains y) (hv.trans (.of_same rfl rfl ⟨_, _, _, rfl⟩))
      fun _ x hx => ?_
    refine ends_bind (Q := fun _ y => w.Gains y) (hx.trans (.of_same rfl rfl ⟨_, _, _, rfl⟩))
      fun _ x hx => ?_
    refine ends_bind ((Identity.ends_counted _ _).mono (fun _ _ h => hx.trans h) fun _ _ _ => trivial)
      fun _ x hx => ?_
    refine ends_bind (hcheck hx _ _) fun _ x hx => ?_
    refine ends_bind (hcheck hx _ _) fun _ x hx => ?_
    refine ends_bind (Q := fun _ y => w.Gains y) (hx.trans (.of_same rfl rfl ⟨_, _, _, rfl⟩))
      fun _ x hx => ?_
    exact (gains_of_loadParams fun _ _ => trivial).mono (fun _ _ h => hx.trans h) fun _ _ h => h
  exact (ends_iff.1 hends).1 _ _ hload

/-- A call that has loaded its parameters from values of the host is ready to stage its arguments. -/
theorem Loads.ready {registry : Registry} (h : Loads call key r stack w l m params rest u)
    (halign : isPowerOfTwo (max r.function.block.align 1) = true)
    (hlength : stack.cursor + r.function.params.countP (fun p => !p.isReturn) ≤ stack.args.length)
    (hapart : r.function.Apart) (hcells : ∀ a ∈ stack.args, a.cell < w.state.memory.next)
    (hmatches : Linkage.Matches registry r.function r.method.args l) (hregistry : registry.Proper)
    (hlaid : r.function.LaidOut) (hw : w.Presents r.function.params) (hn : w.state.heap.Numbered)
    (hvalues : ∀ a ∈ l.args, a.byRef = false → ∀ p, r.function.params[a.param]? = some p →
      w.IsValue p (supplied r.function.params stack w.state a.param)) :
    Ready r.function.params w.state.memory.next u.state.memory.next params
      (supplied r.function.params stack w.state) l.args
      { u with state := (u.state.frameCell (.plain [])).2 } := by
  have hgains : w.Gains { u with state := (u.state.frameCell (.plain [])).2 } :=
    h.gains.trans (.of_same rfl rfl ⟨_, _, _, rfl⟩)
  obtain ⟨hL, hheld⟩ := h.supplies halign hlength hapart hcells hmatches
  refine ⟨hL, hgains.presents hw, hgains.numbered hn, hmatches.apart, fun a ha => ?_⟩
  obtain ⟨param, hparam, hp, hholds⟩ := hheld a ha
  obtain ⟨arg, hbinds⟩ := hmatches.exists_binds ha
  obtain ⟨p, hp', -, hresolve⟩ := hbinds.property
  cases hp.symm.trans hp'
  exact ⟨param, hparam, List.mem_of_getElem? hp, hregistry.ofTag_of_resolve hresolve,
    (hlaid _ (List.mem_of_getElem? hp)).1, hholds, fun hby => hgains.isValue (hvalues a ha hby _ hp)⟩

/-- A fixed object that was made for an argument is the same when the method has answered. -/
theorem Loads.made_same {turn y v' : World σ} {before after : List LinkedArg} {front back : List Address}
    {ss₁ ss₂ : List StagedArg} {i : Nat} {object : Managed}
    {answer : Except ForeignException (Option Address)}
    (h : Loads (callAt n) key r stack w l m params rest u)
    (hr : w.state.redirector? key = some r) (hw : w.Tallied o) (hargs : l.args = before ++ a :: after)
    (hbefore : Stages (callAt n) params u.state.memory.next before
      { u with state := (u.state.frameCell (.plain [])).2 } front ss₁ turn)
    (hparam : params[a.param]? = some param)
    (hstage : a.marshaller.stage param.property param.place ⟨u.state.memory.next, a.scratchOffset⟩
      a.byRef (callAt n) turn = .ok (pointer, some (.foreign i)) y)
    (hobject : y.state.heap.objects.get? i = some object) (hfixed : object.isFixed = true)
    (hafter : Stages (callAt n) params u.state.memory.next after (rooted (some (.foreign i)) y) back ss₂
      x)
    (hreceiver : receiverOf r.function target (callAt n) x = .ok receiver v)
    (hcall : callAt n m ⟨receiver, front ++ pointer :: back⟩ v = .ok answer v') :
    v'.state.heap.objects.get? i = some object := by
  have halive : y.state.heap.isAlive (.foreign i) = true :=
    Option.isSome_iff_exists.2 ⟨object, hobject⟩
  obtain ⟨new, hnew⟩ := Option.isSome_iff_exists.1
    (h.made_alive hr hw hargs hbefore hparam hstage halive hafter hreceiver hcall)
  have hnew : v'.state.heap.objects.get? i = some new := hnew
  -- The object is rooted by the call, so it lasts; and what is fixed does not change while it lasts.
  let s : StagedObject (callAt n) key r stack w := ⟨l, m, params, rest, u, h, before, a, after, hargs,
    front, ss₁, turn, hbefore, param, hparam, pointer, .foreign i, y, hstage⟩
  obtain ⟨hpinned, hlinked⟩ := s.pinned hr hw halive
  let R : Realm σ := recallRealm s.held.state.heap
  have hbetween : s.Between target v' := .answered hafter hreceiver (by
    rw [List.append_assoc]
    exact hcall)
  have hrecalls : (R.law (R.respected n)).holds (.frame key :: o) v' :=
    Between.holds hbetween (Identity.makesProxies fun _ => trivial) (fun _ => trivial)
      (fun _ _ => trivial) hlinked List.nil_suffix trivial (.refl s.held.state.heap)
  have hheld : s.held.state.heap.objects.get? i = some object := by
    show (y.state.root (.foreign i)).heap.objects.get? i = _
    unfold State.root
    split
    · exact hobject
    · exact (congrArg (·.get? i) (Heap.objects_make y.state.heap (.foreign i) .strong).1).trans hobject
  have hlt := hpinned.tallied.balanced.numbered.below i (Table.mem_keys_of_get? hheld)
  obtain ⟨old, hold, -, hsame⟩ := hrecalls.object i hlt new hnew
  cases hheld.symm.trans hold
  rw [hnew, hsame hfixed]

/-- When the method is called, an argument that is passed by value stands for the value that was
supplied. So it does when the method has answered, if it leaves the proxy of an object connected. -/
theorem Loads.renders (h : Loads (callAt (n + 1)) key r stack w l m params rest u)
    (hr : w.state.redirector? key = some r) (hw : w.Tallied o)
    (hready : Ready ps block u.state.memory.next params src l.args
      { u with state := (u.state.frameCell (.plain [])).2 })
    (htarget : ∀ a, target = some a → r.function.flags.static = true ∨ u.Connects a)
    (hprepare : prepare r.function l target params (guarded (n + 1) block u.state.memory.next) u =
      .ok (pointers, ss, receiver) v)
    (ha : l.args[j]? = some a) (hby : a.byRef = false) (hparam : params[a.param]? = some param)
    (hpointer : pointers[j]? = some pointer) :
    ∃ made, a.marshaller.Renders v.state param.property (src a.param)
        (a.marshaller.handed param.property v.state pointer) made ∧
      ∀ answer v', callAt (n + 1) m ⟨receiver, pointers⟩ v = .ok answer v' →
        (a.marshaller = .object → v'.state.nativeBehind pointer = v.state.nativeBehind pointer) →
        a.marshaller.Renders v'.state param.property (src a.param)
          (a.marshaller.handed param.property v.state pointer) made := by
  obtain ⟨x, hstages, hreceiver⟩ := stages_of_prepare hprepare
  obtain ⟨front, after, before, ss₁, turn, made, y, behind, ss₂, hargs, hbefore, hstage, hafter, rfl⟩ :=
    hstages.split_at hready.bound ha hparam hpointer
  -- Staging and finding the receiver only add to the foreign heap.
  have hux := (ends_iff.1 hready.ends_stageArgs).1 _ _ hstages.stageArgs_eq
  have hframe : u.Gains { u with state := (u.state.frameCell (.plain [])).2 } :=
    .of_same rfl rfl ⟨_, _, _, rfl⟩
  have hxv := (ends_iff.1 (ends_receiverOf (Invoker.performs_guard n _) (hux.presents hready.presents)
    (hux.numbered hready.numbered) fun a ha =>
      (htarget a ha).imp_right fun hc => hux.connects (hframe.connects hc))).1 _ _ hreceiver
  obtain ⟨hkeeps, hgrows⟩ := keeps_of_receiverOf (hready.staged hstages).laid hreceiver
  rw [hargs] at hready
  have hturn := hready.rest hbefore
    ((ends_iff.1 hready.left.ends_stageArgs).1 _ _ hbefore.stageArgs_eq)
  have hrenders := hturn.renders hparam hby hstage hafter hkeeps hgrows hxv
  refine ⟨made, hrenders, fun answer v' hcall hnative => ?_⟩
  refine hrenders.of_objects (fun hstruct i object hmade hi hfixed => ?_)
    fun hobject q b hq hb hnat => ?_
  -- A box that was made is the same at the end, as it is fixed.
  · subst hmade
    obtain ⟨hty, hmade⟩ := (ends_iff.1 (hturn.ends_stage hparam)).1 _ _ hstage
    have hroot := World.Gains.rooted y (some (.foreign i))
    have hyv : y.Gains v := by
      have hsplit : Ready ps block u.state.memory.next params src
          ([a] ++ after) turn := hturn
      have hrest := hsplit.rest (.cons hparam hstage .nil) (hty.trans hroot)
      exact hroot.trans (((ends_iff.1 hrest.ends_stageArgs).1 _ _ hafter.stageArgs_eq).trans hxv)
    obtain ⟨old, hold⟩ := Option.isSome_iff_exists.1 ((hmade hby).alive hstruct)
    have hold : y.state.heap.objects.get? i = some old := hold
    cases hi.symm.trans (hyv.get? (hty.numbered hturn.numbered) hold)
    -- The same happens where calls are not guarded.
    have hc : (callAt (n + 1) : Invoker σ).Grows := callAt_grows (n + 1)
    have huntil : Invoker.Until (guarded (n + 1) block u.state.memory.next) .exhausted
        (callAt (n + 1) : Invoker σ) := Invoker.guard_until _ _
    have hreceives : (receiverOf r.function target : Act σ _).Obeys (.free _ hc) .plain [] x :=
      receiverOf_obeys (Identity.makesProxies fun _ => trivial) _ _
    have hreceived := (hreceives List.nil_suffix trivial trivial trivial).strict.ok
      Failure.isFatal_exhausted huntil hreceiver
    exact h.made_same hr hw hargs (hbefore.deeper hc huntil) hparam (stage_deeper hc huntil hstage)
      hold hfixed (hafter.deeper hc huntil) hreceived hcall
  · unfold Marshaller.handed at hq
    rw [hobject] at hq
    cases hq
    rw [← State.nativeBehind_eq hb] at hnat ⊢
    exact (hnative hobject).trans hnat

end Loaded

end Redirection

end TwinHeap
