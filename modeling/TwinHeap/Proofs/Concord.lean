import TwinHeap.Proofs.Echo
import TwinHeap.Proofs.Silence

/-!
# Concord — calls whose outputs held different values end alike

Once its method has returned, a call copies what was left for its outputs to the storage of the caller,
whatever that held. Both of two calls that go alike deliver the same to it (`writeBack_follows`,
`pour`), so they leave the same there, apart from bits beside those of packed bools.
-/

namespace TwinHeap

open Act

variable {σ α : Type}

/-! ## Copying values back -/

section Copying

variable {K : Nat → Prop} {V : Veil} {s s' : State} {w w' u u' : World σ} {call call' : Invoker σ}
  {c o n : Nat} {ps : List Property} {p : Property} {foreign : Address}

/-- Different octets may be written to a cell of `K`. -/
theorem State.Alike.writeOver {os os' : List Octet} (h : s.Alike (.upon K) s')
    (hos : K c ∨ os = os') :
    (s.writeAt (.cell c o) os).Alike (.upon K) (s'.writeAt (.cell c o) os') := by
  obtain hc | rfl := hos
  · exact h.modify (fun _ _ _ _ hv => hv) (fun _ _ _ _ _ => .inl hc) fun _ _ _ hv => hv
  · exact h.writeAt (fun _ _ _ => Veil.upon_admits K _) os

/-- What does not lie in a cell of `K` reads the same. -/
theorem State.Alike.readOutside (h : s.Alike (.upon K) s')
    (ha : ∀ c o, foreign = .cell c o → ¬K c) (n : Nat) : s'.readAt foreign n = s.readAt foreign n :=
  h.readAt (fun c o hc => Veil.upon_shows (ha c o hc)) n

namespace State.Alike

variable (h : s.Alike V s')
include h

theorem bridge : s'.bridge = s.bridge := by
  obtain ⟨_, -, -⟩ := h
  rfl

theorem heap : s'.heap = s.heap := by
  obtain ⟨_, -, -⟩ := h
  rfl

end State.Alike

namespace World.Alike

variable (h : w.Alike V w')
include h

theorem bodies : w'.bodies = w.bodies := by
  obtain ⟨_⟩ := h
  rfl

theorem lend (v : Value) : (w.lend v).Alike V (w'.lend v) := h.withState (h.state.allot v).2

theorem countCall (m : Nat) : (w.countCall m).Alike V (w'.countCall m) :=
  h.withState (h.state.aside (f := (·.countCall m)) fun _ _ => ⟨rfl, rfl⟩)

/-- What values are written back with lies outside of storage. -/
theorem writesBack (hw : w.WritesBack ps) : w'.WritesBack ps := by
  obtain ⟨_, -, -⟩ := h
  exact ⟨hw.nativePtr, hw.collection, hw.softReference, hw.struct⟩

end World.Alike

/-- What is done with a lent cell is done with the next one. -/
theorem Act.withCell_eq (v : Value) (act : Address → Act σ α) (call : Invoker σ) (w : World σ) :
    withCell v act call w =
      ensuring (fun s => { s with memory := s.memory.discard w.state.memory.next })
        (act (.ofCell w.state.memory.next)) call (w.lend v) :=
  rfl

namespace Follows

/-- The same cell is lent in both. -/
theorem withCell {v : Value} {act : Address → Act σ α} (h : w.Alike V w')
    (hact : Follows V V (act (.ofCell w.state.memory.next) call (w.lend v))
      (act (.ofCell w.state.memory.next) call' (w'.lend v))) :
    Follows V V (Act.withCell v act call w) (Act.withCell v act call' w') := by
  rw [Act.withCell_eq, Act.withCell_eq, h.state.next]
  exact hact.ensuring (fun _ _ hs => hs.discard _) fun _ _ hs => hs.discard _

theorem withPointer {a : Address} {act : Address → Act σ α} (h : w.Alike V w')
    (hact : Follows V V (act (.ofCell w.state.memory.next) call (w.lend (.plain a.octets)))
      (act (.ofCell w.state.memory.next) call' (w'.lend (.plain a.octets)))) :
    Follows V V (Engine.withPointer a act call w) (Engine.withPointer a act call' w') :=
  withCell h hact

theorem ofPanic_bind {β : Type} {x : Except Panic α} {f : α → Act σ β} (h : w.Alike V w')
    (hf : ∀ a, x = .ok a → Follows V V (f a call w) (f a call' w')) :
    Follows V V ((ofPanic x >>= f) call w) ((ofPanic x >>= f) call' w') := by
  cases x with
  | ok a => exact hf a rfl
  | error p => exact .error h

theorem data_bind {f : Address → Act σ α} (h : w.Alike V w')
    (hf : Follows V V (f foreign call w) (f foreign call' w')) :
    Follows V V ((ofPanic (p.data foreign) >>= f) call w)
      ((ofPanic (p.data foreign) >>= f) call' w') := by
  refine ofPanic_bind h fun data hd => ?_
  obtain ⟨rfl, -⟩ := Property.data_eq_ok hd
  exact hf

/-- Both write the same octets, where what these are read from lies outside of `K`. -/
theorem writeAt {f : State → List Octet} (hf : ∀ s s' : State, s.Alike (.upon K) s' → f s' = f s)
    (h : w.Alike (.upon K) w') :
    Follows (.upon K) (.upon K) (edit (fun s => s.writeAt (.cell c o) (f s)) call w)
      (edit (fun s => s.writeAt (.cell c o) (f s)) call' w') := by
  refine .ok (h.withState ?_)
  dsimp only
  rw [hf _ _ h.state]
  exact h.state.writeAt (fun _ _ _ => Veil.upon_admits K _) _

theorem storeString {f : State → String} (hf : ∀ s s' : State, s.Alike (.upon K) s' → f s' = f s)
    (h : w.Alike (.upon K) w') :
    Follows (.upon K) (.upon K) (edit (fun s => s.storeAt (.cell c o) (.string (f s))) call w)
      (edit (fun s => s.storeAt (.cell c o) (.string (f s))) call' w') := by
  refine .ok (h.withState ?_)
  dsimp only
  rw [hf _ _ h.state]
  exact h.state.storeAt (fun _ _ _ => Veil.upon_admits K _) _

/-- Methods do what their bodies do; what they answer is ignored. -/
theorem discard_of_body {m : Nat} {receiver answer : Option Address} {args : List Address}
    {body : Invocation → Program σ} (hb : w.bodies[m]? = some body) (hb' : w'.bodies[m]? = some body)
    (hrun : (body ⟨receiver, args⟩).run (callAt n) (w.countCall m) = .ok (.ok answer) u)
    (hrun' : (body ⟨receiver, args⟩).run (callAt n) (w'.countCall m) = .ok (.ok answer) u')
    (hu : u.Alike V u') :
    Follows V V
      ((callMethod m receiver args >>= fun a => discard (ofForeign a) : Act σ Unit) (callAt (n + 1)) w)
      ((callMethod m receiver args >>= fun a => discard (ofForeign a) : Act σ Unit)
        (callAt (n + 1)) w') := by
  have hcall {w u : World σ} (hb : w.bodies[m]? = some body)
      (hrun : (body ⟨receiver, args⟩).run (callAt n) (w.countCall m) = .ok (.ok answer) u) :
      callMethod m receiver args (callAt (n + 1)) w = .ok (.ok answer) u := by
    show callAt (n + 1) m ⟨receiver, args⟩ w = _
    rw [callAt_succ, hb]
    exact hrun
  rw [bind_of_ok (hcall hb hrun), bind_of_ok (hcall hb' hrun')]
  exact .ok hu

end Follows

namespace Engine

/-- A collection is written to a container of the host alike. -/
theorem writeCollection_follows (hw : w.WritesBack ps) (h : w.Alike (.upon K) w') :
    Follows (.upon K) (.upon K)
      (writeCollection p (.cell c o) foreign.nonNull (callAt (n + 1)) w)
      (writeCollection p (.cell c o) foreign.nonNull (callAt (n + 1)) w') := by
  unfold writeCollection
  rw [Act.state_bind, Act.state_bind, h.state.bridge]
  refine .ofPanic_bind h fun ms hms => ?_
  have hu := h.lend (.plain Address.descriptor.octets)
  have hbody := hw.collection hms
  refine .withPointer h (.withPointer hu
    (.discard_of_body hbody (h.bodies ▸ hbody) run_writeCollection run_writeCollection ?_))
  have hplace := (w'.lend (.plain Address.descriptor.octets)).addressAt_lend c o ms.2
  rw [hu.state.next] at hplace
  rw [World.addressAt_lend, hplace]
  have hx := (hu.lend (.plain (Address.cell c o).octets)).countCall ms.2
  refine hx.withState ?_
  unfold State.contentsAt
  rw [hx.state.heap]
  exact hx.state.storeAt (fun _ _ _ => Veil.upon_admits K _) _

/-- A soft reference is written to a path of the host alike. -/
theorem writeSoftReference_follows (hw : w.WritesBack ps) (h : w.Alike (.upon K) w') :
    Follows (.upon K) (.upon K)
      (writeSoftReference p (.cell c o) foreign.nonNull (callAt (n + 1)) w)
      (writeSoftReference p (.cell c o) foreign.nonNull (callAt (n + 1)) w') := by
  unfold writeSoftReference
  rw [Act.state_bind, Act.state_bind, h.state.bridge]
  refine .ofPanic_bind h fun ms hms => ?_
  have hbody := hw.softReference hms
  refine .withPointer h
    (.discard_of_body hbody (h.bodies ▸ hbody) run_writeSoftReference run_writeSoftReference ?_)
  have hplace := w'.addressAt_lend c o ms.2
  rw [h.state.next] at hplace
  rw [World.addressAt_lend, hplace]
  have hx := (h.lend (.plain (Address.cell c o).octets)).countCall ms.2
  refine hx.withState ?_
  unfold State.pathAt
  rw [hx.state.heap]
  exact hx.state.storeAt (fun _ _ _ => Veil.upon_admits K _) _

/-- A struct is written to one of the host alike, if it lies outside of `K`. -/
theorem unboxStruct_follows {size : Nat} {f : StructFactory}
    (hbody : w.bodies[f.toNative]? = some fun inv => (Library.unboxStruct size inv).toProgram)
    (h : w.Alike (.upon K) w') (hdata : ∀ c o, foreign = .cell c o → ¬K c) :
    Follows (.upon K) (.upon K) (unboxStruct f (.cell c o) foreign (callAt (n + 1)) w)
      (unboxStruct f (.cell c o) foreign (callAt (n + 1)) w') := by
  have hu := h.lend (.plain (Address.cell c o).octets)
  have hx := (hu.lend (.plain (wordOctets 0))).countCall f.toNative
  have hrun' : Program.run _ (callAt n) _ = _ := run_unboxStruct_lent size f.toNative foreign
    (rfl : w'.lend (.plain (Address.cell c o).octets) = _) rfl
  rw [hu.state.next, h.state.next] at hrun'
  refine .withPointer h (.withCell hu (.discard_of_body hbody (h.bodies ▸ hbody)
    (run_unboxStruct_lent size f.toNative foreign rfl rfl) hrun' ?_))
  refine hx.withState ?_
  rw [hx.state.readOutside hdata]
  exact hx.state.writeAt (fun _ _ _ => Veil.upon_admits K _) _

end Engine

namespace Marshaller

/-- A value is copied to the host alike, if its data lies outside of `K`. -/
theorem toHost_follows (hw : w.WritesBack ps) (hp : p ∈ ps) (h : w.Alike (.upon K) w')
    (m : Marshaller) (hdata : m.isReference = false → ∀ c o, foreign = .cell c o → ¬K c) :
    Follows (.upon K) (.upon K) (m.toHost p (.cell c o) foreign (callAt (n + 1)) w)
      (m.toHost p (.cell c o) foreign (callAt (n + 1)) w') := by
  have hstring {s s' : State} (h : s.Alike (.upon K) s') (a : Address) :
      s'.stringAt a = s.stringAt a := congrArg (fun heap : Heap => heap.readString a) h.heap
  cases m with
  | bool =>
    refine .ofPanic_bind h fun mask _ => .data_bind h (.ok (h.withState ?_))
    dsimp only
    rw [h.state.readOutside (hdata rfl)]
    -- The bits beside the flag are kept, so in a cell of `K` what is written may differ.
    refine h.state.writeOver ?_
    by_cases hc : K c
    · exact .inl hc
    · rw [h.state.readOutside fun c' o' hc' => by cases hc'; exact hc]
      exact .inr rfl
  | scalar => exact .data_bind h (.writeAt (fun _ _ h => h.readOutside (hdata rfl) _) h)
  | enumeration =>
    refine .data_bind h (.ofPanic_bind h fun width _ => ?_)
    exact .writeAt (fun _ _ h => h.readOutside (hdata rfl) _) h
  | name =>
    refine .data_bind h (.writeAt (fun _ _ h => ?_) h)
    rw [h.readOutside (hdata rfl)]
  | text =>
    refine .data_bind h (.storeString (fun s s' h => ?_) h)
    have hword : s'.addressAt foreign = s.addressAt foreign :=
      congrArg Address.ofOctets (h.readOutside (hdata rfl) _)
    rw [hword, hstring h]
  | string => exact .storeString (fun _ _ h => hstring h _) h
  | object =>
    unfold toHost
    cases foreign.nonNull with
    | none => exact .writeAt (f := fun _ => Address.null.octets) (fun _ _ _ => rfl) h
    | some proxy =>
      -- Both worlds are asked for the object behind the proxy, which they know alike.
      have hask := Identity.hostOf_of_stock proxy hw.nativePtr n
      have hask' := Identity.hostOf_of_stock proxy (h.writesBack hw).nativePtr n
      rw [h.state.heap] at hask'
      have hasked : (w.asked proxy).Alike (.upon K) (w'.asked proxy) := by
        obtain ⟨⟨cells, hcells, hfresh⟩⟩ := h
        exact ⟨⟨cells, hcells, hfresh⟩⟩
      dsimp only
      rw [bind_of_ok hask, bind_of_ok hask']
      exact .writeAt (f := fun _ => Address.octets _) (fun _ _ _ => rfl) hasked
  | classRef => exact .data_bind h (.writeAt (fun _ _ h => h.readOutside (hdata rfl) _) h)
  | softReference => exact Engine.writeSoftReference_follows hw h
  | struct =>
    refine .ofPanic_bind h fun info hinfo => ?_
    have hfactory : Ends (Engine.structFactory info (callAt (n + 1)) w) _ fun _ _ => False :=
      Engine.ends_structFactory 0 info
    refine .bind (Engine.structFactory_blind info h) fun found v v' hfound hv => ?_
    rw [hfound] at hfactory
    cases found with
    | error e => exact .error hv
    | ok f =>
      obtain ⟨hputs, -, -, hmet⟩ := hfactory
      have hbody := hw.struct hp hinfo (hmet.imp_right fun hf => ⟨info, rfl, hf⟩)
      rw [← hputs.bodies] at hbody
      exact .data_bind hv (Engine.unboxStruct_follows hbody hv (hdata rfl))
  | collection => exact Engine.writeCollection_follows hw h

theorem unwrap_blind (m : Marshaller) (p : Property) (foreign : Address) :
    (m.unwrap p foreign : Act σ _).Blind V call call' := by
  unfold unwrap
  split
  · exact .pure _
  · refine .bind (.ofPanic _) fun object => .state_bind (fun _ _ => rfl) fun s => ?_
    split
    · exact .ofPanic _
    · split
      · exact .abandon _
      · exact .pure _

/-- What is unwrapped is the value itself, or lies in a box. -/
theorem unwrap_eq_ok {m : Marshaller} {a : Address} (h : m.unwrap p foreign call w = .ok a u) :
    u = w ∧ (a = foreign ∨ ∃ i, a = .payload i) := by
  unfold unwrap at h
  split at h
  · cases h
    exact ⟨rfl, .inl rfl⟩
  · cases hobject : p.returned foreign with
    | error e => rw [hobject] at h; cases h
    | ok object =>
      rw [hobject] at h
      change (if w.state.heap.isBoxed object then ofPanic (w.state.unbox object)
        else if m = .classRef then abandon (.unboxedClass p.name) else pure foreign :
          Act σ Address) call w = _ at h
      split at h
      · cases hbox : w.state.unbox object with
        | error e => rw [hbox] at h; cases h
        | ok payload =>
          rw [hbox] at h
          cases h
          obtain ⟨i, _, _, -, rfl, -⟩ := Redirection.unbox_eq_ok hbox
          exact ⟨rfl, .inr ⟨i, rfl⟩⟩
      · split at h <;> cases h
        exact ⟨rfl, .inl rfl⟩

end Marshaller

end Copying

/-! ## What is delivered -/

/-- Bits that agree are changed in the same way. -/
theorem Octet.setBits_and_congr {bits : UInt8} {o o' : Octet}
    (h : o.byte &&& bits = o'.byte &&& bits) (mask : UInt8) (on : Bool) :
    (o.setBits mask on).byte &&& bits = (o'.setBits mask on).byte &&& bits := by
  have hswap (a : UInt8) : a &&& ~~~mask &&& bits = a &&& bits &&& ~~~mask := by
    rw [UInt8.and_assoc, UInt8.and_comm (~~~mask), ← UInt8.and_assoc]
  cases on with
  | true =>
    show (o.byte ||| mask) &&& bits = (o'.byte ||| mask) &&& bits
    rw [or_and, or_and, h]
  | false =>
    show o.byte &&& ~~~mask &&& bits = o'.byte &&& ~~~mask &&& bits
    rw [hswap, hswap, h]

/-- The values are the same for a property. Of a flag only its own bits matter. -/
def Value.SameFor (p : Property) (v v' : Value) : Prop :=
  match p.kind.storage with
  | .plain => v.read p.size = v'.read p.size
  | .flag mask => (v.octetAt 0).byte &&& mask = (v'.octetAt 0).byte &&& mask
  | _ => v = v'

namespace Delivery

/-- Of the property nothing is left as it was. -/
def Fills (d : Delivery) (p : Property) : Prop :=
  match p.kind.storage with
  | .plain => ∃ os, d = .octets os ∧ os.length = p.size
  | .flag mask => ∃ on, d = .flag mask on
  | _ => ∃ v : Value, d = .value v ∧ v.isPlain = false

variable {d : Delivery} {p q : Property} {v v' : Value}

theorem Fills.isPlain_put (h : d.Fills p) (v : Value) : (d.put 0 v).isPlain = v.isPlain := by
  have hsplice (os : List Octet) : (v.splice 0 os).isPlain = v.isPlain := by
    cases v <;> rfl
  cases d with
  | octets os => exact hsplice os
  | flag mask on => exact hsplice _
  | value x =>
    have hx : x.isPlain = false := by
      unfold Fills at h
      split at h
      · obtain ⟨os, hos, -⟩ := h
        cases hos
      · obtain ⟨on, hon⟩ := h
        cases hon
      · obtain ⟨x', hx', hplain⟩ := h
        cases hx'
        exact hplain
    cases v with
    | plain os =>
      cases x with
      | plain => cases hx
      | _ => rfl
    | _ => exact congrArg Value.isPlain (Value.put_of_not_plain rfl hx) |>.trans hx

theorem exists_plain (hv : v.isPlain = true) : ∃ os, v = .plain os := by
  cases v with
  | plain os => exact ⟨os, rfl⟩
  | _ => cases hv

/-- Whatever the values were, what fills the property makes them the same. -/
theorem Fills.sameFor (h : d.Fills p) (hv : v.isPlain = p.inBlock) (hv' : v'.isPlain = p.inBlock) :
    (d.put 0 v).SameFor p (d.put 0 v') := by
  unfold Fills at h
  unfold Property.inBlock at hv hv'
  unfold Value.SameFor
  cases hs : p.kind.storage <;> rw [hs] at h hv hv'
  case plain =>
    obtain ⟨os, rfl, hlength⟩ := h
    obtain ⟨old, rfl⟩ := exists_plain hv
    obtain ⟨old', rfl⟩ := exists_plain hv'
    refine Value.read_eq_iff.2 fun k hk => ?_
    show ((Value.plain old).splice 0 os).octetAt k = ((Value.plain old').splice 0 os).octetAt k
    rw [Value.octetAt_splice, Value.octetAt_splice, if_pos (by omega), if_pos (by omega)]
  case flag mask =>
    obtain ⟨on, rfl⟩ := h
    obtain ⟨old, rfl⟩ := exists_plain hv
    obtain ⟨old', rfl⟩ := exists_plain hv'
    dsimp only
    rw [put_flag, put_flag, Value.octetAt_splice, Value.octetAt_splice, if_pos (by simp),
      if_pos (by simp)]
    exact (Octet.setBits_and mask on _).trans (Octet.setBits_and mask on _).symm
  all_goals
    obtain ⟨x, rfl, hx⟩ := h
    exact (Value.put_of_not_plain hv hx).trans (Value.put_of_not_plain hv' hx).symm

/-- Of octets each is replaced, or changed in its bits, or left alone. -/
theorem octetAt_put_plain (d : Delivery) (k : Nat) :
    (∃ o, ∀ os, (d.put 0 (.plain os)).octetAt k = o) ∨
    (∃ mask on, ∀ os, (d.put 0 (.plain os)).octetAt k = ((Value.plain os).octetAt k).setBits mask on) ∨
    ∀ os, (d.put 0 (.plain os)).octetAt k = (Value.plain os).octetAt k := by
  have hsplice (new : List Octet) :
      (∃ o, ∀ os, ((Value.plain os).splice 0 new).octetAt k = o) ∨
      ∀ os, ((Value.plain os).splice 0 new).octetAt k = (Value.plain os).octetAt k := by
    by_cases hk : k < new.length
    · refine .inl ⟨new[k]?.getD .zero, fun os => ?_⟩
      rw [Value.octetAt_splice, if_pos (by omega)]
      rfl
    · refine .inr fun os => ?_
      rw [Value.octetAt_splice, if_neg (by omega)]
  cases d with
  | octets new => exact (hsplice new).imp_right .inr
  | flag mask on =>
    by_cases hk : k = 0
    · subst hk
      refine .inr (.inl ⟨mask, on, fun os => ?_⟩)
      rw [put_flag, Value.octetAt_splice, if_pos (by simp)]
      rfl
    · refine .inr (.inr fun os => ?_)
      rw [put_flag, Value.octetAt_splice, if_neg (by simp; omega)]
  | value v =>
    cases v with
    | plain new => exact (hsplice new).imp_right .inr
    | _ => exact .inr (.inr fun _ => rfl)

/-- What is the same for a property stays so. -/
theorem keeps_sameFor (d : Delivery) (hsame : v.SameFor p v') (hv : v.isPlain = p.inBlock)
    (hv' : v'.isPlain = p.inBlock) : (d.put 0 v).SameFor p (d.put 0 v') := by
  unfold Property.inBlock at hv hv'
  unfold Value.SameFor at hsame ⊢
  -- Values that do not consist of octets are the same as a whole.
  cases hs : p.kind.storage <;> rw [hs] at hsame hv hv' <;>
    first | exact congrArg (d.put 0) hsame | skip
  all_goals
    obtain ⟨old, rfl⟩ := exists_plain hv
    obtain ⟨old', rfl⟩ := exists_plain hv'
  case plain =>
    refine Value.read_eq_iff.2 fun k hk => ?_
    have hk := Value.read_eq_iff.1 hsame k hk
    obtain ⟨o, hput⟩ | ⟨mask, on, hput⟩ | hput := d.octetAt_put_plain k
    · rw [hput, hput]
    · rw [hput, hput, hk]
    · rw [hput, hput, hk]
  case flag mask =>
    dsimp only at hsame ⊢
    obtain ⟨o, hput⟩ | ⟨other, on, hput⟩ | hput := d.octetAt_put_plain 0
    · rw [hput, hput]
    · rw [hput, hput]
      exact Octet.setBits_and_congr hsame other on
    · rw [hput, hput, hsame]

/-- From its start on a cell receives what is delivered to it, and nothing else. -/
theorem into_cases {place : Address} {c : Nat} (hstart : ∀ o, place = .cell c o → o = 0)
    (d : Delivery) :
    (place = .ofCell c ∧ ∀ v, d.into place c v = d.put 0 v) ∨ ∀ v, d.into place c v = v := by
  cases place with
  | cell c' o =>
    by_cases hc : c' = c
    · subst hc
      obtain rfl := hstart o rfl
      exact .inl ⟨rfl, fun v => d.into_cell_self c' 0 v⟩
    · exact .inr fun v => d.into_cell_of_ne hc o v
  | _ => exact .inr fun _ => rfl

theorem Fills.isPlain_into {place : Address} {c : Nat} (h : d.Fills p)
    (hstart : ∀ o, place = .cell c o → o = 0) (v : Value) :
    (d.into place c v).isPlain = v.isPlain := by
  obtain ⟨-, hinto⟩ | hinto := d.into_cases hstart
  · rw [hinto, h.isPlain_put]
  · rw [hinto]

end Delivery

/-- The marshaller of a kind delivers whole values of it. -/
theorem Marshaller.fills_delivery {m : Marshaller} {p : Property}
    (hm : ofTag p.kind.tag = some m) (hsize : p.size = p.kind.hostLayout.size) (s : State)
    (foreign : Address) : (m.delivery p s foreign).Fills p := by
  have hread {n : Nat} (hn : n = p.size) : ∃ os, Delivery.octets (s.readAt foreign n) = .octets os ∧
      os.length = p.size := ⟨_, rfl, (State.length_readAt _ _ _).trans hn⟩
  unfold Delivery.Fills
  cases hkind : p.kind <;> rw [hkind] at hm hsize <;> cases hm
  case bool mask =>
    refine ⟨(s.readAt foreign 1).any Octet.isSet, ?_⟩
    unfold delivery Property.flagMask
    rw [hkind]
  case scalar | enumeration | struct => exact hread rfl
  case name =>
    refine ⟨_, rfl, ?_⟩
    rw [hsize]
    simp [HostName.octets, wordOctets, Kind.hostLayout]
  case object => exact ⟨_, rfl, (Address.length_octets _).trans hsize.symm⟩
  case classRef => exact hread hsize.symm
  all_goals exact ⟨_, rfl, rfl⟩

/-! ## What the outputs have received -/

namespace Redirection

section Received

variable {l : Linkage} {scratch c i j : Nat} {s : State} {params : List Parameter}
  {param : Parameter} {v v' : Value}

/-- What each delivery to a cell keeps is kept by all of them. -/
theorem received_keeps {R : Value → Value → Prop} {u : Value}
    (hstart : ∀ param ∈ params, ∀ o, param.output = .cell c o → o = 0)
    (hstep : ∀ j param d, params[j]? = some param → output? l scratch s (i + j) param = some d →
      param.output = .ofCell c → ∀ v v', R v v' → R (d.put 0 v) (d.put 0 v')) (h : R v u) :
    R (received l scratch s c i params v) (received l scratch s c i params u) := by
  induction params generalizing i v u with
  | nil => exact h
  | cons param params ih =>
    obtain ⟨hparam, hrest⟩ := List.forall_mem_cons.1 hstart
    unfold received
    refine ih hrest (fun j param' d hj hd => hstep (j + 1) param' d hj ?_) ?_
    · rw [← hd, Nat.add_right_comm]
      rfl
    · cases hd : output? l scratch s i param with
      | none => exact h
      | some d =>
        obtain ⟨hout, hinto⟩ | hinto := d.into_cases hparam
        · dsimp only [Option.elim]
          rw [hinto, hinto]
          exact hstep 0 param d rfl hd hout v u h
        · dsimp only [Option.elim]
          rwa [hinto, hinto]

/-- Every output that is copied back fills its property. -/
def Filling (l : Linkage) (scratch : Nat) (s : State) (i : Nat) (params : List Parameter) : Prop :=
  ∀ j param d, params[j]? = some param → output? l scratch s (i + j) param = some d →
    d.Fills param.property

theorem Filling.tail (h : Filling l scratch s i (param :: params)) :
    Filling l scratch s (i + 1) params := by
  intro j param' d hj hd
  refine h (j + 1) param' d hj ?_
  rw [← hd, Nat.add_right_comm]
  rfl

/-- A cell that is lent for an output holds the same for it in the end, whatever it held. -/
theorem sameFor_received {d : Delivery} (hfills : Filling l scratch s i params)
    (hstart : ∀ param ∈ params, ∀ o, param.output = .cell c o → o = 0)
    (hj : params[j]? = some param) (hd : output? l scratch s (i + j) param = some d)
    (hout : param.output = .ofCell c) (hv : v.isPlain = param.property.inBlock)
    (hv' : v'.isPlain = param.property.inBlock) :
    (received l scratch s c i params v).SameFor param.property
      (received l scratch s c i params v') := by
  induction params generalizing i j v v' with
  | nil => cases hj
  | cons first params ih =>
    obtain ⟨hfirst, hrest⟩ := List.forall_mem_cons.1 hstart
    cases j with
    | zero =>
      cases hj
      have hfill := hfills 0 param d rfl hd
      have hinto (v : Value) : d.into param.output c v = d.put 0 v := by
        rw [hout]
        exact d.into_cell_self c 0 v
      rw [received, received, show output? l scratch s i param = some d from hd]
      dsimp only [Option.elim]
      rw [hinto, hinto]
      -- What comes after it keeps what it made the same.
      let R (v v' : Value) : Prop := v.SameFor param.property v' ∧
        v.isPlain = param.property.inBlock ∧ v'.isPlain = param.property.inBlock
      have hsame : R (d.put 0 v) (d.put 0 v') :=
        ⟨hfill.sameFor hv hv', (hfill.isPlain_put v).trans hv, (hfill.isPlain_put v').trans hv'⟩
      refine (received_keeps hrest (fun k q e hk he _ v v' h => ?_) hsame).1
      have hq := hfills.tail k q e hk he
      exact ⟨e.keeps_sameFor h.1 h.2.1 h.2.2, (hq.isPlain_put v).trans h.2.1,
        (hq.isPlain_put v').trans h.2.2⟩
    | succ j =>
      have hone {v : Value} (hv : v.isPlain = param.property.inBlock) :
          ((output? l scratch s i first).elim v fun e => e.into first.output c v).isPlain =
            param.property.inBlock := by
        cases he : output? l scratch s i first with
        | none => exact hv
        | some e => exact ((hfills 0 first e rfl he).isPlain_into hfirst v).trans hv
      rw [received, received]
      refine ih hfills.tail hrest (j := j) hj ?_ (hone hv) (hone hv')
      rw [← hd, Nat.add_right_comm]
      rfl

/-- Where only flags are received, other bits stay. -/
theorem flagsApart_received {lent : Property → Nat → Prop} (hfills : Filling l scratch s i params)
    (hstart : ∀ param ∈ params, ∀ o, param.output = .cell c o → o = 0)
    (hlent : ∀ j param d, params[j]? = some param → output? l scratch s (i + j) param = some d →
      param.output = .ofCell c →
      lent param.property 0 ∧ ∃ mask, param.property.kind = .bool mask) (v : Value) :
    v.FlagsApart lent (received l scratch s c i params v) := by
  refine received_keeps (R := fun u _ => v.FlagsApart lent u) hstart
    (fun j param d hj hd hout u _ hu => hu.trans ?_) (u := v) (.refl v)
  obtain ⟨hlent, mask, hkind⟩ := hlent j param d hj hd hout
  have hfill := hfills j param d hj hd
  unfold Delivery.Fills Kind.storage at hfill
  rw [hkind] at hfill
  obtain ⟨on, rfl⟩ := hfill
  rw [Delivery.put_flag]
  exact Value.flagsApart_splice hlent hkind on u

end Received

/-! ## Writing back -/

section Alike

variable {K : Nat → Prop} {s s' s₀ : State} {w v w' v' : World σ} {block scratch i n : Nat}
  {l : Linkage} {params all : List Parameter} {param : Parameter} {a : LinkedArg}
  {staged : List StagedArg} {ps : List Property} {foreign : Address} {m : Marshaller}

/-- What an output is copied from is hidden in none of its cells. -/
theorem Source.not_hidden (hL : Laid block scratch all s₀) (hmem : param ∈ all)
    (hK : ∀ c, K c → c < block) (h : Source scratch s m param foreign) (hm : m.isReference = false)
    (c o : Nat) (hc : foreign = .cell c o) : ¬K c := by
  intro hk
  have hlow := hK c hk
  cases h with
  | object h =>
    rw [hm] at h
    cases h
  | place =>
    obtain ⟨c', o', hplace, hle, -⟩ := hL.cell hmem
    cases hc.symm.trans hplace
    omega
  | scratch =>
    cases hc
    have := hL.order
    omega
  | payload => cases hc

/-- What can be copied back in one world can be in the other, from the same place. -/
theorem Returnable.alike (h : Returnable block scratch s param a) (hs : s.Alike (.upon K) s')
    (hscratch : ¬K scratch) :
    s'.addressAt (Slot.pointer ⟨scratch, a.scratchOffset⟩) =
        s.addressAt (Slot.pointer ⟨scratch, a.scratchOffset⟩) ∧
      Returnable block scratch s' param a := by
  have hslot : s'.addressAt (Slot.pointer ⟨scratch, a.scratchOffset⟩) =
      s.addressAt (Slot.pointer ⟨scratch, a.scratchOffset⟩) :=
    congrArg Address.ofOctets
      (hs.readOutside (fun c o hc => by cases hc; exact hscratch) addressSize)
  refine ⟨hslot, ?_⟩
  obtain ⟨haccepts, hsource, hfits, hout⟩ := h
  obtain ⟨cells, -, -⟩ := hs
  refine ⟨?_, ?_, hfits, hout⟩
  · rw [hslot]
    exact haccepts
  · rw [hslot]
    generalize s.addressAt (Slot.pointer ⟨scratch, a.scratchOffset⟩) = foreign at hsource
    cases hsource with
    | object h => exact .object h
    | place hin => exact .place hin
    | scratch offset => exact .scratch offset
    | payload h => exact .payload h

/-- The same is copied back in both. -/
theorem output?_alike (hL : Laid block scratch all s₀) (hmem : param ∈ all)
    (hK : ∀ c, K c → c < block) (hscratch : ¬K scratch) (hs : s.Alike (.upon K) s')
    (hready : ∀ a, l.forParam i = some a → a.byRef = true → Returnable block scratch s param a) :
    output? l scratch s' i param = output? l scratch s i param := by
  unfold output?
  cases ha : l.forParam i with
  | none => rfl
  | some a =>
    dsimp only
    by_cases hby : a.byRef = true
    · have hreturnable := hready a ha hby
      obtain ⟨hslot, -⟩ := hreturnable.alike hs hscratch
      rw [if_pos hby, if_pos hby, hslot]
      refine congrArg some (Marshaller.delivery_congr ?_ fun i => .inl ?_)
      · cases hm : a.marshaller.isReference with
        | true =>
          have hzero : a.marshaller.reads param.property = 0 := by
            cases hcase : a.marshaller <;> rw [hcase] at hm <;> first | rfl | cases hm
          rw [hzero, List.eq_nil_of_length_eq_zero (State.length_readAt _ _ 0),
            List.eq_nil_of_length_eq_zero (State.length_readAt _ _ 0)]
        | false => exact hs.readOutside (hreturnable.source.not_hidden hL hmem hK hm) _
      · rw [hs.heap]
    · rw [if_neg hby, if_neg hby]

theorem received_alike (hL : Laid block scratch all s₀) (hsub : ∀ param ∈ params, param ∈ all)
    (hK : ∀ c, K c → c < block) (hscratch : ¬K scratch) (hs : s.Alike (.upon K) s')
    (hready : ∀ j param a, params[j]? = some param → l.forParam (i + j) = some a →
      a.byRef = true → Returnable block scratch s param a) (c : Nat) (v : Value) :
    received l scratch s' c i params v = received l scratch s c i params v := by
  induction params generalizing i v with
  | nil => rfl
  | cons param params ih =>
    obtain ⟨hmem, hrest⟩ := List.forall_mem_cons.1 hsub
    have hfirst : output? l scratch s' i param = output? l scratch s i param :=
      output?_alike hL hmem hK hscratch hs fun a ha => hready 0 param a rfl ha
    rw [received, received, hfirst]
    refine ih hrest (fun j param' a hj ha => hready (j + 1) param' a hj ?_) _
    rw [← ha, Nat.add_right_comm]
    rfl

/-- One output is copied back alike. -/
theorem writeBackOne_follows (hL : Laid block scratch all s₀) (hmem : param ∈ all)
    (hK : ∀ c, K c → c < block)
    (hfind : (staged.find? fun t => t.arg.param == i) =
      (l.forParam i).map fun a => ⟨a, ⟨scratch, a.scratchOffset⟩⟩)
    (hready : ∀ a, l.forParam i = some a → a.byRef = true →
      Returnable block scratch w.state param a)
    (hw : v.WritesBack ps) (hp : param.property ∈ ps)
    (hscratch : v.state.memory.cells.get? scratch = w.state.memory.cells.get? scratch)
    (hv : v.Alike (.upon K) v') :
    Follows (.upon K) (.upon K) (writeBackOne staged i param (callAt (n + 1)) v)
      (writeBackOne staged i param (callAt (n + 1)) v') := by
  have hlow : ¬K scratch := fun hk => Nat.lt_asymm hL.order (hK scratch hk)
  unfold writeBackOne
  rw [hfind]
  cases ha : l.forParam i with
  | none => exact .ok hv
  | some a =>
    dsimp only [Option.map]
    cases hby : a.byRef with
    | false => exact .ok hv
    | true =>
      have hsource := (hready a ha hby).source
      obtain ⟨c, o, hcell⟩ := (hready a ha hby).cell hL hmem
      simp only [if_pos]
      rw [Act.state_bind, Act.state_bind]
      have hslot : v.state.addressAt (Slot.pointer ⟨scratch, a.scratchOffset⟩) =
          w.state.addressAt (Slot.pointer ⟨scratch, a.scratchOffset⟩) :=
        congrArg Address.ofOctets (readAt_of_cell hscratch)
      have hslot' : v'.state.addressAt (Slot.pointer ⟨scratch, a.scratchOffset⟩) =
          v.state.addressAt (Slot.pointer ⟨scratch, a.scratchOffset⟩) :=
        congrArg Address.ofOctets
          (hv.state.readOutside (fun c o hc => by cases hc; exact hlow) addressSize)
      rw [hslot', hslot, hcell]
      exact Marshaller.toHost_follows hw hp hv a.marshaller fun hm =>
        hsource.not_hidden hL hmem hK hm

/-- All outputs are copied back alike. -/
theorem writeBack_follows {g : Nat → Value → Value} (hL : Laid block scratch all s₀)
    (hsub : params.Sublist all) (hK : ∀ c, K c → c < block)
    (hfind : ∀ j < params.length, (staged.find? fun t => t.arg.param == i + j) =
      (l.forParam (i + j)).map fun a => ⟨a, ⟨scratch, a.scratchOffset⟩⟩)
    (hready : ∀ j param a, params[j]? = some param → l.forParam (i + j) = some a →
      a.byRef = true → Returnable block scratch w.state param a)
    (hw : w.WritesBack ps) (hn : w.state.heap.Numbered) (hnext : scratch < w.state.memory.next)
    (hp : ∀ param ∈ params, param.property ∈ ps) (hputs : w.Puts (scratch + 1) g v)
    (hu : Untouched block scratch params w.state v.state) (hv : v.Alike (.upon K) v') :
    Follows (.upon K) (.upon K) (writeBack staged i params (callAt (n + 1)) v)
      (writeBack staged i params (callAt (n + 1)) v') := by
  induction params generalizing i v v' g with
  | nil => exact .ok hv
  | cons param params ih =>
    obtain ⟨hp, hps⟩ := List.forall_mem_cons.1 hp
    have hmem (param' : Parameter) (h : param' ∈ param :: params) : param' ∈ all := hsub.subset h
    have hapart := List.pairwise_cons.1 (hL.apart.sublist hsub)
    have hfirst := hfind 0 (Nat.succ_pos _)
    have hreturns (a : LinkedArg) (ha : l.forParam i = some a) (hby : a.byRef = true) :=
      hready 0 param a rfl ha hby
    rw [writeBack_cons]
    refine .bind (writeBackOne_follows hL (hmem param List.mem_cons_self) hK hfirst hreturns
      (hputs.writesBack hw) hp hu.scratch hv) fun _ x x' hone hx => ?_
    -- What the first run has written so far is known, and so what it copies next.
    have hends : Ends (writeBackOne staged i param (callAt (n + 1)) v) _ _ :=
      ends_writeBackOne hL (hmem param List.mem_cons_self)
        (fun param' h => hmem param' (List.mem_cons_of_mem _ h)) hapart.1 hfirst hreturns hw hn
        hnext hp hputs hu
    obtain ⟨hputs, hu⟩ := (ends_iff.1 hends).1 _ _ hone
    refine ih ((List.sublist_cons_self param params).trans hsub) (fun j hj => ?_)
      (fun j param' a hj ha => ?_) hps hputs hu hx
    · rw [Nat.add_right_comm]
      exact hfind (j + 1) (Nat.succ_lt_succ hj)
    · rw [Nat.add_right_comm] at ha
      exact hready (j + 1) param' a hj ha

/-! ## The end of a call -/

/-- The result is copied alike, unless it points into storage that differs. -/
theorem copyResult_follows {returned result : Option Address} (hw : w.WritesBack ps)
    (function : Function) (hps : ∀ p m, returnOf function l = some (p, m) → p ∈ ps)
    (hreturned : ∀ c o, returned = some (.cell c o) → ¬K c)
    (hresult : ∀ a, result = some a → ∃ c o, a = .cell c o) (h : w.Alike (.upon K) w') :
    Follows (.upon K) (.upon K) (copyResult function l returned result (callAt (n + 1)) w)
      (copyResult function l returned result (callAt (n + 1)) w') := by
  unfold copyResult
  cases hreturn : returnOf function l with
  | none => exact .ok h
  | some pm =>
    obtain ⟨p, m⟩ := pm
    obtain - | value := returned
    · exact .ok h
    obtain - | place := result
    · exact .ok h
    obtain ⟨c, o, rfl⟩ := hresult place rfl
    refine .bind (Marshaller.unwrap_blind m p value h) fun a u u' hu hlike => ?_
    obtain ⟨rfl, ha⟩ := Marshaller.unwrap_eq_ok hu
    refine Marshaller.toHost_follows hw (hps p m hreturn) hlike m fun _ c' o' hc => ?_
    obtain rfl | ⟨i, rfl⟩ := ha
    · exact hreturned c' o' (congrArg some hc)
    · cases hc

/-- A place is reset alike. -/
theorem resetAt_alike (h : s.Alike (.upon K) s') (p : Property) (a : Address) :
    (s.resetAt p a).Alike (.upon K) (s'.resetAt p a) := by
  unfold State.resetAt
  cases a with
  | cell c o =>
    refine h.modify (fun _ _ _ _ hv => hv) (fun v v' hv hv' hlike => ?_) fun _ _ _ hv => hv
    obtain hc | rfl := hlike
    · exact .inl hc
    · refine .inr (congrArg (fun x : Value => v.put o (x.reset p)) ?_)
      show (s.memory.get c).skip o = (s'.memory.get c).skip o
      rw [State.get_eq hv, State.get_eq hv']
  | _ => exact h

/-- Where the method has thrown, both calls fail with what it threw. -/
theorem finish_error_follows {call call' : Invoker σ} (function : Function) (result : Option Address)
    (x : ForeignException) (h : w.Alike (.upon K) w') :
    Follows (.upon K) (.upon K) (finish function l params staged result (.error x) call w)
      (finish function l params staged result (.error x) call' w') := by
  have hblind : (finish function l params staged result (.error x) : Act σ Unit).Blind (.upon K)
      call call' := by
    refine .bind (.report _) fun _ => .bind (.count _ _) fun _ => .bind (.edit fun s s' hs => ?_)
      fun _ => .fail _
    unfold resetResult
    split
    · exact resetAt_alike hs _ _
    · exact hs
  exact hblind h

end Alike

section Agree

variable {K : Nat → Prop} {key : Redirector.Key} {r : Redirector} {stack rest : ArgStack}
  {l : Linkage} {m n : Nat} {params : List Parameter} {src : Nat → Value}
  {pointers : List Address} {staged : List StagedArg} {target receiver result : Option Address}
  {w u v v' v'' x : World σ} {o : List Owed} {registry : Registry} {returned : Option Address}

/-- Where the methods of two calls have returned alike, both deliver the same to their outputs, and end
alike. -/
theorem Loads.agree (hloads : Loads (callAt (n + 1)) key r stack w l m params rest u)
    (hr : w.state.redirector? key = some r) (hw : w.Tallied o)
    (hcells : ∀ a ∈ stack.args, a.cell < w.state.memory.next)
    (hmatches : Linkage.Matches registry r.function r.method.args l)
    (hstaged : Staged (guarded (n + 1) w.state.memory.next u.state.memory.next) w.state.memory.next
      u.state.memory.next params src l.args x pointers v)
    (hprepare : prepare r.function l target params (callAt (n + 1)) u =
      .ok (pointers, staged, receiver) v)
    (hcall : callMethod m receiver pointers (callAt (n + 1)) v = .ok (.ok returned) v')
    (hwrites : v'.WritesBack r.function.params) (hregistry : registry.Proper)
    (hlaid : r.function.LaidOut)
    (hslots : ∀ a ∈ l.args, a.byRef = true → a.marshaller.isReference = false →
      v'.state.readAt (Slot.pointer ⟨u.state.memory.next, a.scratchOffset⟩) addressSize =
        v.state.readAt (Slot.pointer ⟨u.state.memory.next, a.scratchOffset⟩) addressSize)
    (hresult : ∀ a, result = some a → ∃ c o, a = .cell c o)
    (hK : ∀ c, K c → c < w.state.memory.next)
    (hreturned : ∀ c o, returned = some (.cell c o) → ¬K c) (hlike : v'.Alike (.upon K) v'') :
    Follows (.upon K) (.upon K)
        (finish r.function l params staged result (.ok returned) (callAt (n + 1)) v')
        (finish r.function l params staged result (.ok returned) (callAt (n + 1)) v'') ∧
      Ends (finish r.function l params staged result (.ok returned) (callAt (n + 1)) v'')
        (fun _ y => Brings l u.state.memory.next params result v''.state y)
        (fun _ y => Brings l u.state.memory.next params result v''.state y) ∧
      ∀ c, received l u.state.memory.next v''.state c 0 params =
        received l u.state.memory.next v'.state c 0 params := by
  obtain ⟨hn, hnext, hready, hback⟩ := hloads.ends_writeBack hr hw hcells hmatches hstaged hprepare
    hcall hwrites hregistry hlaid hslots
  obtain ⟨z, hstages, -⟩ := stages_of_prepare hprepare
  have hL := hstaged.laid
  have hscratch : ¬K u.state.memory.next := fun hk => Nat.lt_asymm hL.order (hK _ hk)
  have hfind (j : Nat) (hj : j < params.length) :
      (staged.find? fun t => t.arg.param == 0 + j) = (l.forParam (0 + j)).map fun a =>
        ⟨a, ⟨u.state.memory.next, a.scratchOffset⟩⟩ := by
    rw [Nat.zero_add]
    exact hstages.find?_eq hj
  have hreturns (j : Nat) (param : Parameter) (a : LinkedArg) (hj : params[j]? = some param)
      (ha : l.forParam (0 + j) = some a) (hby : a.byRef = true) :
      Returnable w.state.memory.next u.state.memory.next v'.state param a := by
    rw [Nat.zero_add] at ha
    obtain rfl : a.param = j := beq_iff_eq.1 (List.find?_some ha :)
    exact hready a (List.mem_of_find?_eq_some ha) hby param hj
  have hp (param : Parameter) (hmem : param ∈ params) : param.property ∈ r.function.params :=
    hloads.loaded.properties ▸ List.mem_map_of_mem hmem
  have huntouched (s : State) : Untouched w.state.memory.next u.state.memory.next params s s :=
    ⟨rfl, fun _ _ _ _ _ => rfl⟩
  -- What is found in the first world is found in the second: the scratch memory is not in `K`.
  refine ⟨?_, ?_, fun c => funext fun old => ?_⟩
  · refine .bind (writeBack_follows hL (List.Sublist.refl params) hK hfind hreturns hwrites hn hnext
      hp (.refl _ v') (huntouched _) hlike) fun _ y y' hy hlikey => ?_
    rw [hy] at hback
    exact copyResult_follows (hback.writesBack hwrites) r.function (fun _ _ => mem_of_returnOf)
      hreturned hresult hlikey
  · -- What the second call has to copy back is what the first one has.
    have hwrites' := hlike.writesBack hwrites
    have hn' : v''.state.heap.Numbered := hlike.state.heap ▸ hn
    have hnext' : u.state.memory.next < v''.state.memory.next := hlike.state.next ▸ hnext
    refine ends_finish ?_ hwrites' hn' hnext' r.function (fun _ _ => mem_of_returnOf) hresult
    exact Redirection.ends_writeBack hL (List.Sublist.refl params) hfind
      (fun j param a hj ha hby => ((hreturns j param a hj ha hby).alike hlike.state hscratch).2)
      hwrites' hn' hnext' hp (.refl _ v'') (huntouched _)
  · exact received_alike hL (fun _ h => h) hK hscratch hlike.state hreturns c old

end Agree

end Redirection

end TwinHeap
