import TwinHeap.Proofs.Identities
import TwinHeap.Proofs.Staging

/-!
# Outputs — what copying a foreign value back delivers to the host

`Marshaller.delivery` says what is put into the place of the host. The helpers of the stock library
write to that place only, apart from the cells that they are lent and the boxes that they make
(`World.Puts`). So a value is delivered just as it was left, if its marshaller accepts it, and nothing
is changed if not (`Marshaller.ends_toHost`).
-/

namespace TwinHeap

variable {σ α β : Type}

/-! ## Deliveries -/

/-- What copying a value back puts into a place of the host. -/
inductive Delivery
  /-- Octets that replace those from the start of the place on. -/
  | octets (os : List Octet)
  /-- All bits of a mask are set or cleared, and the others left alone. -/
  | flag (mask : UInt8) (on : Bool)
  /-- A value that does not consist of octets. -/
  | value (v : Value)

namespace Delivery

/-- The value of a cell after something was delivered to an offset in it. -/
def put (d : Delivery) (offset : Nat) (old : Value) : Value :=
  match d with
  | octets os => old.splice offset os
  | flag mask on => old.splice offset (((old.skip offset).read 1).map (Octet.setBits mask on))
  | value v => old.put offset v

theorem put_flag (mask : UInt8) (on : Bool) (offset : Nat) (v : Value) :
    (flag mask on).put offset v = v.splice offset [(v.octetAt offset).setBits mask on] := by
  unfold put
  rw [Value.read_skip_one]
  rfl

/-- The value of any cell after something was delivered to a place. -/
def into (d : Delivery) (place : Address) (c : Nat) (old : Value) : Value :=
  match place with
  | .cell c' offset => if c' = c then d.put offset old else old
  | _ => old

theorem into_cell_self (d : Delivery) (c offset : Nat) (old : Value) :
    d.into (.cell c offset) c old = d.put offset old := if_pos rfl

theorem into_cell_of_ne (d : Delivery) {c c' : Nat} (h : c' ≠ c) (offset : Nat) (old : Value) :
    d.into (.cell c' offset) c old = old := if_neg h

end Delivery

namespace State

/-- The host object that a foreign object stands for, or null. -/
def nativeBehind (s : State) (a : Address) : Address := (a.nonNull.bind s.heap.nativeOf).getD .null

/-- The contents of a foreign collection; anything else is empty. -/
def contentsAt (s : State) (a : Address) : Container :=
  match a.nonNull.bind s.heap.get? with
  | some (.collection c) => c
  | _ => .empty

/-- The path of a foreign soft reference; anything else has the empty one. -/
def pathAt (s : State) (a : Address) : String :=
  match a.nonNull.bind s.heap.get? with
  | some (.soft path) => path
  | _ => ""

end State

namespace Marshaller

/-- What copying the foreign value at an address back puts into the place of the host. -/
def delivery (m : Marshaller) (p : Property) (s : State) (foreign : Address) : Delivery :=
  match m with
  | bool =>
    match p.flagMask with
    | .ok mask => .flag mask ((s.readAt foreign 1).any Octet.isSet)
    | .error _ => .octets []
  | scalar | enumeration | struct => .octets (s.readAt foreign p.size)
  | name => .octets (NameRecord.ofOctets (s.readAt foreign 8)).toHostName.octets
  | text => .value (.string (s.stringAt (s.addressAt foreign)))
  | string => .value (.string (s.stringAt foreign))
  | object => .octets (s.nativeBehind foreign).octets
  | classRef => .octets (s.readAt foreign addressSize)
  | softReference => .value (.string (s.pathAt foreign))
  | collection => .value (.container (s.contentsAt foreign))

/-- The foreign value can be copied back: data lies somewhere, and the property is of a form that the
marshaller is for. -/
def Accepts (m : Marshaller) (p : Property) (s : State) (foreign : Address) : Prop :=
  match m with
  | bool => (∃ mask, p.flagMask = .ok mask) ∧ foreign ≠ .null
  | scalar | name | text | classRef => foreign ≠ .null
  | enumeration => p.enumerationWidth = .ok p.size ∧ foreign ≠ .null
  | string | object => True
  | softReference => ∃ ms, s.bridge.helpers.softReference p = .ok ms
  | struct => (∃ info f, p.structInfo = .ok info ∧ (s.bridge.factories.get? info.fullName = some f ∨
      s.foreign.findFactory info = .ok f)) ∧ foreign ≠ .null
  | collection => ∃ ms, s.bridge.helpers.collection p = .ok ms

end Marshaller

/-! ## The stock library -/

/-- The methods that values are written back with have the stock bodies; those of a struct copy as
many octets as the parameters `ps` of its type take. -/
structure World.WritesBack (ps : List Property) (w : World σ) : Prop where
  nativePtr : w.bodies[w.state.bridge.helpers.nativePtr]? =
    some fun inv => (Library.nativePtr inv).toProgram
  collection : ∀ {p : Property} {make write : Nat},
    w.state.bridge.helpers.collection p = .ok (make, write) →
      w.bodies[write]? = some fun inv => (Library.writeCollection inv).toProgram
  softReference : ∀ {p : Property} {make write : Nat},
    w.state.bridge.helpers.softReference p = .ok (make, write) →
      w.bodies[write]? = some fun inv => (Library.writeSoftReference inv).toProgram
  /-- The structs that were met, and those that will be. -/
  struct : ∀ {p : Property} {info : StructInfo} {f : StructFactory}, p ∈ ps →
    p.structInfo = .ok info → (w.state.bridge.factories.get? info.fullName = some f ∨
      ∃ info' : StructInfo, info'.fullName = info.fullName ∧
        w.state.foreign.findFactory info' = .ok f) →
    w.bodies[f.toNative]? = some fun inv => (Library.unboxStruct p.size inv).toProgram

/-- What does not fit is not written. -/
theorem littleEndian_mod (n v : Nat) : littleEndian n (v % octetRange n) = littleEndian n v := by
  induction n generalizing v with
  | zero => rfl
  | succ n ih =>
    have hrest : v % octetRange (n + 1) / 256 = v / 256 % octetRange n := by
      rw [octetRange, Nat.mod_mul_right_div_self]
    have hbyte : UInt8.ofNat (v % octetRange (n + 1)) = UInt8.ofNat v := by
      apply UInt8.toNat_inj.1
      rw [UInt8.toNat_ofNat', UInt8.toNat_ofNat', octetRange]
      exact Nat.mod_mul_right_mod _ _ _
    rw [littleEndian, littleEndian, hrest, ih, hbyte]

namespace Address

theorem nonNull_getD (a : Address) : a.nonNull.getD .null = a := by
  unfold nonNull
  split
  · rename_i h
    exact h.symm
  · rfl

/-- A word that was written and read back is written the same. -/
theorem octets_ofOctets (a : Address) : (ofOctets (a.octets ++ [])).octets = a.octets := by
  cases a with
  | raw v =>
    have hread : ofOctets ((raw v).octets ++ []) = raw (v % octetRange 8) := by
      have hbytes : (((littleEndian 8 v).map Octet.value).take 8).map Octet.byte =
          littleEndian 8 v := by
        rw [List.take_of_length_le (by simp), List.map_map]
        simp [Octet.byte, Function.comp_def]
      rw [← ofLittleEndian_littleEndian, ← hbytes, List.append_nil]
      simp [octets, ofOctets, littleEndian]
    rw [hread]
    exact congrArg (List.map Octet.value) (littleEndian_mod 8 v)
  | _ => rw [ofOctets_octets _ [] (by rintro v ⟨⟩)]

end Address

section Bodies

variable {call : Invoker σ} {w : World σ} {property place object offset : Address}

theorem run_writeCollection :
    ((Library.writeCollection ⟨none, [property, place, object]⟩).toProgram).run call w =
      .ok (.ok none) { w with
        state := w.state.storeAt (w.state.addressAt place)
          (.container (w.state.contentsAt object)) } :=
  rfl

theorem run_writeSoftReference :
    ((Library.writeSoftReference ⟨none, [place, object]⟩).toProgram).run call w =
      .ok (.ok none) { w with
        state := w.state.storeAt (w.state.addressAt place) (.string (w.state.pathAt object)) } :=
  rfl

theorem run_unboxStruct (size : Nat) :
    ((Library.unboxStruct size ⟨none, [place, offset, object]⟩).toProgram).run call w =
      .ok (.ok none) { w with
        state := w.state.writeAt (w.state.addressAt place)
          (w.state.readAt (w.state.addressAt place) (wordAt (w.state.readAt offset 4) 0) ++
            w.state.readAt object size) } :=
  rfl

end Bodies

namespace State

/-- Counting a call does not change what is found. -/
theorem findMethod_countCall (s : State) (m : Nat) (assembly : String) (key : Signature) :
    (s.countCall m).foreign.findMethod assembly key = s.foreign.findMethod assembly key := by
  have hfind (p : MethodInfo → Bool) (hp : ∀ i : MethodInfo, p { i with calls := i.calls + 1 } = p i)
      (ms : List MethodInfo) (m : Nat) :
      (ms.modify m fun i => { i with calls := i.calls + 1 }).findIdx? p = ms.findIdx? p := by
    induction ms generalizing m with
    | nil => cases m <;> rfl
    | cons i ms ih =>
      cases m with
      | zero => rw [List.modify_zero_cons, List.findIdx?_cons, List.findIdx?_cons, hp]
      | succ m => rw [List.modify_succ_cons, List.findIdx?_cons, List.findIdx?_cons, ih]
  have hlookup : (s.countCall m).foreign.lookupMethod assembly key =
      s.foreign.lookupMethod assembly key := hfind _ (fun _ => rfl) _ m
  unfold Foreign.findMethod
  rw [hlookup]

theorem findFactory_countCall (s : State) (m : Nat) (info : StructInfo) :
    (s.countCall m).foreign.findFactory info = s.foreign.findFactory info := by
  unfold Foreign.findFactory
  simp only [findMethod_countCall]

end State

/-! ## What the library does -/

/-- Of the cells below `base` each was changed by `g`, the heap has only gained boxes, and the methods
that were found are the same, or found in the same way. -/
structure World.Puts (base : Nat) (g : Nat → Value → Value) (w v : World σ) : Prop where
  cells : ∀ c < base, v.state.memory.cells.get? c = (w.state.memory.cells.get? c).map (g c)
  next : w.state.memory.next ≤ v.state.memory.next
  objects : ∀ i, v.state.heap.objects.get? i = w.state.heap.objects.get? i ∨
    w.state.heap.objects.get? i = none ∧
      ∃ os len, v.state.heap.objects.get? i = some (.boxed os len)
  numbered : w.state.heap.Numbered → v.state.heap.Numbered
  bodies : v.bodies = w.bodies
  helpers : v.state.bridge.helpers = w.state.bridge.helpers
  met : ∀ {name f}, w.state.bridge.factories.get? name = some f →
    v.state.bridge.factories.get? name = some f
  found : ∀ {name f}, v.state.bridge.factories.get? name = some f →
    w.state.bridge.factories.get? name = some f ∨
      ∃ info : StructInfo, info.fullName = name ∧ w.state.foreign.findFactory info = .ok f
  finds : ∀ info, v.state.foreign.findFactory info = w.state.foreign.findFactory info

/-- The world in which one more cell is lent. -/
def World.lend (w : World σ) (v : Value) : World σ := { w with state := (w.state.allot v).2 }

namespace World.Puts

variable {base : Nat} {g g' : Nat → Value → Value} {w v u : World σ}

theorem refl (base : Nat) (w : World σ) : w.Puts base (fun _ => id) w :=
  ⟨fun _ _ => (congrFun Option.map_id _).symm, Nat.le_refl _, fun _ => .inl rfl, id, rfl, rfl,
    id, .inl, fun _ => rfl⟩

theorem trans (h : w.Puts base g v) (h' : v.Puts base g' u) :
    w.Puts base (fun c => g' c ∘ g c) u where
  cells c hc := by rw [h'.cells c hc, h.cells c hc, Option.map_map]
  next := Nat.le_trans h.next h'.next
  objects i := by
    obtain hv | ⟨hnone, os, len, hv⟩ := h.objects i
    · rw [← hv]
      exact h'.objects i
    · obtain hu | ⟨hnone', -⟩ := h'.objects i
      · exact .inr ⟨hnone, os, len, hu.trans hv⟩
      · rw [hv] at hnone'
        cases hnone'
  numbered hn := h'.numbered (h.numbered hn)
  bodies := h'.bodies.trans h.bodies
  helpers := h'.helpers.trans h.helpers
  met hf := h'.met (h.met hf)
  found hf := by
    obtain hf | ⟨info, hname, hf⟩ := h'.found hf
    · exact h.found hf
    · exact .inr ⟨info, hname, h.finds info ▸ hf⟩
  finds info := (h'.finds info).trans (h.finds info)

/-- The library is still the stock one. -/
theorem writesBack {ps : List Property} (h : w.Puts base g v) (hw : w.WritesBack ps) :
    v.WritesBack ps where
  nativePtr := by rw [h.bodies, h.helpers]; exact hw.nativePtr
  collection hp := by rw [h.bodies]; exact hw.collection (h.helpers ▸ hp)
  softReference hp := by rw [h.bodies]; exact hw.softReference (h.helpers ▸ hp)
  struct hp hinfo hf := by
    rw [h.bodies]
    refine hw.struct hp hinfo ?_
    obtain hf | ⟨info, hname, hf⟩ := hf
    · exact h.found hf
    · exact .inr ⟨info, hname, h.finds info ▸ hf⟩

/-- One cell is changed. -/
theorem modify (c : Nat) (f : Value → Value) {s' : State}
    (hs : s' = { w.state with memory := w.state.memory.modify c f }) :
    w.Puts base (fun c' old => if c = c' then f old else old) { w with state := s' } := by
  subst hs
  refine ⟨fun c' _ => ?_, Nat.le_refl _, fun _ => .inl rfl, id, rfl, rfl, id, .inl, fun _ => rfl⟩
  show (w.state.memory.cells.modify c f).get? c' = _
  rw [Table.get?_modify]
  by_cases hc : c = c'
  · subst hc
    simp only [if_pos]
  · simp only [if_neg hc, Option.map_id']

theorem writeAt (base c offset : Nat) (os : List Octet) :
    w.Puts base ((Delivery.octets os).into (.cell c offset))
      { w with state := w.state.writeAt (.cell c offset) os } :=
  modify c (·.splice offset os) rfl

theorem storeAt (base c offset : Nat) (new : Value) :
    w.Puts base ((Delivery.value new).into (.cell c offset))
      { w with state := w.state.storeAt (.cell c offset) new } :=
  modify c (·.put offset new) rfl

/-- Only the bits of the mask are written. -/
theorem setFlag (base c offset : Nat) (mask : UInt8) (on : Bool) :
    w.Puts base ((Delivery.flag mask on).into (.cell c offset)) { w with
      state := w.state.writeAt (.cell c offset)
        ((w.state.readAt (.cell c offset) 1).map (Octet.setBits mask on)) } := by
  have hwrite := writeAt (w := w) base c offset
    ((w.state.readAt (.cell c offset) 1).map (Octet.setBits mask on))
  refine { hwrite with cells := fun c' hc' => (hwrite.cells c' hc').trans ?_ }
  cases hget : w.state.memory.cells.get? c' with
  | none => rfl
  | some old =>
    by_cases hc : c = c'
    · subst hc
      have hread : w.state.readAt (.cell c offset) 1 = (old.skip offset).read 1 :=
        congrArg (fun v => (v.skip offset).read 1) (State.get_eq hget)
      rw [hread, Option.map_some, Option.map_some, Delivery.into_cell_self,
        Delivery.into_cell_self]
      rfl
    · rw [Option.map_some, Option.map_some, Delivery.into_cell_of_ne _ hc,
        Delivery.into_cell_of_ne _ hc]

/-- The boxing methods of a struct are remembered when it is met. -/
theorem meet {info : StructInfo} {f : StructFactory} {s' : State}
    (hn : w.state.bridge.factories.get? info.fullName = none)
    (hf : w.state.foreign.findFactory info = .ok f) (e : Log.Event)
    (hs : s' = { w.state.report e with bridge := { w.state.bridge with
      factories := w.state.bridge.factories.insert info.fullName f } }) :
    w.Puts base (fun _ => id) { w with state := s' } := by
  subst hs
  refine ⟨fun _ _ => (congrFun Option.map_id _).symm, Nat.le_refl _, fun _ => .inl rfl, id, rfl, rfl,
    fun {name g} hg => ?_, fun {name g} hg => ?_, fun _ => rfl⟩
  · show (w.state.bridge.factories.insert _ _).get? name = some g
    rw [Table.get?_insert, if_neg (by rintro rfl; rw [hn] at hg; cases hg), hg]
  · change (w.state.bridge.factories.insert _ _).get? name = some g at hg
    rw [Table.get?_insert] at hg
    split at hg
    · rename_i hname
      cases hg
      exact .inr ⟨info, hname, hf⟩
    · exact .inl hg

theorem countCall (base : Nat) (w : World σ) (m : Nat) :
    w.Puts base (fun _ => id) (w.countCall m) :=
  ⟨fun _ _ => (congrFun Option.map_id _).symm, Nat.le_refl _, fun _ => .inl rfl, id, rfl, rfl,
    id, .inl, fun info => w.state.findFactory_countCall m info⟩

/-- A cell was lent meanwhile. -/
theorem lent {new : Value} (h : (w.lend new).Puts base g u) (hb : base ≤ w.state.memory.next) :
    w.Puts base g { u with state := u.state.discard w.state.memory.next } where
  cells c hc := by
    show (u.state.memory.cells.erase w.state.memory.next).get? c = _
    have hne : w.state.memory.next ≠ c := by omega
    rw [Table.get?_erase, if_neg hne, h.cells c hc]
    show ((w.state.memory.cells.insert w.state.memory.next new).get? c).map _ = _
    rw [Table.get?_insert, if_neg hne]
  next := Nat.le_trans (Nat.le_succ _) h.next
  objects := h.objects
  numbered := h.numbered
  bodies := h.bodies
  helpers := h.helpers
  met := h.met
  found := h.found
  finds := h.finds

/-- A proxy was asked what it stands for. -/
theorem asked (base : Nat) (hn : w.state.heap.Numbered) (p : Address) :
    w.Puts base (fun _ => id) (w.asked p) where
  cells _ _ := (congrFun Option.map_id _).symm
  next := Nat.le_refl _
  objects i := by
    by_cases hi : w.state.heap.nextObject = i
    · subst hi
      have hbox : (w.asked p).state.heap.objects.get? w.state.heap.nextObject =
          some (Heap.box ((w.state.heap.nativeOf p).getD .null).octets) :=
        (Table.get?_insert _ _ _ _).trans (if_pos rfl)
      exact .inr ⟨Table.get?_eq_none.2 hn.next_notMem, _, _, hbox⟩
    · exact .inl ((Table.get?_insert _ _ _ _).trans (if_neg hi))
  numbered hn := hn.allocate _
  bodies := rfl
  helpers := rfl
  met := id
  found := .inl
  finds info := w.state.findFactory_countCall _ info

end World.Puts

namespace Act

variable {w : World σ} {call : Invoker σ}

/-- A method does what its body does; what it answers is ignored. -/
theorem ends_discard_of_body {n m : Nat} {receiver answer : Option Address} {args : List Address}
    {body : Invocation → Program σ} {u : World σ} {Q : Unit → World σ → Prop}
    {E : Failure → World σ → Prop} (hb : w.bodies[m]? = some body)
    (hrun : (body ⟨receiver, args⟩).run (callAt n) (w.countCall m) = .ok (.ok answer) u)
    (hQ : Q () u) :
    Ends ((callMethod m receiver args >>= fun a => discard (ofForeign a) : Act σ Unit)
      (callAt (n + 1)) w) Q E := by
  have hcall : callMethod m receiver args (callAt (n + 1)) w = .ok (.ok answer) u := by
    show callAt (n + 1) m ⟨receiver, args⟩ w = _
    rw [callAt_succ, hb]
    exact hrun
  rw [bind_of_ok hcall]
  exact hQ

/-- What is done with a cell that is lent meanwhile, if nothing fails. -/
theorem ends_lent {new : Value} {act : Address → Act σ α} {Q : α → World σ → Prop}
    {E : Failure → World σ → Prop}
    (h : Ends (act (.ofCell w.state.memory.next) call (w.lend new))
      (fun a u => Q a { u with state := u.state.discard w.state.memory.next }) fun _ _ => False) :
    Ends (withCell new act call w) Q E := by
  unfold withCell
  refine ends_bind (Q := fun c u => c = w.state.memory.next ∧ u = w.lend new) ⟨rfl, rfl⟩ ?_
  rintro _ _ ⟨rfl, rfl⟩
  exact ends_ensuring (h.mono (fun _ _ hu => hu) fun _ _ hf => hf.elim)

theorem ends_withCell {new : Value} {act : Address → Act σ α} {base : Nat}
    {g : Nat → Value → Value} {E : Failure → World σ → Prop} (hb : base ≤ w.state.memory.next)
    (h : Ends (act (.ofCell w.state.memory.next) call (w.lend new))
      (fun _ u => (w.lend new).Puts base g u) fun _ _ => False) :
    Ends (withCell new act call w) (fun _ u => w.Puts base g u) E :=
  ends_lent (h.mono (fun _ _ hu => hu.lent hb) fun _ _ hf => hf)

/-- Where a promise is broken nothing follows. -/
theorem ends_ofPanic_bind {e : Except Panic α} {f : α → Act σ β} {Q : β → World σ → Prop}
    {E : Failure → World σ → Prop} (hok : ∀ a, e = .ok a → Ends (f a call w) Q E)
    (hE : ∀ p, e = .error p → E (.panic p) w) : Ends ((ofPanic e >>= f) call w) Q E := by
  cases e with
  | ok a => exact hok a rfl
  | error p => exact hE p rfl

end Act

/-- The address does not lie in a cell that is still to be made. -/
def State.Reaches (s : State) (a : Address) : Prop := ∀ c n, a = .cell c n → c < s.memory.next

namespace World

variable {w : World σ} {c offset m : Nat}

theorem get_lend_self (w : World σ) (v : Value) :
    (w.lend v).state.memory.get w.state.memory.next = v := by
  refine State.get_eq ?_
  show (w.state.memory.cells.insert _ _).get? _ = _
  rw [Table.get?_insert, if_pos rfl]

/-- What lies elsewhere is read as before. -/
theorem readAt_lend {a : Address} (ha : w.state.Reaches a) (v : Value) (n : Nat) :
    (w.lend v).state.readAt a n = w.state.readAt a n := by
  cases a with
  | cell c offset =>
    have hne : w.state.memory.next ≠ c := Nat.ne_of_gt (ha c offset rfl)
    have hget : (w.lend v).state.memory.get c = w.state.memory.get c := by
      show ((w.state.memory.cells.insert _ _).get? c).getD _ = _
      rw [Table.get?_insert, if_neg hne]
      rfl
    show (((w.lend v).state.memory.get c).skip offset).read n = _
    rw [hget]
    rfl
  | _ => rfl

/-- A pointer that was just lent points to where it was told. -/
theorem addressAt_lend (w : World σ) (c offset m : Nat) :
    ((w.lend (.plain (Address.cell c offset).octets)).countCall m).state.addressAt
      (.ofCell w.state.memory.next) = .cell c offset :=
  State.addressAt_ofCell (w.get_lend_self _) (by rintro v ⟨⟩)

/-- A pointer that was lent first points to where it was told, and no offset was lent after it. -/
theorem place_and_offset_lend {w u x : World σ} {c offset m : Nat}
    (hu : u = w.lend (.plain (Address.cell c offset).octets))
    (hx : x = (u.lend (.plain (wordOctets 0))).countCall m) :
    x.state.addressAt (.ofCell w.state.memory.next) = .cell c offset ∧
      wordAt (x.state.readAt (.ofCell u.state.memory.next) 4) 0 = 0 := by
  subst hx
  constructor
  · have hread := readAt_lend (w := u) (a := .ofCell w.state.memory.next)
      (by rintro _ _ ⟨⟩; rw [hu]; exact Nat.lt_succ_self _) (.plain (wordOctets 0)) addressSize
    subst hu
    exact (congrArg Address.ofOctets hread).trans (w.addressAt_lend c offset m)
  · have hget := u.get_lend_self (.plain (wordOctets 0))
    show wordAt ((((u.lend (.plain (wordOctets 0))).state.memory.get _).skip 0).read 4) 0 = 0
    rw [hget]
    decide

end World

namespace Engine

open Act World

variable {w : World σ} {n base c offset : Nat} {ps : List Property} {p : Property}

/-- The contents of a foreign collection are written to a container of the host. -/
theorem ends_writeCollection (hw : w.WritesBack ps) (hb : base ≤ w.state.memory.next)
    (foreign : Address) :
    Ends (writeCollection p (.cell c offset) foreign.nonNull (callAt (n + 1)) w)
      (fun _ v => w.Puts base
        ((Delivery.value (.container (w.state.contentsAt foreign))).into (.cell c offset)) v)
      fun _ v => w.Puts base (fun _ => id) v ∧
        ¬∃ ms, w.state.bridge.helpers.collection p = .ok ms := by
  unfold writeCollection
  rw [Act.state_bind]
  refine ends_ofPanic_bind (fun ms hms => ?_) fun q hq => ⟨.refl _ _, ?_⟩
  · let u := w.lend (.plain Address.descriptor.octets)
    have hu : u.bodies[ms.2]? = _ := hw.collection hms
    refine ends_withCell hb (ends_withCell (Nat.le_succ_of_le hb)
      (ends_discard_of_body hu run_writeCollection ?_))
    rw [u.addressAt_lend c offset ms.2, Address.nonNull_getD]
    exact (Puts.countCall base _ ms.2).trans (.storeAt _ _ _ _)
  · rintro ⟨ms, hms⟩
    rw [hms] at hq
    cases hq

/-- The path of a foreign soft reference is written to one of the host. -/
theorem ends_writeSoftReference (hw : w.WritesBack ps) (hb : base ≤ w.state.memory.next)
    (foreign : Address) :
    Ends (writeSoftReference p (.cell c offset) foreign.nonNull (callAt (n + 1)) w)
      (fun _ v => w.Puts base
        ((Delivery.value (.string (w.state.pathAt foreign))).into (.cell c offset)) v)
      fun _ v => w.Puts base (fun _ => id) v ∧
        ¬∃ ms, w.state.bridge.helpers.softReference p = .ok ms := by
  unfold writeSoftReference
  rw [Act.state_bind]
  refine ends_ofPanic_bind (fun ms hms => ?_) fun q hq => ⟨.refl _ _, ?_⟩
  · refine ends_withCell hb
      (ends_discard_of_body (hw.softReference hms) run_writeSoftReference ?_)
    rw [w.addressAt_lend c offset ms.2, Address.nonNull_getD]
    exact (Puts.countCall base _ ms.2).trans (.storeAt _ _ _ _)
  · rintro ⟨ms, hms⟩
    rw [hms] at hq
    cases hq

/-- In the world with the pointer and the offset that it is lent, the method of a struct copies its
octets to the place pointed to. -/
theorem run_unboxStruct_lent {call : Invoker σ} {u x : World σ} (size m : Nat) (data : Address)
    (hu : u = w.lend (.plain (Address.cell c offset).octets))
    (hx : x = (u.lend (.plain (wordOctets 0))).countCall m) :
    ((Library.unboxStruct size ⟨none, [.ofCell w.state.memory.next, .ofCell u.state.memory.next,
      data]⟩).toProgram).run call x = .ok (.ok none)
        { x with state := x.state.writeAt (.cell c offset) (x.state.readAt data size) } := by
  obtain ⟨hplace, hoffset⟩ := place_and_offset_lend hu hx
  rw [run_unboxStruct, hplace, hoffset, List.eq_nil_of_length_eq_zero (State.length_readAt _ _ 0),
    List.nil_append]

/-- The octets of a foreign struct are written to one of the host. -/
theorem ends_unboxStruct {size : Nat} {f : StructFactory} (hb : base ≤ w.state.memory.next)
    (hbody : w.bodies[f.toNative]? = some fun inv => (Library.unboxStruct size inv).toProgram)
    (data : Address) {E : Failure → World σ → Prop} :
    Ends (unboxStruct f (.cell c offset) data (callAt (n + 1)) w)
      (fun _ v => ∃ os, w.Puts base ((Delivery.octets os).into (.cell c offset)) v ∧
        (w.state.Reaches data → os = w.state.readAt data size)) E := by
  let u := w.lend (.plain (Address.cell c offset).octets)
  let x := (u.lend (.plain (wordOctets 0))).countCall f.toNative
  have hstored : Ends (unboxStruct f (.cell c offset) data (callAt (n + 1)) w)
      (fun _ v => w.Puts base ((Delivery.octets (x.state.readAt data size)).into (.cell c offset)) v)
      E := by
    unfold unboxStruct
    refine ends_withCell hb (ends_withCell (Nat.le_succ_of_le hb) ?_)
    refine ends_discard_of_body (w := u.lend (.plain (wordOctets 0))) hbody
      (run_unboxStruct_lent size f.toNative data rfl rfl) ?_
    exact (Puts.countCall base _ f.toNative).trans (.writeAt _ _ _ _)
  refine hstored.mono (fun _ v hv => ⟨_, hv, fun hdata => ?_⟩) fun _ _ hf => hf
  have hread := readAt_lend hdata (.plain (Address.cell c offset).octets) size
  refine Eq.trans (readAt_lend (w := u) (fun c n hc => ?_) _ size) hread
  exact Nat.lt_succ_of_lt (hdata c n hc)

/-- What is found of a struct is what was met, or what looking it up finds. -/
theorem ends_structFactory {call : Invoker σ} (base : Nat) (info : StructInfo)
    {E : Failure → World σ → Prop} :
    Ends (structFactory info call w)
      (fun found v => w.Puts base (fun _ => id) v ∧ v.state.memory = w.state.memory ∧
        v.state.heap = w.state.heap ∧ match found with
          | .ok f => w.state.bridge.factories.get? info.fullName = some f ∨
              w.state.foreign.findFactory info = .ok f
          | .error _ => ¬∃ f, w.state.bridge.factories.get? info.fullName = some f ∨
              w.state.foreign.findFactory info = .ok f)
      E := by
  unfold structFactory
  rw [Act.state_bind]
  cases hget : w.state.bridge.factories.get? info.fullName with
  | some f => exact ⟨.refl _ _, rfl, rfl, .inl rfl⟩
  | none =>
    cases hfind : w.state.foreign.findFactory info with
    | error e =>
      refine ⟨.refl _ _, rfl, rfl, ?_⟩
      rintro ⟨f, hf | hf⟩ <;> cases hf
    | ok f => exact ⟨.meet hget hfind (.structFactory info.fullName) rfl, rfl, rfl, .inr rfl⟩

end Engine

namespace Marshaller

open Act World

variable {w : World σ} {n base c offset : Nat} {ps : List Property} {p : Property} {m : Marshaller}

/-- Data is looked at unless there is none. -/
theorem ends_data_bind {call : Invoker σ} {foreign : Address} {f : Address → Act σ α}
    {Q : α → World σ → Prop} {E : Failure → World σ → Prop}
    (hok : foreign ≠ .null → Ends (f foreign call w) Q E)
    (hE : ∀ e, foreign = .null → E (.panic e) w) :
    Ends ((ofPanic (p.data foreign) >>= f) call w) Q E := by
  refine ends_ofPanic_bind (fun data hd => ?_) fun e he => hE e ?_
  · obtain ⟨rfl, hne⟩ := Property.data_eq_ok hd
    exact hok hne
  · by_contra hne
    rw [p.data_of_ne_null hne] at he
    cases he

/-- The octets of a struct are delivered by a method of the library, once its type was looked up. -/
theorem ends_toHost_struct (hw : w.WritesBack ps) (hb : base ≤ w.state.memory.next) (hp : p ∈ ps)
    (foreign : Address) :
    Ends (struct.toHost p (.cell c offset) foreign (callAt (n + 1)) w)
      (fun _ v => ∃ d : Delivery, w.Puts base (d.into (.cell c offset)) v ∧
        (w.state.Reaches foreign → d = struct.delivery p w.state foreign))
      fun _ v => w.Puts base (fun _ => id) v ∧ ¬struct.Accepts p w.state foreign := by
  refine ends_ofPanic_bind (fun info hinfo => ?_) fun e he => ⟨.refl _ _, ?_⟩
  · refine ends_bind (Engine.ends_structFactory base info) ?_
    rintro (e | f) v ⟨hv, hmemory, hheap, hfound⟩
    · refine ⟨hv, ?_⟩
      rintro ⟨⟨info', f, hinfo', hf⟩, -⟩
      cases hinfo.symm.trans hinfo'
      exact hfound ⟨f, hf⟩
    · refine ends_data_bind (fun _ => ?_) fun _ he => ⟨hv, fun h => h.2 he⟩
      have hbody := hw.struct hp hinfo (hfound.imp_right fun hf => ⟨info, rfl, hf⟩)
      rw [← hv.bodies] at hbody
      refine (Engine.ends_unboxStruct (Nat.le_trans hb hv.next) hbody foreign).mono ?_
        fun _ _ h => h
      rintro _ u ⟨os, hu, hos⟩
      refine ⟨_, hv.trans hu, fun hreach => congrArg Delivery.octets ?_⟩
      have hread : v.state.readAt foreign p.size = w.state.readAt foreign p.size := by
        unfold State.readAt
        rw [hmemory, hheap]
      rw [← hread]
      exact hos fun c' o' hc => by rw [hmemory]; exact hreach c' o' hc
  · rintro ⟨⟨info, -, hinfo, -⟩, -⟩
    rw [hinfo] at he
    cases he

/-- A value that is accepted is delivered as it was left, and nothing is changed if it is not. -/
theorem ends_toHost (hw : w.WritesBack ps) (hn : w.state.heap.Numbered)
    (hb : base ≤ w.state.memory.next) (hp : p ∈ ps) (m : Marshaller) (foreign : Address) :
    Ends (m.toHost p (.cell c offset) foreign (callAt (n + 1)) w)
      (fun _ v => ∃ d : Delivery, w.Puts base (d.into (.cell c offset)) v ∧
        ((m = .struct → w.state.Reaches foreign) → d = m.delivery p w.state foreign))
      fun _ v => w.Puts base (fun _ => id) v ∧ ¬m.Accepts p w.state foreign := by
  cases m with
  | bool =>
    refine ends_ofPanic_bind (fun mask hmask => ends_data_bind (fun _ => ?_) fun e he => ?_)
      fun e he => ?_
    · refine ⟨_, .setFlag base c offset mask _, fun _ => ?_⟩
      unfold delivery
      rw [hmask]
    · exact ⟨.refl _ _, fun h => h.2 he⟩
    · refine ⟨.refl _ _, ?_⟩
      rintro ⟨⟨mask, hmask⟩, -⟩
      rw [hmask] at he
      cases he
  | scalar | name | classRef =>
    refine ends_data_bind (fun _ => ?_) fun _ he => ⟨.refl _ _, fun h => h he⟩
    exact ⟨_, .writeAt _ _ _ _, fun _ => rfl⟩
  | enumeration =>
    refine ends_data_bind (fun _ => ends_ofPanic_bind (fun width hwidth => ?_) fun e he => ?_)
      fun _ he => ?_
    · have hsize : width = p.size := by
        unfold Property.enumerationWidth at hwidth
        split at hwidth <;> cases hwidth
        rfl
      subst hsize
      exact ⟨_, .writeAt _ _ _ _, fun _ => rfl⟩
    · refine ⟨.refl _ _, fun h => ?_⟩
      rw [h.1] at he
      cases he
    · exact ⟨.refl _ _, fun h => h.2 he⟩
  | text =>
    refine ends_data_bind (fun _ => ?_) fun _ he => ⟨.refl _ _, fun h => h he⟩
    exact ⟨_, .storeAt _ _ _ _, fun _ => rfl⟩
  | string => exact ⟨_, .storeAt _ _ _ _, fun _ => rfl⟩
  | object =>
    unfold toHost delivery State.nativeBehind
    dsimp only
    cases foreign.nonNull with
    | none => exact ⟨_, .writeAt _ _ _ _, fun _ => rfl⟩
    | some proxy =>
      refine ends_bind (Q := fun native v => w.Puts base (fun _ => id) v ∧
        (native.getD .null).octets = ((w.state.heap.nativeOf proxy).getD .null).octets) ?_ ?_
      -- The method of the library answers the object that the proxy knows.
      · rw [Identity.hostOf_of_stock proxy hw.nativePtr]
        refine ⟨.asked base hn proxy, ?_⟩
        rw [Address.nonNull_getD, Address.octets_ofOctets]
      · rintro native v ⟨hv, hnative⟩
        exact ⟨_, hv.trans (.writeAt _ _ _ _), fun _ => congrArg Delivery.octets hnative⟩
  | softReference =>
    exact (Engine.ends_writeSoftReference hw hb foreign).mono
      (fun _ _ h => ⟨_, h, fun _ => rfl⟩) fun _ _ h => h
  | struct =>
    exact (ends_toHost_struct hw hb hp foreign).mono
      (fun _ _ ⟨d, hd, hsame⟩ => ⟨d, hd, fun hreach => hsame (hreach rfl)⟩) fun _ _ h => h
  | collection =>
    exact (Engine.ends_writeCollection hw hb foreign).mono
      (fun _ _ h => ⟨_, h, fun _ => rfl⟩) fun _ _ h => h

end Marshaller

end TwinHeap
