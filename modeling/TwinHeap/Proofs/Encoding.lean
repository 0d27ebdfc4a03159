import TwinHeap.Proofs.Severing
import TwinHeap.Proofs.Staging

/-!
# Encoding — what is passed and what is copied is the same foreign value

A host value goes to the foreign side in two ways: a call passes a pointer to it (`Marshaller.pass`),
and a copy writes it to foreign memory (`Marshaller.toForeign`). `passed_as_copied` compares what
foreign code finds in the end. Only flags differ: a call shows the octet as the host stores it, a copy
writes one or zero.
-/

namespace TwinHeap

variable {σ α β : Type}

/-- Two actions end alike: both answer, and `Q` relates the answers and what they left, or both fail
in the same way. -/
def EndAlike (r : EStateM.Result Failure (World σ) α) (r' : EStateM.Result Failure (World σ) β)
    (Q : α → World σ → β → World σ → Prop) : Prop :=
  match r, r' with
  | .ok a u, .ok b v => Q a u b v
  | .error f _, .error f' _ => f = f'
  | _, _ => False

theorem EndAlike.imp {r : EStateM.Result Failure (World σ) α} {r' : EStateM.Result Failure (World σ) β}
    {P Q : α → World σ → β → World σ → Prop} (h : EndAlike r r' P)
    (hPQ : ∀ a u b v, P a u b v → Q a u b v) : EndAlike r r' Q := by
  cases r <;> cases r'
  case ok.ok => exact hPQ _ _ _ _ h
  all_goals exact h

/-! ## Memory that can be written to -/

namespace State

/-- Octets can be written to the address: it lies in a cell of octets or in a living box. -/
def Writable (s : State) : Address → Prop
  | .cell c _ => ∃ os, s.memory.cells.get? c = some (.plain os)
  | .payload i => ∃ os len, s.heap.objects.get? i = some (.boxed os len)
  | _ => False

variable {s : State} {a : Address}

theorem Writable.nonNull (h : s.Writable a) : a.nonNull = some a := by
  unfold Address.nonNull
  rw [if_neg]
  rintro rfl
  exact h

/-- What was written is read. -/
theorem Writable.readAt_writeAt (h : s.Writable a) (os : List Octet) :
    (s.writeAt a os).readAt a os.length = os := by
  cases a with
  | cell c o =>
    obtain ⟨old, hold⟩ := h
    show ((Memory.get (s.memory.modify c _) c).skip o).read os.length = os
    unfold Memory.get Memory.modify
    rw [Table.get?_modify, if_pos rfl, hold]
    exact Value.read_skip_splice old os o
  | payload i =>
    obtain ⟨old, len, hold⟩ := h
    have hget : (s.writeAt (.payload i) os).heap.objects.get? i =
        some (.boxed (os ++ old.drop os.length) len) := by
      show (s.heap.objects.modify i _).get? i = _
      rw [Table.get?_modify, if_pos rfl, hold]
      rfl
    unfold readAt
    dsimp only
    rw [hget]
    simp [Value.read, Value.octets]
  | _ => exact h.elim

/-- A write neither makes memory nor takes it away. -/
theorem Writable.of_writeAt {b : Address} {os : List Octet} (h : (s.writeAt b os).Writable a) :
    s.Writable a := by
  -- What is written takes the form of what was there.
  cases a with
  | cell c o =>
    cases b with
    | cell d p =>
      obtain ⟨new, hnew⟩ := h
      change (s.memory.cells.modify d _).get? c = _ at hnew
      rw [Table.get?_modify] at hnew
      split at hnew
      · obtain ⟨v, hv, hsplice⟩ := Option.map_eq_some_iff.1 hnew
        cases v with
        | plain old => exact ⟨old, hv⟩
        | _ => cases hsplice
      · exact ⟨new, hnew⟩
    | _ => exact h
  | payload i =>
    cases b with
    | payload j =>
      obtain ⟨new, len, hnew⟩ := h
      change (s.heap.objects.modify j _).get? i = _ at hnew
      rw [Table.get?_modify] at hnew
      split at hnew
      · obtain ⟨object, hobject, hwritten⟩ := Option.map_eq_some_iff.1 hnew
        cases object with
        | boxed old n => exact ⟨old, n, hobject⟩
        | _ => cases hwritten
      · exact ⟨new, len, hnew⟩
    | _ => exact h
  | _ => exact h

/-- An address that was written is found again. -/
theorem Writable.addressAt_writeAt (h : s.Writable a) {b : Address}
    (hb : ∀ v, b = .raw v → v < octetRange 8) : (s.writeAt a b.octets).addressAt a = b := by
  have hread := h.readAt_writeAt b.octets
  rw [Address.length_octets] at hread
  unfold addressAt
  rw [show addressSize = 8 from rfl, hread]
  have hback := Address.ofOctets_octets b [] hb
  rwa [List.append_nil] at hback

end State

/-! ## Foreign values -/

/-- A value as foreign code sees it. -/
inductive ForeignValue
  | data (octets : List Octet)
  /-- A string object, by its text. -/
  | text (text : String)
  | object (address : Address)
deriving DecidableEq, Repr

namespace Marshaller

/-- Values of this form can be copied into foreign memory. -/
def isInPlace : Marshaller → Bool
  | softReference | struct | collection => false
  | _ => true

/-- The foreign value that a pointer stands for: what it points to, or the object that it is. -/
def seen (m : Marshaller) (p : Property) (s : State) (a : Address) : ForeignValue :=
  match m with
  | bool => .data (s.readAt a 1)
  | scalar | enumeration | struct => .data (s.readAt a p.size)
  | name => .data (s.readAt a 8)
  | classRef => .data (s.readAt a addressSize)
  | text => .text (s.stringAt (s.addressAt a))
  | string => .text (s.stringAt a)
  | object | softReference | collection => .object a

/-- The foreign value in foreign memory, where an object is known by a word that holds it. -/
def stored (m : Marshaller) (p : Property) (s : State) (a : Address) : ForeignValue :=
  m.seen p s (if m.isReference then s.addressAt a else a)

end Marshaller

/-- Whether the flag at an address is set. -/
def State.flagAt (s : State) (p : Property) (a : Address) : Bool :=
  match p.kind with
  | .bool mask => (s.readAt a 1).any (Octet.anyBit mask)
  | _ => false

/-- The octet of a flag that has an octet of its own. -/
def Octet.ofBool (on : Bool) : Octet := .value (if on then 1 else 0)

namespace Identity

open Act

/-- A proxy is an object of the foreign heap. -/
theorem foreign_of_proxyFor {host proxy : Address} {call : Invoker σ} {w v : World σ}
    (h : (proxyFor host : Act σ Address) call w = .ok proxy v) : ∃ i, proxy = .foreign i := by
  unfold proxyFor at h
  rw [Act.state_bind] at h
  cases hfind : w.state.findProxy host with
  | some found =>
    rw [hfind] at h
    cases h
    exact Heap.foreign_of_isAlive (State.isAlive_of_findProxy hfind)
  | none =>
    rw [hfind] at h
    obtain ⟨_, u₁, -, h⟩ := Act.ok_of_bind h
    rw [Act.state_bind] at h
    obtain ⟨_, u₂, -, h⟩ := Act.ok_of_bind h
    obtain ⟨_, u₃, -, h⟩ := Act.ok_of_bind h
    obtain ⟨b, u₄, -, h⟩ := Act.ok_of_bind h
    obtain ⟨made, u₅, hmade, h⟩ := Act.ok_of_bind h
    cases made with
    | none => cases h
    | some new =>
      obtain ⟨_, u₆, -, h⟩ := Act.ok_of_bind h
      obtain ⟨outcome, u₇, -, h⟩ := Act.ok_of_bind h
      cases outcome with
      | error e =>
        obtain ⟨_, _, -, h⟩ := Act.ok_of_bind h
        obtain ⟨_, _, -, h⟩ := Act.ok_of_bind h
        cases h
      | ok _ =>
        obtain ⟨_, _, -, h⟩ := Act.ok_of_bind h
        obtain ⟨_, _, -, h⟩ := Act.ok_of_bind h
        cases h
        -- All that is known of the proxy is that the runtime has just made it.
        have hnew : (u₄.state.instantiate b.type).1 = some proxy :=
          congrArg (fun x : EStateM.Result Failure (World σ) (Option Address) =>
            match x with
            | .ok a _ => a
            | .error _ _ => none) hmade
        unfold State.instantiate at hnew
        split at hnew
        · cases hnew
          exact ⟨_, rfl⟩
        · cases hnew

end Identity

namespace State

/-- A write leaves the texts of strings alone. -/
theorem stringAt_writeAt (s : State) (a b : Address) (os : List Octet) :
    (s.writeAt a os).stringAt b = s.stringAt b := by
  cases a with
  | payload i =>
    cases b with
    | foreign j =>
      show Heap.readString (s.heap.modify (.foreign i) _) _ = Heap.readString s.heap _
      unfold Heap.readString Heap.get? Heap.modify
      dsimp only
      rw [Table.get?_modify]
      by_cases hij : i = j
      · rw [if_pos hij]
        -- a box stays a box, and every other object stays as it is
        cases s.heap.objects.get? j with
        | none => rfl
        | some object => cases object <;> rfl
      · rw [if_neg hij]
    | _ => rfl
  | _ => rfl

/-- A new string has its text. -/
theorem stringAt_newString (s : State) (text : String) :
    (s.newString text).2.stringAt (s.newString text).1 = text := by
  show Heap.readString { s.heap with objects := s.heap.objects.insert s.heap.nextObject _, .. }
    (.foreign s.heap.nextObject) = text
  unfold Heap.readString Heap.get?
  dsimp only
  rw [Table.get?_insert, if_pos rfl]

end State

namespace Marshaller

open Act

variable {m : Marshaller} {p : Property} {host dest : Address} {slot : Slot} {call : Invoker σ}
  {w : World σ}

/-! ## Data -/

/-- The octets of the foreign value that a copy makes of the data at `host`. -/
def octetsOf (m : Marshaller) (p : Property) (s : State) (host : Address) : List Octet :=
  match m with
  | bool => [.ofBool (s.flagAt p host)]
  | scalar | enumeration => s.readAt host p.size
  | name => (NameRecord.ofHostName (s.nameAt host)).octets
  | classRef => s.readAt host addressSize
  | _ => []

/-- What is copied as octets, without the making of an object. -/
def isData : Marshaller → Bool
  | bool | scalar | enumeration | name | classRef => true
  | _ => false

theorem length_octets (r : NameRecord) : r.octets.length = 8 := by
  unfold NameRecord.octets wordOctets
  simp

variable (host call) in
/-- Data is copied by one write. -/
theorem toForeign_data (hm : Marshaller.ofTag p.kind.tag = some m) (hd : m.isData = true)
    (hwidth : m = enumeration → p.size ∈ [1, 2, 4, 8]) (hnull : dest ≠ .null) :
    m.toForeign p host dest call w =
      .ok () { w with state := w.state.writeAt dest (m.octetsOf p w.state host) } := by
  unfold toForeign
  rw [p.data_of_ne_null hnull]
  cases m with
  | bool =>
    obtain ⟨mask, hkind⟩ : ∃ mask, p.kind = .bool mask := by
      cases hk : p.kind <;> rw [hk] at hm <;> first | exact ⟨_, rfl⟩ | cases hm
    unfold octetsOf Property.flagMask State.flagAt
    rw [hkind]
    rfl
  | enumeration =>
    have hcontains : [1, 2, 4, 8].contains p.size = true := by simpa using hwidth rfl
    unfold Property.enumerationWidth
    rw [if_pos hcontains]
    rfl
  | scalar | name | classRef => rfl
  | _ => cases hd

/-- What a copy has written is found there. -/
theorem stored_data (hd : m.isData = true) {s : State}
    (hdest : s.Writable dest) :
    m.stored p (s.writeAt dest (m.octetsOf p s host)) dest = .data (m.octetsOf p s host) := by
  have hread := hdest.readAt_writeAt (m.octetsOf p s host)
  cases m with
  | bool => exact congrArg ForeignValue.data hread
  | scalar | enumeration | classRef =>
    unfold octetsOf at hread ⊢
    rw [State.length_readAt] at hread
    exact congrArg ForeignValue.data hread
  | name =>
    rw [show (octetsOf name p s host).length = _ from length_octets _] at hread
    exact congrArg ForeignValue.data hread
  | _ => cases hd

variable (p host call) in
/-- What a call is passed of data: the host's own octets, or a record with those of a copy. -/
theorem pass_data (hd : m.isData = true) (hslot : w.state.Writable slot.staging) :
    ∃ a u, m.pass p host slot false call w = .ok (a, none) u ∧
      m.seen p u.state a =
        .data (if m = bool then w.state.readAt host 1 else m.octetsOf p w.state host) := by
  have hread := hslot.readAt_writeAt (m.octetsOf p w.state host)
  cases m with
  | bool => exact ⟨host, w, rfl, rfl⟩
  | scalar | enumeration => exact ⟨host, w, rfl, rfl⟩
  | name =>
    rw [show (octetsOf name p w.state host).length = _ from length_octets _] at hread
    exact ⟨slot.staging, _, rfl, congrArg ForeignValue.data hread⟩
  | classRef =>
    rw [show (octetsOf classRef p w.state host).length = _ from State.length_readAt _ host _] at hread
    exact ⟨slot.staging, _, rfl, congrArg ForeignValue.data hread⟩
  | _ => cases hd

/-! ## Texts -/

variable (p host call) in
/-- A text is copied as a new string, which a word in foreign memory refers to. -/
theorem toForeign_text (hm : m = text ∨ m = string) (hnull : dest ≠ .null) :
    m.toForeign p host dest call w = .ok () { w with
      state := (w.state.newString (w.state.textAt host)).2.writeAt dest
        (Address.foreign w.state.heap.nextObject).octets } := by
  unfold toForeign
  rw [p.data_of_ne_null hnull]
  obtain rfl | rfl := hm <;> rfl

theorem stored_text (hm : m = text ∨ m = string) {s : State} {content : String}
    (hdest : (s.newString content).2.Writable dest) :
    m.stored p ((s.newString content).2.writeAt dest (Address.foreign s.heap.nextObject).octets) dest =
      .text content := by
  have haddress := hdest.addressAt_writeAt (b := .foreign s.heap.nextObject) nofun
  have hstring := (s.newString content).2.stringAt_writeAt dest (.foreign s.heap.nextObject)
    (Address.foreign s.heap.nextObject).octets
  have hnew := s.stringAt_newString content
  obtain rfl | rfl := hm
  all_goals
    refine congrArg ForeignValue.text ?_
    show State.stringAt _ (State.addressAt _ dest) = content
    rw [haddress, hstring]
    exact hnew

variable (p host call) in
/-- A call is passed a new string, or a record that refers to it. -/
theorem pass_text (hm : m = text ∨ m = string) (hslot : w.state.Writable slot.staging) :
    ∃ a made u, m.pass p host slot false call w = .ok (a, made) u ∧
      m.seen p u.state a = .text (w.state.textAt host) := by
  obtain rfl | rfl := hm
  · have hslot' : (w.state.newString (w.state.textAt host)).2.Writable slot.staging := hslot
    exact ⟨slot.staging, _, _, rfl, stored_text (m := text) (p := p) (.inl rfl) hslot'⟩
  · exact ⟨_, _, _, rfl, congrArg ForeignValue.text (w.state.stringAt_newString _)⟩

/-- Both ways make a string of the text. -/
theorem passed_as_copied_text (hm : m = text ∨ m = string) (hslot : w.state.Writable slot.staging)
    (hnull : dest ≠ .null)
    (hdest : ∀ v, m.toForeign p host dest call w = .ok () v → v.state.Writable dest) :
    EndAlike (m.pass p host slot false call w) (m.toForeign p host dest call w)
      fun passed u _ v => m.seen p u.state passed.1 = m.stored p v.state dest := by
  obtain ⟨a, made, u, hpass, hseen⟩ := pass_text p host call hm hslot
  have hcopy := toForeign_text p host call (w := w) hm hnull
  have hwritable := (hdest _ hcopy).of_writeAt
  rw [hpass, hcopy]
  exact hseen.trans (stored_text hm hwritable).symm

/-! ## Objects -/

/-- Both ways ask for the same proxy. -/
theorem passed_as_copied_object (hnull : dest ≠ .null)
    (hdest : ∀ v, object.toForeign p host dest call w = .ok () v → v.state.Writable dest) :
    EndAlike (object.pass p host slot false call w) (object.toForeign p host dest call w)
      fun passed u _ v => object.seen p u.state passed.1 = object.stored p v.state dest := by
  have hcopy : object.toForeign p host dest call w =
      (proxyOrNull (w.state.addressAt host) >>= fun a => edit fun s => s.writeAt dest a.octets)
        call w := by
    unfold toForeign
    rw [p.data_of_ne_null hnull]
    rfl
  rw [hcopy] at hdest ⊢
  cases hproxy : (proxyOrNull (w.state.addressAt host) : Act σ Address) call w with
  | error f u =>
    have hpresent : object.present p host slot call w = .error f u :=
      Act.bind_of_error (f := fun a => (pure (a, none) : Act σ (Address × Option Address))) hproxy
    have hpass : object.pass p host slot false call w = .error f u := Act.bind_of_error hpresent
    rw [hpass, Act.bind_of_error hproxy]
    rfl
  | ok a u =>
    have hpresent : object.present p host slot call w = .ok (a, none) u := Act.bind_of_ok hproxy
    have hpass : object.pass p host slot false call w = .ok (a, none) u := Act.bind_of_ok hpresent
    rw [hpass, Act.bind_of_ok hproxy]
    have hwritable : u.state.Writable dest :=
      State.Writable.of_writeAt (hdest _ (Act.bind_of_ok hproxy) :
        ({ u with state := u.state.writeAt dest a.octets } : World σ).state.Writable dest)
    -- The address of a proxy and null both fit into the octets of an address.
    have hfits (v : Nat) (ha : a = .raw v) : v < octetRange 8 := by
      cases hnull : (w.state.addressAt host).nonNull with
      | some target =>
        have hmade : (Identity.proxyFor target : Act σ Address) call w = .ok a u := by
          rw [← hproxy]
          unfold proxyOrNull
          rw [hnull]
        obtain ⟨i, rfl⟩ := Identity.foreign_of_proxyFor hmade
        cases ha
      | none =>
        unfold proxyOrNull at hproxy
        rw [hnull] at hproxy
        cases hproxy
        cases ha
        decide
    exact congrArg ForeignValue.object (hwritable.addressAt_writeAt hfits).symm

/-! ## Both ways -/

/-- Both ways lead to the same octets, but for a flag: there the call shows the octet of the host. -/
theorem passed_as_copied_data (hm : Marshaller.ofTag p.kind.tag = some m) (hd : m.isData = true)
    (hwidth : m = enumeration → p.size ∈ [1, 2, 4, 8]) (hslot : w.state.Writable slot.staging)
    (hnull : dest ≠ .null)
    (hdest : ∀ v, m.toForeign p host dest call w = .ok () v → v.state.Writable dest) :
    EndAlike (m.pass p host slot false call w) (m.toForeign p host dest call w) fun passed u _ v =>
      (m.seen p u.state passed.1 = m.stored p v.state dest ↔
        (m = bool → w.state.readAt host 1 = [.ofBool (w.state.flagAt p host)])) := by
  obtain ⟨a, u, hpass, hseen⟩ := pass_data p host call hd hslot
  have hcopy := toForeign_data host call (w := w) hm hd hwidth hnull
  have hwritable := (hdest _ hcopy).of_writeAt
  rw [hpass, hcopy]
  show m.seen p u.state a = m.stored p (w.state.writeAt dest _) dest ↔ _
  rw [hseen, stored_data hd hwritable]
  by_cases hbool : m = bool
  · subst hbool
    simp [octetsOf]
  · simp [hbool]

/-- Wherever the two ways to the foreign side lead to an answer, foreign code finds the same value
behind what was passed and in what was copied, but a flag only if its octet has no other bits. Where
one of them fails, so does the other. -/
theorem passed_as_copied (hm : Marshaller.ofTag p.kind.tag = some m)
    (hin : m.isInPlace = true) (hwidth : m = enumeration → p.size ∈ [1, 2, 4, 8])
    (hslot : w.state.Writable slot.staging) (hnull : dest ≠ .null)
    (hdest : ∀ v, m.toForeign p host dest call w = .ok () v → v.state.Writable dest) :
    EndAlike (m.pass p host slot false call w) (m.toForeign p host dest call w) fun passed u _ v =>
      (m.seen p u.state passed.1 = m.stored p v.state dest ↔
        (m = bool → w.state.readAt host 1 = [.ofBool (w.state.flagAt p host)])) := by
  cases m with
  | bool | scalar | enumeration | name | classRef =>
    exact passed_as_copied_data hm rfl hwidth hslot hnull hdest
  | text =>
    exact (passed_as_copied_text (.inl rfl) hslot hnull hdest).imp fun _ _ _ _ h => iff_of_true h nofun
  | string =>
    exact (passed_as_copied_text (.inr rfl) hslot hnull hdest).imp fun _ _ _ _ h => iff_of_true h nofun
  | object =>
    exact (passed_as_copied_object hnull hdest).imp fun _ _ _ _ h => iff_of_true h nofun
  | softReference | struct | collection => cases hin

end Marshaller

namespace Sample

/-- A bridge with the octets of a host value in cell 0, a slot in cell 1 and foreign memory in
cell 2. -/
def crossing (octets : List Octet) : World Unit :=
  let w := world [] []
  { w with state.memory :=
    ⟨⟨[(0, .plain octets), (1, .plain (List.replicate 16 (.value 0))),
      (2, .plain (List.replicate 8 (.value 0)))]⟩, 3⟩ }

def number : Property := .ofKind "Value" (.scalar .int32)

/-- A flag in one bit of an octet. -/
def flag : Property := .ofKind "Value" (.bool 4)

end Sample

namespace Marshaller

/-- `passed_as_copied` for a number. -/
theorem passed_as_copied_of_number :
    ∃ w : World Unit, w.state.readAt (.ofCell 0) 4 = [7, 0, 0, 1].map .value ∧
      EndAlike (scalar.pass Sample.number (.ofCell 0) ⟨1, 0⟩ false (callAt 0) w)
        (scalar.toForeign Sample.number (.ofCell 0) (.ofCell 2) (callAt 0) w)
        fun passed u _ v =>
          (scalar.seen Sample.number u.state passed.1 =
              scalar.stored Sample.number v.state (.ofCell 2) ↔
            (scalar = bool → w.state.readAt (.ofCell 0) 1 =
              [.ofBool (w.state.flagAt Sample.number (.ofCell 0))])) := by
  refine ⟨Sample.crossing ([7, 0, 0, 1].map .value), by decide, ?_⟩
  refine passed_as_copied rfl rfl nofun ⟨_, rfl⟩ nofun fun v h => ?_
  cases h
  exact ⟨_, rfl⟩

/-- A set flag that shares its octet is passed as that octet, but copied as one. -/
theorem flag_not_passed_as_copied :
    ∃ (w u v : World Unit) (a : Address),
      bool.pass Sample.flag (.ofCell 0) ⟨1, 0⟩ false (callAt 0) w = .ok (a, none) u ∧
      bool.toForeign Sample.flag (.ofCell 0) (.ofCell 2) (callAt 0) w = .ok () v ∧
      bool.seen Sample.flag u.state a = .data [.value 5] ∧
      bool.stored Sample.flag v.state (.ofCell 2) = .data [.value 1] := by
  refine ⟨Sample.crossing [.value 5], _, _, _, rfl, rfl, ?_, ?_⟩ <;> decide

end Marshaller

end TwinHeap
