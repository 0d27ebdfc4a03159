import TwinHeap.Proofs.Effects
import TwinHeap.Proofs.Encoding

/-!
# Round trips — numbers that are copied to the foreign side and back

A number is copied to foreign memory and from there into a variable of the host: `round_trip` says
which octets are written on the way, and that these are all. Integers, floats and enumerations come
back octet by octet. A flag crosses as one or zero, so on its return it sets all bits of its mask or
none: it comes back as it was just if its bits agreed.
-/

namespace TwinHeap

variable {σ : Type}

/-! ## Octets of memory -/

/-- Where one octet lies: in a cell of storage, or in a box of the foreign heap. -/
inductive Site
  | cell (index offset : Nat)
  | box (index offset : Nat)
deriving DecidableEq, Repr

/-- Where the octet lies that is `k` behind an address, if there is memory. -/
def Address.site : Address → Nat → Option Site
  | cell c offset, k => some (.cell c (offset + k))
  | payload i, k => some (.box i k)
  | _, _ => none

namespace State

variable {s : State} {a : Address} {os : List Octet}

def octetAt (s : State) : Site → Octet
  | .cell c k => (s.memory.get c).octetAt k
  | .box i k =>
    match s.heap.objects.get? i with
    | some (.boxed os _) => (Value.plain os).octetAt k
    | _ => .zero

/-- A write changes no octet but those that it writes. -/
theorem octetAt_writeAt {l : Site} (h : ∀ k < os.length, a.site k ≠ some l) :
    (s.writeAt a os).octetAt l = s.octetAt l := by
  cases a with
  | cell c offset =>
    cases l with
    | box i k => rfl
    | cell d k =>
      by_cases hd : d = c
      · subst hd
        -- An octet between the ends of the write would be one of the sites that the hypothesis
        -- excludes.
        have hout : ¬(offset ≤ k ∧ k < offset + os.length) := by
          rintro ⟨hle, hlt⟩
          refine h (k - offset) (by omega) ?_
          show some (Site.cell d (offset + (k - offset))) = _
          rw [Nat.add_sub_cancel' hle]
        show Value.octetAt (Memory.get (s.memory.modify d _) d) k = (s.memory.get d).octetAt k
        unfold Memory.get Memory.modify
        rw [Table.get?_modify, if_pos rfl]
        cases s.memory.cells.get? d with
        | none => rfl
        | some v =>
          cases v with
          | plain old => exact (Value.octetAt_splice old os offset k).trans (if_neg hout)
          | _ => rfl
      · show Value.octetAt (Memory.get (s.memory.modify c _) d) k = (s.memory.get d).octetAt k
        unfold Memory.get Memory.modify
        rw [Table.get?_modify, if_neg (Ne.symm hd)]
  | payload i =>
    cases l with
    | cell d k => rfl
    | box j k =>
      by_cases hj : j = i
      · subst hj
        -- A payload is overwritten from its start.
        have hout : os.length ≤ k := Nat.le_of_not_lt fun hk => h k hk rfl
        unfold octetAt
        dsimp only
        rw [show (s.writeAt (.payload j) os).heap.objects.get? j =
          (s.heap.objects.modify j _).get? j from rfl, Table.get?_modify, if_pos rfl]
        cases s.heap.objects.get? j with
        | none => rfl
        | some object =>
          cases object with
          | boxed old len =>
            show Value.octetAt (.plain (os ++ old.drop os.length)) k = Value.octetAt (.plain old) k
            unfold Value.octetAt Value.octets
            dsimp only
            rw [List.getElem?_append_right hout, List.getElem?_drop, Nat.add_sub_cancel' hout]
          | _ => rfl
      · unfold octetAt
        dsimp only
        rw [show (s.writeAt (.payload i) os).heap.objects.get? j =
          (s.heap.objects.modify i _).get? j from rfl, Table.get?_modify, if_neg (Ne.symm hj)]
  | _ => rfl

/-- Memory stays memory when it is written to. -/
theorem Writable.writeAt (h : s.Writable a) (b : Address) (os : List Octet) :
    (s.writeAt b os).Writable a := by
  cases a with
  | cell c o =>
    obtain ⟨old, hold⟩ := h
    cases b with
    | cell d p =>
      by_cases hd : d = c
      · refine ⟨Value.front old p ++ (os ++ old.drop (p + os.length)), ?_⟩
        show (s.memory.cells.modify d _).get? c = _
        rw [Table.get?_modify, if_pos hd, hold]
        rfl
      · refine ⟨old, ?_⟩
        show (s.memory.cells.modify d _).get? c = _
        rw [Table.get?_modify, if_neg hd, hold]
    | _ => exact ⟨old, hold⟩
  | payload i =>
    obtain ⟨old, len, hold⟩ := h
    cases b with
    | payload j =>
      by_cases hj : j = i
      · refine ⟨os ++ old.drop os.length, len, ?_⟩
        show (s.heap.objects.modify j _).get? i = _
        rw [Table.get?_modify, if_pos hj, hold]
        rfl
      · refine ⟨old, len, ?_⟩
        show (s.heap.objects.modify j _).get? i = _
        rw [Table.get?_modify, if_neg hj, hold]
    | _ => exact ⟨old, len, hold⟩
  | _ => exact h.elim

end State

/-! ## Numbers -/

namespace Kind

/-- The values of the kind are numbers: flags, integers, floats, and enumerations of a width that
crosses. -/
def IsNumber : Kind → Prop
  | bool _ | scalar _ => True
  | enumeration width => width ∈ [1, 2, 4, 8]
  | _ => False

/-- Where `old` lay there lies the value of `src`: of a flag the bits of its mask, beside those that
were there. -/
def Restores (k : Kind) (src old new : List Octet) : Prop :=
  match k with
  | bool mask => ∃ v o n, src = [v] ∧ old = [o] ∧ new = [n] ∧
      n.byte &&& mask = v.byte &&& mask ∧ ∀ bits, mask &&& bits = 0 → n.byte &&& bits = o.byte &&& bits
  | _ => new = src

/-- A flag has all bits of its mask set, or none. -/
def Agrees (k : Kind) (src : List Octet) : Prop :=
  ∀ mask, k = bool mask → ∀ v ∈ src, v.byte &&& mask = 0 ∨ v.byte &&& mask = mask

/-- What is found where a value was brought back to: of a flag the bits of its mask are all set if one
of them was. -/
def broughtBack (k : Kind) (src old : List Octet) : List Octet :=
  match k with
  | bool mask => old.map (Octet.setBits mask (src.any (Octet.anyBit mask)))
  | _ => src

/-- The octets that are written to bring back what lies in foreign memory. -/
def written (k : Kind) (data old : List Octet) : List Octet :=
  match k with
  | bool mask => old.map (Octet.setBits mask (data.any Octet.isSet))
  | _ => data

theorem length_broughtBack {k : Kind} {src old : List Octet} {n : Nat} (hsrc : src.length = n)
    (hold : old.length = n) : (k.broughtBack src old).length = n := by
  cases k with
  | bool mask => exact (List.length_map _).trans hold
  | _ => exact hsrc

/-- The bit of a flag that has just one agrees with itself. -/
theorem agrees_of_bit {mask : UInt8} (hmask : mask ∈ [1, 2, 4, 8, 16, 32, 64, 128])
    (src : List Octet) : (bool mask).Agrees src := by
  have hbit : ∀ mask : UInt8, mask ∈ [1, 2, 4, 8, 16, 32, 64, 128] → ∀ b : BitVec 8,
      UInt8.ofBitVec b &&& mask = 0 ∨ UInt8.ofBitVec b &&& mask = mask := by decide +kernel
  rintro _ ⟨⟩ v -
  exact hbit mask hmask v.byte.toBitVec

/-- A value comes back as it was just if its bits agree. -/
theorem restores_broughtBack {k : Kind} {src old : List Octet}
    (hsrc : ∀ mask, k = bool mask → src.length = 1) (hold : ∀ mask, k = bool mask → old.length = 1) :
    k.Restores src old (k.broughtBack src old) ↔ k.Agrees src := by
  cases k with
  | bool mask =>
    obtain ⟨v, rfl⟩ := List.length_eq_one_iff.1 (hsrc mask rfl)
    obtain ⟨o, rfl⟩ := List.length_eq_one_iff.1 (hold mask rfl)
    have hall : (bool mask).Agrees [v] ↔ v.byte &&& mask = 0 ∨ v.byte &&& mask = mask := by
      constructor
      · exact fun h => h mask rfl v (List.mem_singleton.2 rfl)
      · rintro h _ ⟨⟩ v' hv
        rwa [List.mem_singleton.1 hv]
    -- Under the mask, what is brought back has all bits or none.
    have hbits := Octet.setBits_and mask (Octet.anyBit mask v) o
    have hnew : (bool mask).broughtBack [v] [o] = [o.setBits mask (Octet.anyBit mask v)] := by
      show [o.setBits mask (Octet.anyBit mask v || false)] = _
      rw [Bool.or_false]
    rw [hall, hnew]
    constructor
    · rintro ⟨_, _, _, ⟨⟩, ⟨⟩, ⟨⟩, hmask, -⟩
      rw [hbits] at hmask
      cases hany : Octet.anyBit mask v with
      | true =>
        rw [hany] at hmask
        exact .inr hmask.symm
      | false =>
        rw [hany] at hmask
        exact .inl hmask.symm
    · intro h
      refine ⟨v, o, _, rfl, rfl, rfl, hbits.trans ?_, fun bits hd => Octet.and_setBits hd _ o⟩
      cases hany : Octet.anyBit mask v with
      | true => exact (h.resolve_left (bne_iff_ne.1 hany)).symm
      | false => exact (bne_eq_false_iff_eq.1 hany).symm
  | _ => exact iff_of_true rfl fun _ hk => by cases hk

end Kind

namespace Marshaller

open Act

variable {m : Marshaller} {p : Property} {host foreign back : Address} {call : Invoker σ}
  {w : World σ}

variable (host call) in
/-- Numbers are copied to the foreign side by one write of their octets. -/
theorem toForeign_number (hm : Marshaller.ofTag p.kind.tag = some m) (hk : p.kind.IsNumber)
    (hsize : p.size = p.kind.hostLayout.size) (hnull : foreign ≠ .null) :
    (m.octetsOf p w.state host).length = p.size ∧
      m.toForeign p host foreign call w =
        .ok () { w with state := w.state.writeAt foreign (m.octetsOf p w.state host) } := by
  cases hkind : p.kind with
  | bool mask =>
    rw [hkind] at hm hsize
    cases hm
    exact ⟨hsize.symm, toForeign_data host call (by rw [hkind]; rfl) rfl nofun hnull⟩
  | scalar type =>
    rw [hkind] at hm
    cases hm
    exact ⟨State.length_readAt _ _ _, toForeign_data host call (by rw [hkind]; rfl) rfl nofun hnull⟩
  | enumeration width =>
    rw [hkind] at hm hk hsize
    cases hm
    refine ⟨State.length_readAt _ _ _, toForeign_data host call (by rw [hkind]; rfl) rfl ?_ hnull⟩
    exact fun _ => hsize ▸ hk
  | _ =>
    rw [hkind] at hk
    exact hk.elim

variable (back) in
/-- Numbers are brought back by one write. -/
theorem toHost_number (hm : Marshaller.ofTag p.kind.tag = some m) (hk : p.kind.IsNumber)
    (hsize : p.size = p.kind.hostLayout.size) (hnull : foreign ≠ .null) :
    m.toHost p back foreign call w = .ok () { w with
      state := w.state.writeAt back
        (p.kind.written (w.state.readAt foreign p.size) (w.state.readAt back p.size)) } := by
  unfold toHost
  rw [p.data_of_ne_null hnull]
  cases hkind : p.kind with
  | bool mask =>
    rw [hkind] at hm hsize
    cases hm
    have hone : p.size = 1 := hsize
    unfold Property.flagMask
    rw [hkind, hone]
    rfl
  | scalar type =>
    rw [hkind] at hm
    cases hm
    rfl
  | enumeration width =>
    rw [hkind] at hm hk hsize
    cases hm
    have hwidth : [1, 2, 4, 8].contains p.size = true := List.contains_iff_mem.2 (hsize ▸ hk)
    unfold Property.enumerationWidth
    rw [if_pos hwidth]
    rfl
  | _ =>
    rw [hkind] at hk
    exact hk.elim

/-- What is written on the way back, if foreign memory has what was copied there. -/
theorem written_octetsOf (hm : Marshaller.ofTag p.kind.tag = some m) (hk : p.kind.IsNumber)
    (hsize : p.size = p.kind.hostLayout.size) (s : State) (old : List Octet) :
    p.kind.written (m.octetsOf p s host) old = p.kind.broughtBack (s.readAt host p.size) old := by
  cases hkind : p.kind with
  | bool mask =>
    rw [hkind] at hm hsize
    cases hm
    have hone : p.size = 1 := hsize
    have hflag : (List.any [Octet.ofBool (s.flagAt p host)] Octet.isSet) = s.flagAt p host := by
      cases s.flagAt p host <;> rfl
    have hset : s.flagAt p host = (s.readAt host 1).any (Octet.anyBit mask) := by
      unfold State.flagAt
      rw [hkind]
    show old.map (Octet.setBits mask (List.any [Octet.ofBool (s.flagAt p host)] Octet.isSet)) = _
    rw [hflag, hset, hone]
    rfl
  | scalar type | enumeration width =>
    rw [hkind] at hm
    cases hm
    rfl
  | _ =>
    rw [hkind] at hk
    exact hk.elim

variable (host call) in
/-- A number that is copied to foreign memory and from there to the host is found there; of a flag the
bits of its mask are found as they were just if they agreed, and otherwise they are all set. Neither
copy writes more octets than the number has. -/
theorem round_trip (hm : Marshaller.ofTag p.kind.tag = some m) (hk : p.kind.IsNumber)
    (hsize : p.size = p.kind.hostLayout.size) (hforeign : w.state.Writable foreign)
    (hback : w.state.Writable back) :
    ∃ (there home : State) (os os' : List Octet),
      m.copy p host foreign .hostToForeign call w = .ok () { w with state := there } ∧
      m.copy p back foreign .foreignToHost call { w with state := there } =
        .ok () { w with state := home } ∧
      there = w.state.writeAt foreign os ∧ home = there.writeAt back os' ∧
      (∀ l, (∀ k < p.size, foreign.site k ≠ some l) → there.octetAt l = w.state.octetAt l) ∧
      (∀ l, (∀ k < p.size, back.site k ≠ some l) → home.octetAt l = there.octetAt l) ∧
      home.readAt back p.size =
        p.kind.broughtBack (w.state.readAt host p.size) (there.readAt back p.size) ∧
      (p.kind.Restores (w.state.readAt host p.size) (there.readAt back p.size)
        (home.readAt back p.size) ↔ p.kind.Agrees (w.state.readAt host p.size)) := by
  have hnull : foreign ≠ .null := by
    rintro rfl
    exact hforeign
  obtain ⟨hlength, hthere⟩ := toForeign_number host call hm hk hsize hnull
  let os := m.octetsOf p w.state host
  let there := w.state.writeAt foreign os
  -- Nothing lies between the two copies, so the second reads what the first has written.
  have hread : there.readAt foreign p.size = os := by
    rw [← hlength]
    exact hforeign.readAt_writeAt os
  let old := there.readAt back p.size
  let os' := p.kind.broughtBack (w.state.readAt host p.size) old
  have hwritten : p.kind.written (there.readAt foreign p.size) old = os' := by
    rw [hread]
    exact written_octetsOf hm hk hsize w.state old
  have hhome : m.copy p back foreign .foreignToHost call { w with state := there } =
      .ok () { w with state := there.writeAt back os' } := by
    rw [← hwritten]
    exact toHost_number back hm hk hsize hnull
  have hlength' : os'.length = p.size :=
    Kind.length_broughtBack (State.length_readAt _ _ _) (State.length_readAt _ _ _)
  have hfound : (there.writeAt back os').readAt back p.size = os' := by
    rw [← hlength']
    exact (hback.writeAt foreign os).readAt_writeAt os'
  have hone (a : Address) (t : State) (mask : UInt8) (hmask : p.kind = .bool mask) :
      (t.readAt a p.size).length = 1 := by
    rw [State.length_readAt, hsize, hmask]
    rfl
  refine ⟨there, there.writeAt back os', os, os', hthere, hhome, rfl, rfl,
    fun l hl => State.octetAt_writeAt (hlength ▸ hl), fun l hl => State.octetAt_writeAt (hlength' ▸ hl),
    hfound, ?_⟩
  rw [hfound]
  exact Kind.restores_broughtBack (hone host w.state) (hone back there)

end Marshaller

namespace Sample

/-- A bridge with the octet of a host value in cell 0, foreign memory in cell 1 and an octet of the
host in cell 2. -/
def ferry (src old : UInt8) : World Unit :=
  let w := world [] []
  { w with state.memory :=
    ⟨⟨[(0, .plain [.value src]), (1, .plain (List.replicate 8 (.value 170))),
      (2, .plain [.value old])]⟩, 3⟩ }

/-- A flag that has an octet of its own. -/
def wholeFlag : Property := .ofKind "Value" (.bool 255)

end Sample

namespace Marshaller

/-- `round_trip` for a flag that shares its octet. -/
theorem round_trip_of_flag :
    ∃ there home : State,
      bool.copy Sample.flag (.ofCell 0) (.ofCell 1) .hostToForeign (callAt 0) (Sample.ferry 5 3) =
        .ok () { Sample.ferry 5 3 with state := there } ∧
      bool.copy Sample.flag (.ofCell 2) (.ofCell 1) .foreignToHost (callAt 0)
          { Sample.ferry 5 3 with state := there } =
        .ok () { Sample.ferry 5 3 with state := home } ∧
      Sample.flag.kind.Restores ((Sample.ferry 5 3).state.readAt (.ofCell 0) 1)
        (there.readAt (.ofCell 2) 1) (home.readAt (.ofCell 2) 1) := by
  have hforeign : (Sample.ferry 5 3).state.Writable (.ofCell 1) := ⟨_, rfl⟩
  have hback : (Sample.ferry 5 3).state.Writable (.ofCell 2) := ⟨_, rfl⟩
  obtain ⟨there, home, _, _, hthere, hhome, -, -, -, -, -, hrestores⟩ :=
    round_trip (m := bool) (p := Sample.flag) (.ofCell 0) (callAt 0) rfl trivial rfl hforeign hback
  exact ⟨there, home, hthere, hhome, hrestores.2 (Kind.agrees_of_bit (by decide) _)⟩

/-- A flag that has an octet of its own goes as one and comes back with all bits set. -/
theorem whole_flag_not_restored :
    ∃ there home : State,
      bool.copy Sample.wholeFlag (.ofCell 0) (.ofCell 1) .hostToForeign (callAt 0) (Sample.ferry 1 0) =
        .ok () { Sample.ferry 1 0 with state := there } ∧
      bool.copy Sample.wholeFlag (.ofCell 2) (.ofCell 1) .foreignToHost (callAt 0)
          { Sample.ferry 1 0 with state := there } =
        .ok () { Sample.ferry 1 0 with state := home } ∧
      (Sample.ferry 1 0).state.readAt (.ofCell 0) 1 = [.value 1] ∧
      home.readAt (.ofCell 2) 1 = [.value 255] ∧
      ¬Sample.wholeFlag.kind.Restores ((Sample.ferry 1 0).state.readAt (.ofCell 0) 1)
        (there.readAt (.ofCell 2) 1) (home.readAt (.ofCell 2) 1) := by
  refine ⟨_, _, rfl, rfl, by decide, by decide, ?_⟩
  rintro ⟨v, _, n, hv, -, hn, hmask, -⟩
  cases hv
  cases hn
  exact absurd hmask (by decide)

end Marshaller

end TwinHeap
