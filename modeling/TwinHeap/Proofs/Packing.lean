import TwinHeap.Container

/-!
# Packing — containers keep the values that are packed into them

A container is written by packing values and read by cutting its bytes into chunks again. For elements
that take space the two undo each other, in both directions (`packing_lossless`). Elements that take
none leave nothing to cut: their number is kept, but reading finds no element (`units_not_restored`).
-/

namespace TwinHeap

/-! ## Numbers in octets -/

theorem octetRange_pos (n : Nat) : 0 < octetRange n := by
  induction n with
  | zero => exact Nat.one_pos
  | succ n ih => exact Nat.mul_pos (by decide) ih

theorem ofLittleEndian_lt (bs : List UInt8) : ofLittleEndian bs < octetRange bs.length := by
  induction bs with
  | nil => exact Nat.one_pos
  | cons b bs ih =>
    have hb : b.toNat < 256 := b.toNat_lt
    rw [ofLittleEndian, List.length_cons, octetRange]
    omega

/-- Octets are those of the number that they are read as. -/
theorem littleEndian_ofLittleEndian (bs : List UInt8) :
    littleEndian bs.length (ofLittleEndian bs) = bs := by
  induction bs with
  | nil => rfl
  | cons b bs ih =>
    have hb : b.toNat < 256 := b.toNat_lt
    have hlow : UInt8.ofNat (b.toNat + 256 * ofLittleEndian bs) = b := by
      rw [← UInt8.toNat_inj, UInt8.toNat_ofNat']
      omega
    have hhigh : (b.toNat + 256 * ofLittleEndian bs) / 256 = ofLittleEndian bs := by omega
    rw [ofLittleEndian, List.length_cons, littleEndian, hlow, hhigh, ih]

/-! ## Values of an element type -/

namespace Element

variable {e : Element} {v : Int} {bytes : List UInt8}

theorem width_pos (h : e ≠ .unit) : 0 < e.width := by
  cases e <;> first | decide | exact absurd rfl h

/-- The type has the value `v`. -/
def Fits (e : Element) (v : Int) : Prop :=
  if e.isSigned then -(octetRange e.width : Int) ≤ 2 * v ∧ 2 * v < octetRange e.width
  else 0 ≤ v ∧ v < octetRange e.width

instance (e : Element) (v : Int) : Decidable (e.Fits v) :=
  inferInstanceAs (Decidable (if e.isSigned then _ else _))

theorem decode_eq (e : Element) (bytes : List UInt8) :
    e.decode bytes =
      if e.isSigned = true ∧ octetRange e.width ≤ 2 * ofLittleEndian bytes then
        (ofLittleEndian bytes : Int) - octetRange e.width
      else ofLittleEndian bytes := by
  simp [decode]

theorem length_encode (e : Element) (v : Int) : (e.encode v).length = e.width :=
  length_littleEndian _ _

theorem ofLittleEndian_encode (e : Element) (v : Int) :
    (ofLittleEndian (e.encode v) : Int) = v % octetRange e.width := by
  have hpos : (0 : Int) < octetRange e.width := Int.natCast_pos.2 (octetRange_pos _)
  have hlt : v % octetRange e.width < octetRange e.width := Int.emod_lt_of_pos v hpos
  have hnonneg : 0 ≤ v % octetRange e.width := Int.emod_nonneg v (Int.ne_of_gt hpos)
  rw [encode, ofLittleEndian_littleEndian, Nat.mod_eq_of_lt (by omega), Int.toNat_of_nonneg hnonneg]

/-- A value of the type is read as it was written. -/
theorem decode_encode (h : e.Fits v) : e.decode (e.encode v) = v := by
  have hread := ofLittleEndian_encode e v
  rw [decode_eq]
  unfold Fits at h
  by_cases hs : e.isSigned = true
  · rw [if_pos hs] at h
    obtain ⟨hlow, hhigh⟩ := h
    by_cases hv : 0 ≤ v
    · rw [Int.emod_eq_of_lt hv (by omega)] at hread
      rw [if_neg (by omega), hread]
    · -- A negative value is written as the number that many below the end of the range.
      have hmod : v % octetRange e.width = v + octetRange e.width := by
        rw [← Int.add_emod_right, Int.emod_eq_of_lt (by omega) (by omega)]
      rw [hmod] at hread
      rw [if_pos ⟨hs, by omega⟩, hread, Int.add_sub_cancel]
  · rw [if_neg hs] at h
    rw [Int.emod_eq_of_lt h.1 h.2] at hread
    rw [if_neg fun hsigned => hs hsigned.1, hread]

/-- What is read is a value of the type. -/
theorem fits_decode (h : bytes.length = e.width) : e.Fits (e.decode bytes) := by
  have hlt : ofLittleEndian bytes < octetRange e.width := h ▸ ofLittleEndian_lt bytes
  rw [decode_eq]
  unfold Fits
  by_cases hs : e.isSigned = true
  · rw [if_pos hs]
    by_cases hlarge : octetRange e.width ≤ 2 * ofLittleEndian bytes
    · rw [if_pos ⟨hs, hlarge⟩]
      omega
    · rw [if_neg fun hnegative => hlarge hnegative.2]
      omega
  · rw [if_neg hs, if_neg fun hsigned => hs hsigned.1]
    omega

/-- And it is written as it was read. -/
theorem encode_decode (h : bytes.length = e.width) : e.encode (e.decode bytes) = bytes := by
  have hlt : ofLittleEndian bytes < octetRange e.width := h ▸ ofLittleEndian_lt bytes
  have hmod : e.decode bytes % octetRange e.width = ofLittleEndian bytes := by
    have hself : (ofLittleEndian bytes : Int) % octetRange e.width = ofLittleEndian bytes :=
      Int.emod_eq_of_lt (Int.natCast_nonneg _) (Int.ofNat_lt.2 hlt)
    rw [decode_eq]
    split
    · rw [Int.sub_emod_right, hself]
    · exact hself
  rw [encode, hmod, Int.toNat_natCast, ← h, littleEndian_ofLittleEndian]

end Element

/-! ## Chunks -/

namespace Container

variable {size n : Nat} {es : List (List UInt8)}

/-- What was put together of chunks is cut into them. -/
theorem chunks_flatten (hpos : 0 < size) (hes : ∀ c ∈ es, c.length = size) (hn : es.length ≤ n) :
    chunks size n es.flatten = es := by
  induction es generalizing n with
  | nil =>
    cases n with
    | zero => rfl
    | succ n => exact if_pos hpos
  | cons c es ih =>
    obtain ⟨n, rfl⟩ : ∃ m, n = m + 1 := ⟨n - 1, by rw [List.length_cons] at hn; omega⟩
    have hc : c.length = size := hes c List.mem_cons_self
    have hlong : ¬(c ++ es.flatten).length < size := by
      rw [List.length_append, hc]
      omega
    rw [List.flatten_cons, chunks, if_neg hlong, ← hc, List.take_left, List.drop_left, hc,
      ih (fun c hc => hes c (List.mem_cons_of_mem _ hc)) (Nat.le_of_succ_le_succ hn)]

/-- Bytes that divide evenly are put together of chunks. -/
theorem exists_chunks {bytes : List UInt8} (h : bytes.length = n * size) :
    ∃ es : List (List UInt8), es.length = n ∧ (∀ c ∈ es, c.length = size) ∧ es.flatten = bytes := by
  induction n generalizing bytes with
  | zero =>
    rw [Nat.zero_mul] at h
    exact ⟨[], rfl, nofun, (List.length_eq_zero_iff.1 h).symm⟩
  | succ n ih =>
    rw [Nat.succ_mul] at h
    have hrest : (bytes.drop size).length = n * size := by
      rw [List.length_drop]
      omega
    obtain ⟨es, hlength, hes, hflat⟩ := ih hrest
    refine ⟨bytes.take size :: es, by rw [List.length_cons, hlength], ?_, ?_⟩
    · intro c hc
      rcases List.mem_cons.1 hc with rfl | hc
      · rw [List.length_take]
        omega
      · exact hes c hc
    · rw [List.flatten_cons, hflat, List.take_append_drop]

theorem length_flatten_of_size (hes : ∀ c ∈ es, c.length = size) :
    es.flatten.length = es.length * size := by
  induction es with
  | nil => simp
  | cons c es ih =>
    rw [List.flatten_cons, List.length_append, hes c List.mem_cons_self,
      ih fun c hc => hes c (List.mem_cons_of_mem _ hc), List.length_cons, Nat.succ_mul, Nat.add_comm]

/-! ## Elements -/

/-- The bytes have to be as many as the elements take, and that has to be a number of 64 bits. -/
theorem elements_eq (size n : Nat) (bytes : List UInt8) :
    (Container.mk bytes n).elements size =
      if wordModulus ≤ n * size then .error (.overflow .multiplication)
      else if bytes.length = n * size then
        .ok ((chunks (max size 1) bytes.length bytes).take n)
      else .error (.elementSize bytes.length (n * size)) := by
  unfold elements checkedMul
  dsimp only
  by_cases h : n * size < wordModulus
  · rw [if_pos h, if_neg (Nat.not_le.2 h)]
  · rw [if_neg h, if_pos (Nat.not_lt.1 h)]

/-- Elements that take space are found again. -/
theorem elements_ofElements (hpos : 0 < size) (hes : ∀ c ∈ es, c.length = size)
    (hfit : es.length * size < wordModulus) : (ofElements es).elements size = .ok es := by
  have hlength := length_flatten_of_size hes
  have hfuel : es.length ≤ es.flatten.length := hlength ▸ Nat.le_mul_of_pos_right _ hpos
  rw [ofElements, elements_eq, Nat.max_eq_left hpos, if_neg (Nat.not_le.2 hfit), if_pos hlength,
    chunks_flatten hpos hes hfuel, List.take_length]

/-- Elements that take none are not found, however many there are. -/
theorem elements_zero (n : Nat) : (Container.mk [] n).elements 0 = .ok [] := by
  rw [elements_eq, Nat.mul_zero, if_neg (by decide), if_pos List.length_nil]
  exact congrArg Except.ok List.take_nil

/-! ## Values -/

variable {e : Element} {vs : List Int} {bytes : List UInt8}

theorem values_ofValues (hpos : 0 < e.width) (hvs : ∀ v ∈ vs, e.Fits v)
    (hfit : vs.length * e.width < wordModulus) : (ofValues e vs).values e = .ok vs := by
  have hsize (c : List UInt8) (hc : c ∈ vs.map e.encode) : c.length = e.width := by
    obtain ⟨v, -, rfl⟩ := List.mem_map.1 hc
    exact e.length_encode v
  have hsame : ∀ v ∈ vs, (e.decode ∘ e.encode) v = id v := fun v hv => e.decode_encode (hvs v hv)
  unfold values ofValues
  rw [elements_ofElements hpos hsize (by rwa [List.length_map])]
  show Except.ok ((vs.map e.encode).map e.decode) = _
  rw [List.map_map, List.map_congr_left hsame, List.map_id]

theorem values_ofValues_of_large (hlarge : wordModulus ≤ vs.length * e.width) :
    (ofValues e vs).values e = .error (.overflow .multiplication) := by
  rw [values, ofValues, ofElements, elements_eq, if_pos (by rwa [List.length_map])]
  rfl

/-- Bytes that divide evenly are read as values that pack into these bytes. -/
theorem ofValues_values (hpos : 0 < e.width) (hlength : bytes.length = n * e.width)
    (hfit : n * e.width < wordModulus) :
    ∃ vs, (Container.mk bytes n).values e = .ok vs ∧ (∀ v ∈ vs, e.Fits v) ∧
      ofValues e vs = ⟨bytes, n⟩ := by
  obtain ⟨es, rfl, hes, rfl⟩ := exists_chunks hlength
  have hread : (ofElements es).elements e.width = .ok es := elements_ofElements hpos hes hfit
  have hsame : ∀ c ∈ es, (e.encode ∘ e.decode) c = id c := fun c hc => e.encode_decode (hes c hc)
  refine ⟨es.map e.decode, ?_, fun v hv => ?_, ?_⟩
  · show ((ofElements es).elements e.width).map _ = _
    rw [hread]
    rfl
  · obtain ⟨c, hc, rfl⟩ := List.mem_map.1 hv
    exact e.fits_decode (hes c hc)
  · rw [ofValues, List.map_map, List.map_congr_left hsame, List.map_id]
    rfl

/-- Bytes are only read if they are as many as the elements take. -/
theorem length_of_values (h : (Container.mk bytes n).values e = .ok vs) :
    bytes.length = n * e.width ∧ n * e.width < wordModulus := by
  unfold values at h
  rw [elements_eq] at h
  split at h
  · cases h
  · split at h
    · exact ⟨‹_›, Nat.lt_of_not_le ‹_›⟩
    · cases h

/-! ## Values without a size -/

theorem ofValues_unit (vs : List Int) : ofValues .unit vs = ⟨[], vs.length⟩ := by
  have hbytes : (vs.map Element.unit.encode).flatten = [] := by
    rw [List.flatten_eq_nil_iff]
    intro c hc
    obtain ⟨v, -, rfl⟩ := List.mem_map.1 hc
    rfl
  rw [ofValues, ofElements, hbytes, List.length_map]

theorem values_unit (n : Nat) : (Container.mk [] n).values .unit = .ok [] := by
  show ((Container.mk [] n).elements 0).map _ = _
  rw [elements_zero]
  rfl

/-- Values without a size leave no bytes, so none is ever read. -/
theorem eq_nil_of_values_unit (h : (Container.mk bytes n).values .unit = .ok vs) :
    bytes = [] ∧ vs = [] := by
  obtain ⟨hlength, -⟩ := length_of_values h
  obtain rfl : bytes = [] := List.length_eq_zero_iff.1 hlength
  exact ⟨rfl, (Except.ok.inj ((values_unit n).symm.trans h)).symm⟩

/-- Bytes are read just if they are as many as the elements take. -/
theorem exists_values_iff :
    (∃ vs, (Container.mk bytes n).values e = .ok vs) ↔
      bytes.length = n * e.width ∧ n * e.width < wordModulus := by
  refine ⟨fun ⟨_, hvs⟩ => length_of_values hvs, fun ⟨hlength, hfit⟩ => ?_⟩
  by_cases hunit : e = .unit
  · subst hunit
    obtain rfl : bytes = [] := List.length_eq_zero_iff.1 hlength
    exact ⟨[], values_unit n⟩
  · obtain ⟨vs, hvs, -⟩ := ofValues_values (e.width_pos hunit) hlength hfit
    exact ⟨vs, hvs⟩

end Container

open Container in
/-- Packing keeps the number of the values, and they are read as they were packed. Bytes are read just
if they are as many as the elements take, counted in 64 bits, and what is read packs into the same
bytes and number. Values without a size are the exception: none is read, whatever their number. -/
theorem packing_lossless (e : Element) :
    (∀ vs : List Int, (∀ v ∈ vs, e.Fits v) → (ofValues e vs).len = vs.length ∧
      (ofValues e vs).values e =
        if wordModulus ≤ vs.length * e.width then .error (.overflow .multiplication)
        else .ok (if e = .unit then [] else vs)) ∧
    ∀ (bytes : List UInt8) (n : Nat),
      ((∃ vs, (Container.mk bytes n).values e = .ok vs) ↔
        bytes.length = n * e.width ∧ n * e.width < wordModulus) ∧
      ∀ vs, (Container.mk bytes n).values e = .ok vs →
        (∀ v ∈ vs, e.Fits v) ∧ ofValues e vs = ⟨bytes, if e = .unit then 0 else n⟩ := by
  refine ⟨fun vs hvs => ⟨List.length_map _, ?_⟩, fun bytes n => ⟨exists_values_iff, ?_⟩⟩
  · by_cases hlarge : wordModulus ≤ vs.length * e.width
    · rw [if_pos hlarge, values_ofValues_of_large hlarge]
    · rw [if_neg hlarge]
      by_cases hunit : e = .unit
      · subst hunit
        rw [ofValues_unit, values_unit, if_pos rfl]
      · rw [values_ofValues (e.width_pos hunit) hvs (Nat.lt_of_not_le hlarge), if_neg hunit]
  · intro vs hvs
    by_cases hunit : e = .unit
    · subst hunit
      obtain ⟨rfl, rfl⟩ := eq_nil_of_values_unit hvs
      exact ⟨nofun, ofValues_unit []⟩
    · obtain ⟨hlength, hfit⟩ := length_of_values hvs
      obtain ⟨vs', hvs', hfits, hback⟩ := ofValues_values (e.width_pos hunit) hlength hfit
      cases hvs.symm.trans hvs'
      rw [if_neg hunit]
      exact ⟨hfits, hback⟩

/-- Three values without a size are packed and counted, and none of them is read again; nor do the
bytes and the number come back from what was read. -/
theorem units_not_restored :
    (∀ v ∈ [0, 0, 0], Element.unit.Fits v) ∧ (Container.ofValues .unit [0, 0, 0]).len = 3 ∧
      (Container.ofValues .unit [0, 0, 0]).values .unit = .ok [] ∧
      (Container.ofValues .unit [0, 0, 0]).values .unit ≠ .ok [0, 0, 0] ∧
      Container.ofValues .unit [] ≠ Container.ofValues .unit [0, 0, 0] := by
  have hread : (Container.ofValues .unit [0, 0, 0]).values .unit = .ok [] := rfl
  refine ⟨by decide, rfl, hread, ?_, by decide⟩
  rw [hread]
  nofun

end TwinHeap
