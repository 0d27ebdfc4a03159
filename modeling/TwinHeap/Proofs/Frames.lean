import TwinHeap.Frame
import TwinHeap.Proofs.Blocks
import TwinHeap.Proofs.Linker

/-!
# Frames — the memory of a call lies inside its words

The words of a frame are reckoned before they have an address: the padding is what the alignment can
ask for beyond a word. `Frame.Fits` is what making a frame guarantees. Wherever the words come to lie,
the start of the usable region is moved by at most the padding (`roundUp_le_add_padding`), so the
region ends inside the words, and with it whatever was laid out for it: the parameters of a function
and the scratch slots of a linker (`call_memory_within`).
-/

namespace TwinHeap

theorem isPowerOfTwo_iff {n : Nat} : isPowerOfTwo n = true ↔ n.isPowerOfTwo := by
  unfold isPowerOfTwo
  by_cases hn : n = 0
  · subst hn
    exact iff_of_false (by decide) fun h => absurd (Nat.pos_of_isPowerOfTwo h) (by decide)
  · rw [← Nat.and_sub_one_eq_zero_iff_isPowerOfTwo hn]
    simp [hn]

theorem isPowerOfTwo_wordSize : wordSize.isPowerOfTwo := ⟨3, rfl⟩

/-- From a whole word on, rounding up stays within the padding. -/
theorem roundUp_le_add_padding {a base : Nat} (ha : a.isPowerOfTwo) (hbase : wordSize ∣ base) :
    roundUp base a ≤ base + Frame.padding a := by
  unfold Frame.padding
  by_cases hle : a ≤ wordSize
  · -- The words are aligned already.
    have hdvd : a ∣ base := Nat.dvd_trans (dvd_of_le_of_isPowerOfTwo ha isPowerOfTwo_wordSize hle) hbase
    exact Nat.le_trans ((isLeast_roundUp ha base).2 ⟨hdvd, Nat.le_refl _⟩) (Nat.le_add_right _ _)
  · -- Both ends are whole words, so the last step is not one of less than a word.
    have hword : wordSize ∣ a :=
      dvd_of_le_of_isPowerOfTwo isPowerOfTwo_wordSize ha (Nat.le_of_not_le hle)
    have hround : wordSize ∣ roundUp base a := Nat.dvd_trans hword (dvd_roundUp ha base)
    have hbound := roundUp_le base a
    unfold wordSize at *
    omega

namespace Frame

variable {f : Frame} {len align base start : Nat}

/-- The bytes that a frame needs wherever its words lie. -/
def needed (len align : Nat) : Nat := len + padding (max align 1)

/-! ## Making a frame -/

/-- What a frame that was made guarantees: an alignment that can be asked for, and as many words as
the length and the padding take. -/
structure Fits (f : Frame) : Prop where
  align : f.align.isPowerOfTwo
  room : f.len + padding f.align ≤ wordSize * f.words
  tight : wordSize * f.words < f.len + padding f.align + wordSize

/-- As many whole words as `n` bytes take, and not one more. -/
theorem words_bounds (n : Nat) : n ≤ wordSize * ((n + wordSize - 1) / wordSize) ∧
    wordSize * ((n + wordSize - 1) / wordSize) < n + wordSize := by
  unfold wordSize
  omega

theorem make_of_not_isPowerOfTwo (h : ¬(max align 1).isPowerOfTwo) :
    make len align = .error .alignment := by
  unfold make
  dsimp only
  rw [if_neg (mt isPowerOfTwo_iff.1 h)]

/-- The two sums fit in 64 bits together. -/
theorem make_of_lt (h : (max align 1).isPowerOfTwo)
    (hlt : needed len align + wordSize < wordModulus) : make len align =
      if (needed len align + wordSize - 1) / wordSize * wordSize ≤ allocationLimit then
        .ok ⟨len, max align 1, (needed len align + wordSize - 1) / wordSize⟩
      else .error (.overflow .capacity) := by
  have hsums : (checkedAdd len (padding (max align 1)) >>= fun n => checkedAdd n wordSize) =
      .ok (needed len align + wordSize) := by
    rw [checkedAdd_eq_ok_iff.2 ⟨Nat.lt_of_le_of_lt (Nat.le_add_right _ wordSize) hlt, rfl⟩]
    exact checkedAdd_eq_ok_iff.2 ⟨hlt, rfl⟩
  unfold make
  dsimp only
  rw [if_pos (isPowerOfTwo_iff.2 h), hsums]

theorem make_of_ge (h : (max align 1).isPowerOfTwo)
    (hge : wordModulus ≤ needed len align + wordSize) :
    make len align = .error (.overflow .addition) := by
  have hsums : (checkedAdd len (padding (max align 1)) >>= fun n => checkedAdd n wordSize) =
      .error .addition := by
    unfold checkedAdd
    by_cases hfirst : len + padding (max align 1) < wordModulus
    · rw [if_pos hfirst]
      exact if_neg (Nat.not_lt.2 hge)
    · rw [if_neg hfirst]
      rfl
  unfold make
  dsimp only
  rw [if_pos (isPowerOfTwo_iff.2 h), hsums]

theorem fits_of_make (h : make len align = .ok f) :
    f.Fits ∧ f.len = len ∧ f.align = max align 1 := by
  by_cases hpow : (max align 1).isPowerOfTwo
  case neg => cases (make_of_not_isPowerOfTwo hpow).symm.trans h
  by_cases hlt : needed len align + wordSize < wordModulus
  case neg => cases (make_of_ge hpow (Nat.le_of_not_lt hlt)).symm.trans h
  rw [make_of_lt hpow hlt] at h
  split at h <;> cases h
  obtain ⟨hroom, htight⟩ := words_bounds (needed len align)
  exact ⟨⟨hpow, hroom, htight⟩, rfl, rfl⟩

/-! ## Where the region lies -/

/-- The words of the frame may lie at `base`: at a whole word, and such that the word behind them has
an address. -/
def MayLieAt (f : Frame) (base : Nat) : Prop :=
  wordSize ∣ base ∧ base + wordSize * (f.words + 1) < wordModulus

theorem start_eq (h : base + f.align < wordModulus) (hpos : 0 < f.align) :
    f.start base = .ok (roundUp base f.align) := by
  unfold start roundUp
  rw [checkedAdd_eq_ok_iff.2 ⟨h, rfl⟩, ← Nat.add_sub_assoc hpos]
  rfl

theorem Fits.exists_start (h : f.Fits) (hbase : f.MayLieAt base) :
    ∃ start, f.start base = .ok start ∧ f.align ∣ start ∧ base ≤ start ∧
      start + f.len ≤ base + wordSize * f.words := by
  have hroom := h.room
  have hlimit := hbase.2
  have hsum : base + f.align < wordModulus := by
    unfold padding wordSize at *
    omega
  refine ⟨_, start_eq hsum (Nat.pos_of_isPowerOfTwo h.align), dvd_roundUp h.align base,
    le_roundUp base f.align, ?_⟩
  have hshift := roundUp_le_add_padding h.align hbase.1
  omega

theorem cleared_eq (f : Frame) : f.cleared = List.replicate (wordSize * f.words) .zero := by
  have hword : (littleEndian wordSize 0).map Octet.value = List.replicate wordSize .zero := rfl
  unfold cleared
  rw [List.flatMap_replicate, hword, List.flatten_replicate_replicate, Nat.mul_comm]

theorem region_eq {shift : Nat} (h : shift + f.len ≤ wordSize * f.words) :
    f.region shift = List.replicate f.len .zero := by
  unfold region
  rw [cleared_eq, List.drop_replicate, List.take_replicate, Nat.min_eq_left (by omega)]

theorem Fits.spilled_iff (h : f.Fits) :
    f.spilled = true ↔ wordSize * inlineWords < f.len + padding f.align := by
  have hroom := h.room
  have htight := h.tight
  unfold spilled inlineWords wordSize at *
  rw [decide_eq_true_iff]
  omega

/-- The start that a frame has is the aligned one inside the words. -/
theorem Fits.of_start (h : f.Fits) (hbase : f.MayLieAt base) (hstart : f.start base = .ok start) :
    f.align ∣ start ∧ base ≤ start ∧ start + f.len ≤ base + wordSize * f.words := by
  obtain ⟨_, hs, hinside⟩ := h.exists_start hbase
  cases hs.symm.trans hstart
  exact hinside

end Frame

/-! ## What lies in a frame -/

variable {frame : Frame} {base start : Nat}

/-- Of properties in order none ends behind the last. -/
theorem Property.stop_le_lastStop {ps : List Property} {p : Property}
    (h : ps.Pairwise fun p q => p.stop ≤ q.offset) (hp : p ∈ ps) (first : Nat) :
    p.stop ≤ lastStop first ps := by
  induction ps generalizing first p with
  | nil => cases hp
  | cons q ps ih =>
    obtain ⟨hq, hrest⟩ := List.pairwise_cons.1 h
    obtain rfl | hp := List.mem_cons.1 hp
    · cases ps with
      | nil => exact Nat.le_refl _
      | cons r rest =>
        have hr : r.stop ≤ lastStop p.stop (r :: rest) := ih hrest List.mem_cons_self _
        have hnext : p.stop ≤ r.offset := hq r List.mem_cons_self
        exact Nat.le_trans hnext (Nat.le_trans (Nat.le_add_right _ _) hr)
    · exact ih hrest hp _

/-- The parameters of a call lie aligned inside the frame that is made for their block. -/
theorem Function.Arranged.within_frame {layoutOf : Kind → Layout} {ds : List ParamDecl}
    {function : Function} (h : function.Arranged layoutOf ds)
    (hpow : ∀ p ∈ function.params, p.align.isPowerOfTwo)
    (hmake : Frame.make function.block.size function.block.align = .ok frame)
    (hbase : frame.MayLieAt base) (hstart : frame.start base = .ok start) :
    ∀ p ∈ function.params, p.align ∣ start + p.offset ∧ base ≤ start + p.offset ∧
      start + p.stop ≤ base + wordSize * frame.words := by
  obtain ⟨hfits, hlen, halign⟩ := Frame.fits_of_make hmake
  obtain ⟨hdvd, hle, hend⟩ := hfits.of_start hbase hstart
  have hblock : frame.align = function.block.align :=
    halign.trans (Nat.max_eq_left (h.greatest.2 List.mem_cons_self))
  intro p hp
  have hstop : p.stop ≤ function.block.size :=
    Nat.le_trans (Property.stop_le_lastStop h.ordered hp 0) h.within
  exact ⟨(h.aligned hpow).addresses start (hblock ▸ hdvd) p hp, Nat.le_add_right_of_le hle,
    by omega⟩

/-- The scratch slots of a call lie aligned inside the frame that is made for them. -/
theorem Linker.within_frame {registry : Registry} {function : Function} {method : ForeignMethod}
    {k : Linker} (h : Linker.link registry function method = .ok k)
    (hmake : Frame.make k.scratchSize addressSize = .ok frame)
    (hbase : frame.MayLieAt base) (hstart : frame.start base = .ok start) :
    ∀ a ∈ k.linkage.args, addressSize ∣ start + a.scratchOffset ∧ base ≤ start + a.scratchOffset ∧
      start + a.scratchOffset + a.marshaller.slotSize ≤ base + wordSize * frame.words := by
  obtain ⟨hfits, hlen, halign⟩ := Frame.fits_of_make hmake
  obtain ⟨hdvd, hle, hend⟩ := hfits.of_start hbase hstart
  have htiles := (Linker.traces_of_link h).tiles
  have hslots : frame.align = addressSize := halign
  intro a ha
  have hwithin := (htiles.within ha).2
  have hoffset : addressSize ∣ a.scratchOffset := htiles.aligned (Nat.dvd_zero _) ha
  exact ⟨Nat.dvd_add (hslots ▸ hdvd) hoffset, Nat.le_add_right_of_le hle, by omega⟩

/-! ## The memory of a call -/

/-- The sums that a length and an alignment come to do not decide alone whether a frame can be made:
no allocation has more than `allocationLimit` bytes. -/
theorem too_large_for_frame : ¬∀ len align, (max align 1).isPowerOfTwo →
    len + Frame.padding (max align 1) + wordSize < wordModulus →
      ∃ f, Frame.make len align = .ok f := by
  intro h
  have hlimit : Frame.make (2 ^ 63) 8 = .error (.overflow .capacity) := by decide +kernel
  obtain ⟨f, hf⟩ := h (2 ^ 63) 8 ⟨3, rfl⟩ (by decide)
  cases hlimit.symm.trans hf

/-- A frame is made for a length and a power of two if its words can be allocated. It is spilled
if it needs more than is kept in place. Wherever its words may lie, there is an aligned start from
which the whole length is inside the words, and cleared. There is no frame for another alignment. So
the parameters of a function with such alignments lie inside the frame of a call, aligned and apart,
and the slots of a linker, each with its staging record, lie so in the frame for the scratch memory. -/
theorem call_memory_within :
    (∀ len align, ¬(max align 1).isPowerOfTwo → Frame.make len align = .error .alignment) ∧
    (∀ len align, (max align 1).isPowerOfTwo →
      len + Frame.padding (max align 1) + wordSize < wordModulus →
      if (len + Frame.padding (max align 1) + wordSize - 1) / wordSize * wordSize ≤
          allocationLimit then
        ∃ f, Frame.make len align = .ok f ∧ f.len = len ∧
          (f.spilled = true ↔ wordSize * inlineWords < len + Frame.padding (max align 1)) ∧
          ∀ base, f.MayLieAt base → ∃ start, f.start base = .ok start ∧ max align 1 ∣ start ∧
            base ≤ start ∧ start + len ≤ base + wordSize * f.words ∧
            f.region (start - base) = List.replicate len .zero
      else Frame.make len align = .error (.overflow .capacity)) ∧
    (∀ owner name flags layoutOf ds function f base start,
      Function.build owner name flags layoutOf ds = .ok function →
      (∀ p ∈ function.params, p.align.isPowerOfTwo) →
      Frame.make function.block.size function.block.align = .ok f →
      f.MayLieAt base → f.start base = .ok start →
      (∀ p ∈ function.params, p.align ∣ start + p.offset ∧ base ≤ start + p.offset ∧
        start + p.stop ≤ base + wordSize * f.words) ∧
      function.params.Pairwise fun p q => p.stop ≤ q.offset) ∧
    ∀ registry function method k f base start,
      Linker.link registry function method = .ok k → Frame.make k.scratchSize addressSize = .ok f →
      f.MayLieAt base → f.start base = .ok start →
      (∀ a ∈ k.linkage.args, addressSize ∣ start + a.scratchOffset ∧ base ≤ start + a.scratchOffset ∧
        start + a.scratchOffset + (addressSize + a.marshaller.scratchBytes) ≤
          base + wordSize * f.words) ∧
      k.linkage.args.Pairwise fun a b =>
        a.scratchOffset + (addressSize + a.marshaller.scratchBytes) ≤ b.scratchOffset := by
  refine ⟨fun len align => Frame.make_of_not_isPowerOfTwo, fun len align hpow hlt => ?_, ?_, ?_⟩
  · have hmake := Frame.make_of_lt hpow hlt
    split
    case isTrue hcapacity =>
      have hmake := hmake.trans (if_pos hcapacity)
      obtain ⟨hfits, hlen, halign⟩ := Frame.fits_of_make hmake
      refine ⟨_, hmake, hlen, hfits.spilled_iff, fun base hbase => ?_⟩
      obtain ⟨start, hstart, hdvd, hle, hend⟩ := hfits.exists_start hbase
      exact ⟨start, hstart, hdvd, hle, hend, Frame.region_eq (by omega)⟩
    case isFalse hcapacity => exact hmake.trans (if_neg hcapacity)
  · intro _ _ _ _ _ function f base start hbuild hpow hmake hbase hstart
    have harranged := Function.arranged_of_build hbuild
    exact ⟨harranged.within_frame hpow hmake hbase hstart, harranged.ordered⟩
  · intro _ _ _ k f base start hlink hmake hbase hstart
    simp only [← Marshaller.slotSize_eq]
    exact ⟨Linker.within_frame hlink hmake hbase hstart, (Linker.traces_of_link hlink).tiles.apart⟩

namespace Sample

/-- Values that are aligned more strictly than the words of a frame. -/
def lanes : Kind := .struct ⟨"Lanes", "Core", ⟨40, 32⟩⟩

/-- A function that takes such a value and a flag behind it. -/
def blend : Function :=
  ⟨"Actor", "Blend", .none,
    [⟨"Lanes", lanes, 40, 32, 0, { ParamFlags.none with param := true }⟩,
      ⟨"Flag", .bool 1, 1, 1, 40, { ParamFlags.none with param := true }⟩], ⟨64, 32⟩⟩

end Sample

/-- `call_memory_within` where the words of a frame begin one word behind an aligned address. -/
theorem call_memory_within_blend :
    Frame.make 8 24 = .error .alignment ∧
    (∃ f start, Frame.make 64 32 = .ok f ∧ f.MayLieAt 40 ∧ f.start 40 = .ok start ∧
      start + 64 ≤ 40 + wordSize * f.words ∧ f.region (start - 40) = List.replicate 64 .zero) ∧
    (Function.build "Actor" "Blend" .none Kind.hostLayout
        [.input "Lanes" Sample.lanes, .input "Flag" (.bool 1)] = .ok Sample.blend ∧
      ∀ p ∈ Sample.blend.params, p.align ∣ 64 + p.offset ∧ 64 + p.stop ≤ 40 + wordSize * 11) ∧
    Linker.link .default Sample.spawn Sample.spawnMethod = .ok Sample.spawnLinker ∧
      ∀ a ∈ Sample.spawnLinker.linkage.args,
        40 + a.scratchOffset + (addressSize + a.marshaller.scratchBytes) ≤ 40 + wordSize * 3 := by
  obtain ⟨halign, hmake, hfunction, hlinker⟩ := call_memory_within
  have hbuild : Function.build "Actor" "Blend" .none Kind.hostLayout
      [.input "Lanes" Sample.lanes, .input "Flag" (.bool 1)] = .ok Sample.blend := rfl
  have hpow : ∀ p ∈ Sample.blend.params, p.align.isPowerOfTwo :=
    List.forall_mem_cons.2 ⟨⟨5, rfl⟩, List.forall_mem_cons.2 ⟨⟨0, rfl⟩, nofun⟩⟩
  have hlink : Linker.link .default Sample.spawn Sample.spawnMethod = .ok Sample.spawnLinker := by
    decide +kernel
  have hwide : Frame.MayLieAt ⟨64, 32, 11⟩ 40 := ⟨⟨5, rfl⟩, by decide⟩
  have hnarrow : Frame.MayLieAt ⟨24, 8, 3⟩ 40 := ⟨⟨5, rfl⟩, by decide⟩
  refine ⟨halign 8 24 ?_, ?_, ⟨hbuild, fun p hp => ?_⟩, hlink, fun a ha => ?_⟩
  · exact mt isPowerOfTwo_iff.2 (by decide)
  · have h64 := hmake 64 32 ⟨5, rfl⟩ (by decide)
    rw [if_pos (by decide)] at h64
    obtain ⟨f, hf, -, -, hregion⟩ := h64
    have hlies : f.MayLieAt 40 := by
      cases hf
      exact hwide
    obtain ⟨start, hstart, -, -, hend, hzero⟩ := hregion 40 hlies
    exact ⟨f, start, hf, hlies, hstart, hend, hzero⟩
  · obtain ⟨hdvd, -, hstop⟩ := (hfunction _ _ _ _ _ _ _ _ 64 hbuild hpow rfl hwide rfl).1 p hp
    exact ⟨hdvd, hstop⟩
  · obtain ⟨-, -, hstop⟩ := (hlinker _ _ _ _ _ _ 40 hlink rfl hnarrow rfl).1 a ha
    exact hstop

end TwinHeap
