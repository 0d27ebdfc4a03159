import Mathlib.Order.Bounds.Defs
import TwinHeap.Property.Block

/-!
# Blocks — what laying out a function's parameters comes to

`placed` lays parameters out with sums that have no bound. A block is oversized if one of these sums
does not fit in 64 bits; that is the one way for the layout to fail, and otherwise it is what `placed`
says. Whatever the sizes and alignments, parameters stay in order and do not overlap. That each lies at
a multiple of its alignment holds for powers of two only, where clearing the low bits rounds up.
-/

namespace TwinHeap

/-! ## Rounding up -/

theorem checkedRoundUp_eq (v a : Nat) :
    checkedRoundUp v a = if v + a < wordModulus then .ok (roundUp v a) else .error .addition := by
  unfold checkedRoundUp checkedAdd
  by_cases h : v + a < wordModulus
  · rw [if_pos h, if_pos h]
    rfl
  · rw [if_neg h, if_neg h]
    rfl

/-- The low bits below a power of two are the remainder, so clearing them leaves a multiple. -/
theorem dvd_roundUp {a : Nat} (ha : a.isPowerOfTwo) (v : Nat) : a ∣ roundUp v a := by
  obtain ⟨k, rfl⟩ := ha
  unfold roundUp
  rw [Nat.and_two_pow_sub_one_eq_mod]
  exact Nat.dvd_sub_mod _

/-- For a power of two, rounding gives the least multiple that is not below the value. -/
theorem isLeast_roundUp {a : Nat} (ha : a.isPowerOfTwo) (v : Nat) :
    IsLeast {n | a ∣ n ∧ v ≤ n} (roundUp v a) := by
  refine ⟨⟨dvd_roundUp ha v, le_roundUp v a⟩, fun n ⟨hdvd, hle⟩ => ?_⟩
  have hpos : 0 < a := Nat.pos_of_isPowerOfTwo ha
  have hlt : roundUp v a < n + a := by
    have := roundUp_le v a
    omega
  exact Nat.le_of_lt_add_of_dvd hlt (dvd_roundUp ha v) hdvd

/-- Three is no power of two, and one is no multiple of three. -/
example : roundUp 1 3 = 1 := rfl

/-- Of two powers of two the smaller divides the larger. -/
theorem dvd_of_le_of_isPowerOfTwo {a b : Nat} (ha : a.isPowerOfTwo) (hb : b.isPowerOfTwo)
    (h : a ≤ b) : a ∣ b := by
  obtain ⟨k, rfl⟩ := ha
  obtain ⟨l, rfl⟩ := hb
  exact Nat.pow_dvd_pow 2 ((Nat.pow_le_pow_iff_right (by decide)).1 h)

/-! ## Parameters one after the other -/

namespace Property

/-- Where the property ends. -/
def stop (p : Property) : Nat := p.offset + p.size

/-- Where the last of the properties ends; `start` if there is none. -/
def lastStop (start : Nat) : List Property → Nat
  | [] => start
  | p :: ps => lastStop p.stop ps

/-- Each property begins where its own alignment first allows after the one before. -/
def Stacked (start : Nat) : List Property → Prop
  | [] => True
  | p :: ps => p.offset = roundUp start p.align ∧ Stacked p.stop ps

/-- The sums that it takes to stack properties: an end with an alignment, an offset with a size. -/
inductive Sums : Nat → List Property → Nat → Prop
  | start (e : Nat) (p : Property) (ps : List Property) : Sums e (p :: ps) (e + p.align)
  | stop (e : Nat) (p : Property) (ps : List Property) : Sums e (p :: ps) (p.offset + p.size)
  | later {e n : Nat} {p : Property} {ps : List Property} (h : Sums p.stop ps n) :
    Sums e (p :: ps) n

variable {start : Nat} {ps : List Property}

theorem Stacked.le_offset (h : Stacked start ps) : ∀ p ∈ ps, start ≤ p.offset := by
  induction ps generalizing start with
  | nil => exact fun p hp => absurd hp List.not_mem_nil
  | cons p ps ih =>
    have hle : start ≤ p.offset := h.1 ▸ le_roundUp start p.align
    refine List.forall_mem_cons.2 ⟨hle, fun q hq => ?_⟩
    exact Nat.le_trans (Nat.le_trans hle (Nat.le_add_right _ _)) (ih h.2 q hq)

/-- Whatever the alignments, a property begins at or after the end of every earlier one. -/
theorem Stacked.pairwise (h : Stacked start ps) : ps.Pairwise fun p q => p.stop ≤ q.offset := by
  induction ps generalizing start with
  | nil => exact .nil
  | cons p ps ih => exact .cons h.2.le_offset (ih h.2)

/-- The one that follows `front` begins where the end of `front` is rounded to. -/
theorem Stacked.offset_eq {front rest : List Property} {p : Property}
    (h : Stacked start (front ++ p :: rest)) : p.offset = roundUp (lastStop start front) p.align := by
  induction front generalizing start with
  | nil => exact h.1
  | cons q front ih => exact ih h.2

end Property

/-- The property that a declaration becomes behind what ends at `start`. -/
def ParamDecl.placedAt (layoutOf : Kind → Layout) (start : Nat) (d : ParamDecl) : Property :=
  { Property.ofLayout d.name d.kind (layoutOf d.kind) with
    offset := roundUp start (max (layoutOf d.kind).align 1), flags := d.flags }

/-- The parameters placed from `start` on, with sums that have no bound. -/
def placed (layoutOf : Kind → Layout) (start : Nat) : List ParamDecl → List Property
  | [] => []
  | d :: ds =>
    d.placedAt layoutOf start :: placed layoutOf (d.placedAt layoutOf start).stop ds

/-- The block needs a sum that does not fit in 64 bits. -/
def Oversized (layoutOf : Kind → Layout) (ds : List ParamDecl) : Prop :=
  ∃ n, wordModulus ≤ n ∧ (Property.Sums 0 (placed layoutOf 0 ds) n ∨
    n = Property.lastStop 0 (placed layoutOf 0 ds) + blockAlign layoutOf ds)

section Placed

variable {layoutOf : Kind → Layout} {ds : List ParamDecl}

theorem stacked_placed (start : Nat) (ds : List ParamDecl) :
    Property.Stacked start (placed layoutOf start ds) := by
  induction ds generalizing start with
  | nil => trivial
  | cons d ds ih => exact ⟨rfl, ih _⟩

/-- Placing decides the offsets, and nothing else. -/
theorem map_placed (start : Nat) (ds : List ParamDecl) :
    (placed layoutOf start ds).map (fun p => { p with offset := 0 }) =
      ds.map fun d => { Property.ofLayout d.name d.kind (layoutOf d.kind) with flags := d.flags } := by
  induction ds generalizing start with
  | nil => rfl
  | cons d ds ih => exact congrArg _ (ih _)

/-- One parameter is placed if its two sums fit, and then the others behind it. -/
theorem placeParams_cons (start : Nat) (d : ParamDecl) (ds : List ParamDecl) :
    placeParams layoutOf start (d :: ds) =
      if start + (d.placedAt layoutOf start).align < wordModulus ∧
          (d.placedAt layoutOf start).stop < wordModulus then
        (placeParams layoutOf (d.placedAt layoutOf start).stop ds).map fun rest =>
          (d.placedAt layoutOf start :: rest.1, rest.2)
      else .error .addition := by
  generalize hp : d.placedAt layoutOf start = p
  have hplace : placeParams layoutOf start (d :: ds) =
      checkedRoundUp start p.align >>= fun offset => checkedAdd offset p.size >>= fun stop =>
        placeParams layoutOf stop ds >>= fun rest =>
          .ok ({ p with offset := offset } :: rest.1, rest.2) := by
    rw [← hp]
    rfl
  have hoffset : roundUp start p.align = p.offset := by
    rw [← hp]
    rfl
  rw [hplace, checkedRoundUp_eq]
  by_cases hstart : start + p.align < wordModulus
  case neg =>
    rw [if_neg hstart, if_neg (fun h => hstart h.1)]
    rfl
  rw [if_pos hstart, hoffset]
  show (checkedAdd p.offset p.size >>= _) = _
  by_cases hstop : p.stop < wordModulus
  · rw [if_pos ⟨hstart, hstop⟩, checkedAdd_eq_ok_iff.2 ⟨hstop, rfl⟩]
    show (placeParams layoutOf p.stop ds >>= _) = _
    cases placeParams layoutOf p.stop ds <;> rfl
  · rw [if_neg (fun h => hstop h.2), checkedAdd, if_neg (show ¬p.offset + p.size < _ from hstop)]
    rfl

/-- The parameters are placed as they would be without a bound, unless a sum is too large. -/
theorem placeParams_eq (start : Nat) (ds : List ParamDecl) :
    (placeParams layoutOf start ds = .error .addition ∧
      ∃ n, wordModulus ≤ n ∧ Property.Sums start (placed layoutOf start ds) n) ∨
    (placeParams layoutOf start ds =
        .ok (placed layoutOf start ds, Property.lastStop start (placed layoutOf start ds)) ∧
      ∀ n, Property.Sums start (placed layoutOf start ds) n → n < wordModulus) := by
  induction ds generalizing start with
  | nil => exact .inr ⟨rfl, fun n h => nomatch h⟩
  | cons d ds ih =>
    rw [placeParams_cons]
    by_cases hfits : start + (d.placedAt layoutOf start).align < wordModulus ∧
        (d.placedAt layoutOf start).stop < wordModulus
    · rw [if_pos hfits]
      obtain ⟨herror, n, hn, hsum⟩ | ⟨hok, hsums⟩ := ih (d.placedAt layoutOf start).stop
      · rw [herror]
        exact .inl ⟨rfl, n, hn, .later hsum⟩
      · rw [hok]
        refine .inr ⟨rfl, fun n h => ?_⟩
        cases h with
        | start => exact hfits.1
        | stop => exact hfits.2
        | later h => exact hsums n h
    · rw [if_neg hfits]
      refine .inl ⟨rfl, ?_⟩
      obtain hstart | hstop := Decidable.not_and_iff_not_or_not.1 hfits
      · exact ⟨_, Nat.le_of_not_lt hstart, .start ..⟩
      · exact ⟨_, Nat.le_of_not_lt hstop, .stop ..⟩

theorem aligns_placed (start : Nat) (ds : List ParamDecl) :
    (placed layoutOf start ds).map Property.align = ds.map fun d => max (layoutOf d.kind).align 1 := by
  induction ds generalizing start with
  | nil => rfl
  | cons d ds ih => exact congrArg _ (ih _)

theorem isGreatest_blockAlign (start : Nat) (ds : List ParamDecl) :
    IsGreatest {a | a ∈ 1 :: (placed layoutOf start ds).map Property.align}
      (blockAlign layoutOf ds) := by
  rw [aligns_placed]
  have hmax : (1 :: ds.map fun d => max (layoutOf d.kind).align 1).max? =
      some (blockAlign layoutOf ds) := by
    rw [List.max?_cons', List.foldl_map]
    rfl
  exact List.max?_eq_some_iff.1 hmax

end Placed

/-! ## Functions -/

namespace Sample

/-- A flag, two numbers of different width, and a result that is wider than both. -/
def mixedParams : List ParamDecl :=
  [.input "Flag" (.bool 1), .input "Count" (.scalar .int32), .output "Small" (.scalar .int8),
    .result (.scalar .int64)]

end Sample

namespace Function

/-- Every parameter lies at a multiple of its alignment, and no place is wasted on it. -/
structure Aligned (f : Function) : Prop where
  /-- A parameter is at the least multiple of its alignment that is not below the end before it. -/
  offsets : ∀ front p rest, f.params = front ++ p :: rest →
    IsLeast {n | p.align ∣ n ∧ Property.lastStop 0 front ≤ n} p.offset
  /-- The block is closed at the least multiple of its alignment. -/
  size : IsLeast {n | f.block.align ∣ n ∧ Property.lastStop 0 f.params ≤ n} f.block.size
  /-- Where the block itself is aligned, so is every parameter. -/
  addresses : ∀ base, f.block.align ∣ base → ∀ p ∈ f.params, p.align ∣ base + p.offset

/-- The function has the parameters `ds`, laid out one after the other in one block. -/
structure Arranged (layoutOf : Kind → Layout) (ds : List ParamDecl) (f : Function) : Prop where
  /-- Up to where they lie, the parameters are those declared, in the order of declaration. -/
  declared : f.params.map (fun p => { p with offset := 0 }) =
    ds.map fun d => { Property.ofLayout d.name d.kind (layoutOf d.kind) with flags := d.flags }
  /-- A parameter begins at or after the end of every earlier one. -/
  ordered : f.params.Pairwise fun p q => p.stop ≤ q.offset
  within : Property.lastStop 0 f.params ≤ f.block.size
  greatest : IsGreatest {a | a ∈ 1 :: f.params.map Property.align} f.block.align
  aligned : (∀ p ∈ f.params, p.align.isPowerOfTwo) → f.Aligned

variable {layoutOf : Kind → Layout} {ds : List ParamDecl} {f : Function}

theorem aligned_of_stacked (hstacked : Property.Stacked 0 f.params)
    (hgreatest : IsGreatest {a | a ∈ 1 :: f.params.map Property.align} f.block.align)
    (hsize : f.block.size = roundUp (Property.lastStop 0 f.params) f.block.align)
    (hpow : ∀ p ∈ f.params, p.align.isPowerOfTwo) : f.Aligned := by
  have hblock : f.block.align.isPowerOfTwo := by
    obtain h | h := List.mem_cons.1 hgreatest.1
    · rw [h]
      exact Nat.isPowerOfTwo_one
    · obtain ⟨p, hp, h⟩ := List.mem_map.1 h
      rw [← h]
      exact hpow p hp
  have hoffsets : ∀ front p rest, f.params = front ++ p :: rest →
      IsLeast {n | p.align ∣ n ∧ Property.lastStop 0 front ≤ n} p.offset := by
    intro front p rest h
    have hoffset : p.offset = roundUp (Property.lastStop 0 front) p.align := by
      rw [h] at hstacked
      exact hstacked.offset_eq
    rw [hoffset]
    exact isLeast_roundUp (hpow p (h ▸ List.mem_append_cons_self)) _
  refine ⟨hoffsets, hsize ▸ isLeast_roundUp hblock _, fun base hbase p hp => ?_⟩
  obtain ⟨front, rest, h⟩ := List.append_of_mem hp
  have hle : p.align ≤ f.block.align :=
    hgreatest.2 (List.mem_cons_of_mem _ (List.mem_map_of_mem hp))
  have hdvd : p.align ∣ f.block.align := dvd_of_le_of_isPowerOfTwo (hpow p hp) hblock hle
  exact Nat.dvd_add (Nat.dvd_trans hdvd hbase) (hoffsets front p rest h).1.1

theorem arranged_of_placed (hparams : f.params = placed layoutOf 0 ds)
    (hblock : f.block = ⟨roundUp (Property.lastStop 0 (placed layoutOf 0 ds)) (blockAlign layoutOf ds),
      blockAlign layoutOf ds⟩) : f.Arranged layoutOf ds := by
  have hstacked : Property.Stacked 0 f.params := hparams ▸ stacked_placed 0 ds
  have hsize : f.block.size = roundUp (Property.lastStop 0 f.params) f.block.align := by
    rw [hparams, hblock]
  have hgreatest : IsGreatest {a | a ∈ 1 :: f.params.map Property.align} f.block.align := by
    rw [hparams, hblock]
    exact isGreatest_blockAlign 0 ds
  exact {
    declared := hparams ▸ map_placed 0 ds
    ordered := hstacked.pairwise
    within := hsize ▸ le_roundUp _ _
    greatest := hgreatest
    aligned := aligned_of_stacked hstacked hgreatest hsize }

/-- Each parameter has the size of its kind. -/
theorem Arranged.size_eq (h : f.Arranged layoutOf ds) {p : Property} (hp : p ∈ f.params) :
    p.size = (layoutOf p.kind).size := by
  have hmem := List.mem_map_of_mem (f := fun p : Property => { p with offset := 0 }) hp
  rw [h.declared] at hmem
  obtain ⟨d, -, hd⟩ := List.mem_map.1 hmem
  have hkind : d.kind = p.kind := congrArg Property.kind hd
  have hsize : (layoutOf d.kind).size = p.size := congrArg Property.size hd
  rw [← hkind, hsize]

variable {owner name : String} {flags : FunctionFlags}

theorem build_cases (owner name : String) (flags : FunctionFlags) (layoutOf : Kind → Layout)
    (ds : List ParamDecl) :
    (build owner name flags layoutOf ds = .error .addition ∧ Oversized layoutOf ds) ∨
      (¬Oversized layoutOf ds ∧ ∃ f, build owner name flags layoutOf ds = .ok f ∧
        f.params = placed layoutOf 0 ds ∧
        f.block = ⟨roundUp (Property.lastStop 0 (placed layoutOf 0 ds)) (blockAlign layoutOf ds),
          blockAlign layoutOf ds⟩) := by
  unfold build
  obtain ⟨herror, n, hn, hsum⟩ | ⟨hok, hsums⟩ := placeParams_eq 0 ds
  · rw [herror]
    exact .inl ⟨rfl, n, hn, .inl hsum⟩
  rw [hok]
  simp only [bind, Except.bind, checkedRoundUp_eq]
  by_cases hclose : Property.lastStop 0 (placed layoutOf 0 ds) + blockAlign layoutOf ds < wordModulus
  case neg =>
    rw [if_neg hclose]
    exact .inl ⟨rfl, _, Nat.le_of_not_lt hclose, .inr rfl⟩
  rw [if_pos hclose]
  refine .inr ⟨?_, _, rfl, rfl, rfl⟩
  rintro ⟨n, hn, hsum | rfl⟩
  · exact Nat.not_lt.2 hn (hsums n hsum)
  · exact Nat.not_lt.2 hn hclose

theorem arranged_of_build (h : build owner name flags layoutOf ds = .ok f) :
    f.Arranged layoutOf ds := by
  obtain ⟨herror, -⟩ | ⟨-, f', hf', hparams, hblock⟩ := build_cases owner name flags layoutOf ds
  · cases herror.symm.trans h
  · cases hf'.symm.trans h
    exact arranged_of_placed hparams hblock

/-- Laying out overflows exactly if a sum does not fit, and otherwise gives the function: its
parameters are in order and apart, and aligned if all alignments are powers of two. -/
theorem built_or_oversized (owner name : String) (flags : FunctionFlags)
    (layoutOf : Kind → Layout) (ds : List ParamDecl) :
    (build owner name flags layoutOf ds = .error .addition ∧ Oversized layoutOf ds) ∨
      (¬Oversized layoutOf ds ∧
        ∃ f, build owner name flags layoutOf ds = .ok f ∧ f.Arranged layoutOf ds) := by
  obtain hoversized | ⟨hfits, f, hf, hparams, hblock⟩ := build_cases owner name flags layoutOf ds
  · exact .inl hoversized
  · exact .inr ⟨hfits, f, hf, arranged_of_placed hparams hblock⟩

theorem built_of_mixedParams :
    ∃ f, build "Actor" "Tally" .none Kind.hostLayout Sample.mixedParams = .ok f ∧
      f.params.map Property.offset = [0, 4, 8, 16] ∧ f.block = ⟨24, 8⟩ ∧ f.Aligned := by
  obtain ⟨herror, -⟩ | ⟨-, f, hf, harranged⟩ :=
    built_or_oversized "Actor" "Tally" .none Kind.hostLayout Sample.mixedParams
  · cases herror
  · have hpow : ∀ p ∈ f.params, p.align.isPowerOfTwo := by
      cases hf
      intro p hp
      have : p.align ∈ [1, 4, 1, 8] := List.mem_map_of_mem (f := Property.align) hp
      simp only [List.mem_cons, List.not_mem_nil, or_false] at this
      obtain h | h | h | h := this
      · exact ⟨0, h⟩
      · exact ⟨2, h⟩
      · exact ⟨0, h⟩
      · exact ⟨3, h⟩
    refine ⟨f, hf, ?_, ?_, harranged.aligned hpow⟩
    · cases hf
      rfl
    · cases hf
      rfl

end Function

end TwinHeap
