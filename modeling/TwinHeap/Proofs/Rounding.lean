import TwinHeap.Double

/-!
# Rounding — a part of a count, cut off, is the part that was meant

The binary fraction that stands for 19/20 is a little too small, so the exact product with a count can
fall short of the whole number that is meant. What is kept of the product is that number again: it can
be held, and the product is nearer to it than to its other neighbours (`portion_eq`).
-/

namespace TwinHeap.Double

variable {x y n num den f e : Nat}

/-! ## Numbers that can be held -/

theorem gap_pos (x : Nat) : 0 < gap x := by
  rw [gap, Nat.one_shiftLeft]
  exact Nat.two_pow_pos _

/-- A number has at most 53 digits in front of the gap. -/
theorem lt_gap (x : Nat) : x < one * gap x := by
  have hlog : x < 2 ^ (x.log2 + 1) := Nat.lt_log2_self
  have hdigits : 2 ^ (x.log2 + 1) ≤ 2 ^ (53 + (x.log2 - 52)) :=
    Nat.pow_le_pow_right (by decide) (by omega)
  rw [gap, one, Nat.one_shiftLeft, Nat.one_shiftLeft, ← Nat.pow_add]
  exact Nat.lt_of_lt_of_le hlog hdigits

/-- Up to the number one, the gap is one; beyond, a number has all its 53 digits. -/
theorem gap_le (x : Nat) : one * gap x ≤ 2 * x ∨ gap x = 1 := by
  by_cases h : x.log2 ≤ 52
  · right
    rw [gap, Nat.sub_eq_zero_of_le h, Nat.shiftLeft_zero]
  · left
    have hne : x ≠ 0 := by
      rintro rfl
      exact h (by decide)
    have hlog : 2 ^ x.log2 ≤ x := Nat.log2_self_le hne
    have hdigits : one * gap x = 2 * 2 ^ x.log2 := by
      rw [gap, one, Nat.one_shiftLeft, Nat.one_shiftLeft, ← Nat.pow_add, ← Nat.pow_succ']
      congr 1
      omega
    omega

theorem gap_dvd_one (h : x < one * one) : gap x ∣ one := by
  have hlog : x.log2 < 106 := by
    by_cases hzero : x = 0
    · subst hzero
      decide
    · exact (Nat.log2_lt hzero).2 h
  rw [gap, one, Nat.one_shiftLeft, Nat.one_shiftLeft]
  exact Nat.pow_dvd_pow 2 (by omega)

/-! ## Rounding -/

/-- A number that can be held is kept. -/
theorem round_of_dvd (h : gap x ∣ x) : round x = x := by
  have hrest : x % gap x = 0 := Nat.mod_eq_zero_of_dvd h
  have hdown : ¬(gap x < 2 * (x % gap x) ∨ (2 * (x % gap x) = gap x ∧ x / gap x % 2 = 1)) := by
    have hpos := gap_pos x
    omega
  simp only [round]
  rw [if_neg hdown, Nat.div_mul_cancel h]

theorem round_of_lt (h : x < one) : round x = x := by
  have hgap : gap x = 1 := by
    rcases gap_le x with hle | hgap
    · have hpos := gap_pos x
      have hsmall : one * gap x < one * 2 := by omega
      have hlt : gap x < 2 := Nat.lt_of_mul_lt_mul_left hsmall
      omega
    · exact hgap
  exact round_of_dvd (hgap ▸ Nat.one_dvd x)

/-- What is kept is at most half a gap away. -/
theorem round_near (x : Nat) : 2 * x ≤ 2 * round x + gap x ∧ 2 * round x ≤ 2 * x + gap x := by
  have hsplit : gap x * (x / gap x) + x % gap x = x := Nat.div_add_mod x (gap x)
  have hrest : x % gap x < gap x := Nat.mod_lt x (gap_pos x)
  rw [Nat.mul_comm] at hsplit
  simp only [round]
  split
  · have hup : (x / gap x + 1) * gap x = x / gap x * gap x + gap x := Nat.succ_mul _ _
    omega
  · omega

/-- The same in units of `1 / den`. -/
theorem round_near_mul (den x : Nat) :
    2 * (den * x) ≤ 2 * (den * round x) + den * gap x ∧
      2 * (den * round x) ≤ 2 * (den * x) + den * gap x := by
  have hscaled {y z : Nat} (h : 2 * y ≤ 2 * z + gap x) :
      2 * (den * y) ≤ 2 * (den * z) + den * gap x := by
    rw [← Nat.mul_left_comm den 2 y, ← Nat.mul_left_comm den 2 z, ← Nat.mul_add]
    exact Nat.mul_le_mul_left den h
  exact ⟨hscaled (round_near x).1, hscaled (round_near x).2⟩

theorem gap_dvd_round (x : Nat) : gap x ∣ round x := by
  simp only [round]
  split <;> exact Nat.dvd_mul_left _ _

/-- A number that can be held is what is kept of everything less than half a gap away from it. -/
theorem round_of_near (hy : gap x ∣ y) (hbelow : 2 * x < 2 * y + gap x)
    (habove : 2 * y < 2 * x + gap x) : round x = y := by
  obtain ⟨k, rfl⟩ := hy
  obtain ⟨j, hj⟩ := gap_dvd_round x
  obtain ⟨hlow, hhigh⟩ := round_near x
  rw [hj] at hlow hhigh ⊢
  -- Two multiples of the gap that are less than a gap apart are the same.
  have hle : j ≤ k := Nat.le_of_lt_succ <| Nat.lt_of_mul_lt_mul_left (a := gap x) <| by
    rw [Nat.mul_succ]
    omega
  have hge : k ≤ j := Nat.le_of_lt_succ <| Nat.lt_of_mul_lt_mul_left (a := gap x) <| by
    rw [Nat.mul_succ]
    omega
  rw [Nat.le_antisymm hle hge]

/-- The gap at the product is at most twice the count. -/
theorem gap_product_le (hle : f ≤ one) (hpos : 0 < n) : gap (n * f) ≤ 2 * n := by
  rcases gap_le (n * f) with hgap | hgap
  · have hproduct : n * f ≤ n * one := Nat.mul_le_mul_left n hle
    have hbound : one * gap (n * f) ≤ one * (2 * n) := by
      rw [Nat.mul_left_comm, Nat.mul_comm one n]
      omega
    exact Nat.le_of_mul_le_mul_left hbound (by decide)
  · omega

/-! ## Parts of a count

The fraction `f` stands for `num / den` and falls short of it by `e / den` of its last digit. -/

section Part

variable {q r : Nat} (hf : den * f + e = num * one) (hn : n * (e + den) < one)

include hf

/-- The exact product, and how much it falls short. -/
theorem product_eq (n : Nat) : den * (n * f) + n * e = n * num * one := by
  rw [Nat.mul_left_comm, ← Nat.mul_add, hf, Nat.mul_assoc]

theorem fraction_le (hnum : num ≤ den) (hden : 0 < den) : f ≤ one := by
  have hle : num * one ≤ den * one := Nat.mul_le_mul_right one hnum
  exact Nat.le_of_mul_le_mul_left (by omega) hden

include hn

/-- Where a whole number is meant, the product is rounded up to it. -/
theorem round_product_of_dvd (he : 2 * e < num) (hnum : num ≤ den) (hq : n * num = den * q) :
    round (n * f) = q * one := by
  have hden : 0 < den := by omega
  have hexact : den * (n * f) + n * e = den * (q * one) := by
    rw [product_eq hf n, hq, Nat.mul_assoc]
  have hbelow : n * f ≤ q * one := Nat.le_of_mul_le_mul_left (by omega) hden
  have hsmall : n * f < one * one := by
    have hcount : n < one := Nat.lt_of_le_of_lt (Nat.le_mul_of_pos_right n (by omega)) hn
    exact Nat.lt_of_le_of_lt (Nat.mul_le_mul_left n (fraction_le hf hnum hden))
      (Nat.mul_lt_mul_of_pos_right hcount (by decide))
  refine round_of_near (Nat.dvd_mul_left_of_dvd (gap_dvd_one hsmall) q) ?_ ?_
  · have hpos := gap_pos (n * f)
    omega
  · -- The gap is more than the product in units of one, and that is more than twice the shortfall.
    have hgap : den * (n * f) < one * (den * gap (n * f)) := by
      rw [Nat.mul_left_comm one den]
      exact Nat.mul_lt_mul_of_pos_left (lt_gap _) hden
    have hshort : one * (2 * (n * e)) + n * one ≤ den * (n * f) + n * e := by
      have hscaled : n * (2 * e + 1) * one ≤ n * num * one :=
        Nat.mul_le_mul_right one (Nat.mul_le_mul_left n he)
      rw [product_eq hf n]
      grind
    have hwide : 2 * (n * e) < den * gap (n * f) := by
      refine Nat.not_le.1 fun hnarrow => ?_
      have hscaled := Nat.mul_le_mul_left one hnarrow
      have hcount : n * one < one * 1 := by
        rw [Nat.mul_add] at hn
        omega
      obtain rfl : n = 0 := by
        rw [Nat.mul_comm] at hcount
        exact Nat.lt_one_iff.1 (Nat.lt_of_mul_lt_mul_left hcount)
      omega
    refine Nat.lt_of_mul_lt_mul_left (a := den) ?_
    rw [Nat.mul_add, Nat.mul_left_comm, Nat.mul_left_comm den 2 (n * f)]
    omega

/-- Elsewhere the product stays between the whole numbers around it. -/
theorem round_product_between (hnum : num ≤ den) (hq : n * num = den * q + r) (hr : 0 < r)
    (hlt : r < den) : q * one ≤ round (n * f) ∧ round (n * f) < (q + 1) * one := by
  have hden : 0 < den := by omega
  have hpos : 0 < n := by
    rcases Nat.eq_zero_or_pos n with rfl | hpos
    · rw [Nat.zero_mul] at hq
      omega
    · exact hpos
  -- A gap is too narrow to reach over the remainder, which is at least one unit.
  have hgap : den * gap (n * f) ≤ den * (2 * n) :=
    Nat.mul_le_mul_left den (gap_product_le (fraction_le hf hnum hden) hpos)
  have hexact : den * (n * f) + n * e = den * (q * one) + r * one := by
    rw [product_eq hf n, hq, Nat.add_mul, Nat.mul_assoc]
  have hrange : one ≤ r * one ∧ r * one + one ≤ den * one := by
    constructor
    · exact Nat.le_mul_of_pos_left one hr
    · rw [← Nat.succ_mul]
      exact Nat.mul_le_mul_right one hlt
  obtain ⟨hlow, hhigh⟩ := round_near_mul den (n * f)
  rw [Nat.mul_add] at hn
  rw [Nat.mul_left_comm, Nat.mul_comm den n] at hgap
  constructor
  · refine Nat.le_of_mul_le_mul_left ?_ hden
    omega
  · refine Nat.lt_of_mul_lt_mul_left (a := den) ?_
    rw [Nat.add_mul, Nat.one_mul, Nat.mul_add]
    omega

/-- Cut off, the product is that part of the count, unless the count is huge. -/
theorem portion_eq (he : 2 * e < num) (hnum : num ≤ den) : portion n f = n * num / den := by
  have hden : 0 < den := by omega
  have hone : 0 < one := by decide
  have hcount : n < one := Nat.lt_of_le_of_lt (Nat.le_mul_of_pos_right n (by omega)) hn
  have hsplit : n * num = den * (n * num / den) + n * num % den := (Nat.div_add_mod _ _).symm
  rw [portion, round_of_lt hcount]
  rcases Nat.eq_zero_or_pos (n * num % den) with hzero | hrest
  · rw [hzero, Nat.add_zero] at hsplit
    rw [round_product_of_dvd hf hn he hnum hsplit, Nat.mul_div_cancel _ hone]
  · obtain ⟨hlow, hhigh⟩ := round_product_between hf hn hnum hsplit hrest (Nat.mod_lt _ hden)
    exact Nat.div_eq_of_lt_le hlow hhigh

end Part

end TwinHeap.Double
